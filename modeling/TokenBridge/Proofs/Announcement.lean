import TokenBridge.Proofs.Encoding
import TokenBridge.Proofs.EpochCap

/-!
# Announcing

A deposit announces its message by an event, whose attributes tell all fields of the message and its
leaf. Whoever reads the fields back has the message that was meant, and can check the leaf. Deposits
alone announce messages, one each. A message is numbered by the deposits before it, so that no two
of a run have the same encoding.
-/

namespace TokenBridge

variable {g : Genesis} {log : List Entry} {env : Env} {s t : Store} {request : Request}
  {receipt : Receipt} {token : Address} {amount : Amount}

namespace Event

variable {event : Event}

/-- What is told under a name. -/
def attribute? (key : String) (event : Event) : Option String := event.attributes.lookup key

/-- The number that is told under a name, as numbers are written. -/
def number? (key : String) (event : Event) : Option Nat :=
  (event.attribute? key).bind fun text => Decimal.ofDigits? text.toList

/-- The message that an event tells, from all its attributes but the leaf. -/
def message? (event : Event) : Option Message := do
  if event.kind ≠ "bridge_message" then none
  let sender ← event.attribute? "sender"
  let recipient ← event.attribute? "recipient"
  let amount ← (event.number? "amount").bind Amount.ofNat?
  let nonce ← (event.number? "nonce").bind word64?
  let asset ← (event.attribute? "data").bind Word256.ofHex?
  let sourceChain ← (event.number? "source_chain").bind word64?
  some { sender, recipient, amount, nonce, data := asset.bytes, sourceChain }

end Event

namespace DepositOrder

variable {order : DepositOrder} {m : Message}

/-- A message about the asset of a deposit is read back from the event of the deposit. -/
theorem message?_announce (hdata : m.data = order.binding.asset.bytes) :
    (order.announce m).message? = some m := by
  have hamount : ((order.announce m).number? "amount").bind Amount.ofNat? = some m.amount := by
    rw [Option.bind_eq_some_iff]
    exact ⟨m.amount.toNat, Decimal.ofDigits?_eq_some_iff.mpr String.toList_ofList,
      Amount.ofNat?_eq_some_iff.mpr rfl⟩
  have hnonce : ((order.announce m).number? "nonce").bind word64? = some m.nonce := by
    rw [Option.bind_eq_some_iff]
    exact ⟨m.nonce.toNat, Decimal.ofDigits?_eq_some_iff.mpr String.toList_ofList,
      word64?_eq_some_iff.mpr rfl⟩
  have hchain : ((order.announce m).number? "source_chain").bind word64? = some m.sourceChain := by
    rw [Option.bind_eq_some_iff]
    exact ⟨m.sourceChain.toNat, Decimal.ofDigits?_eq_some_iff.mpr String.toList_ofList,
      word64?_eq_some_iff.mpr rfl⟩
  have hasset : ((order.announce m).attribute? "data").bind Word256.ofHex? =
      some order.binding.asset :=
    Word256.ofHex?_toHex order.binding.asset
  have hkind : ¬(order.announce m).kind ≠ "bridge_message" := not_not_intro rfl
  rw [Event.message?, if_neg hkind, hamount, hnonce, hasset, hchain]
  cases m
  cases hdata
  rfl

end DepositOrder

/-- The messages that a receipt tells. -/
def Receipt.messages (receipt : Receipt) : List Message := receipt.events.filterMap Event.message?

/-- The subsystem through which a command moves tokens, if it moves any. -/
def Command.subsystem? : Command → Option Subsystem
  | deposit .. => some .deposits
  | receive .. => some .deposits
  | withdraw .. => some .withdrawals
  | _ => none

namespace Entry

/-- A request deposited a token, in one of the two ways. -/
def isDeposit (e : Entry) : Bool :=
  match e.request, e.result with
  | .command _ command, .ok _ => command.subsystem? = some .deposits
  | _, _ => false

/-- The messages that a request announced; one that faults announces none. -/
def announced (e : Entry) : List Message :=
  match e.result with
  | .ok receipt => receipt.messages
  | .error _ => []

theorem isDeposit_error (env : Env) (request : Request) (reason : Fault) (after : Store) :
    isDeposit ⟨env, request, .error reason, after⟩ = false := by
  cases request with
  | _ => rfl

/-- A deposit moved an amount of some token. -/
theorem exists_moved?_of_isDeposit
    (h : isDeposit ⟨env, request, .ok receipt, t⟩ = true) :
    ∃ token amount, moved? .deposit token ⟨env, request, .ok receipt, t⟩ = some amount := by
  cases request with
  | command sender command =>
    cases command with
    | deposit token amount recipient => exact ⟨token, amount, if_pos ⟨rfl, rfl⟩⟩
    | receive owner amount notice => exact ⟨sender, amount, if_pos ⟨rfl, rfl⟩⟩
    | _ => cases h
  | _ => cases h

end Entry

/-- The messages that were announced in a log, in their order. -/
def announcedIn (log : List Entry) : List Message := log.flatMap Entry.announced

/-- A deposit of an amount of a token tells the message that stands for it, under the next number.
The event tells the leaf of the message beside its fields. -/
structure Told (s : Store) (token : Address) (amount : Amount) (receipt : Receipt) (m : Message) :
    Prop where
  amount_ne : amount ≠ .zero
  bound : ∃ b, s.bindings[token]? = some b ∧ b.toAsset amount = .ok m.amount ∧
    b.asset.bytes = m.data
  nonce_eq : s.nextNonce = some m.nonce
  tells : ∃ event, receipt.events = [event] ∧ event.message? = some m ∧
    event.attribute? "leaf" = some m.leaf.toHex

theorem Told.messages_eq {m : Message} (h : Told s token amount receipt m) :
    receipt.messages = [m] := by
  obtain ⟨event, hevents, hmessage, _⟩ := h.tells
  rw [Receipt.messages, hevents, List.filterMap_cons_some hmessage, List.filterMap_nil]

/-- Storing a deposit that was checked tells its message. -/
theorem DepositOrder.exists_told {order : DepositOrder} {recipient : String} {sender : Address}
    {calls : List TokenCall}
    (hcheck : check env.now token amount recipient s = .ok order)
    (hrecord : (order.record sender calls).Yields s receipt t) :
    ∃ m, Told s token amount receipt m ∧ t.bindings = s.bindings ∧
      ∃ next, t.nextNonce = some next ∧ next.toNat = m.nonce.toNat + 1 := by
  obtain ⟨hamount, _, hbinding, hscaled, _, _⟩ := check_eq_ok_iff.mp hcheck
  obtain ⟨settings, nonce, locked, next, _, hnonce, _, hnext, rfl, rfl⟩ :=
    yields_record_iff.mp hrecord
  let m := order.message sender nonce settings.homeChain
  have hread : (order.announce m).message? = some m := message?_announce rfl
  exact ⟨m, ⟨hamount, ⟨order.binding, hbinding, hscaled, rfl⟩, hnonce, _, rfl, hread, rfl⟩, rfl,
    next, rfl, hnext⟩

namespace Step

variable [AddressRules]

/-- A step that deposits a token tells a message and counts it. -/
theorem exists_told (hstep : Step env s request receipt t)
    (hmoved : Entry.moved? .deposit token ⟨env, request, .ok receipt, t⟩ = some amount) :
    ∃ m, Told s token amount receipt m ∧ t.bindings = s.bindings ∧
      ∃ next, t.nextNonce = some next ∧ next.toNat = m.nonce.toNat + 1 := by
  cases hstep with
  | deposit _ hcheck _ hrecord | receive _ _ hcheck hrecord =>
    obtain ⟨⟨_, rfl⟩, hamount⟩ := Option.ite_none_right_eq_some.mp hmoved
    obtain rfl := Option.some.inj hamount
    exact DepositOrder.exists_told hcheck hrecord
  | _ => cases hmoved

/-- Any other step leaves the number of the next message as it is. -/
theorem nextNonce_eq (hstep : Step env s request receipt t)
    (hother : Entry.isDeposit ⟨env, request, .ok receipt, t⟩ = false) :
    t.nextNonce = s.nextNonce := by
  cases hstep with
  | deposit | receive => cases hother
  | _ => rfl

end Step

/-! ### Nothing else announces a message -/

/-- Whatever the call reports, it tells no message. -/
def Call.Silent (call : Call Receipt) : Prop :=
  ∀ s receipt t, call.Yields s receipt t → receipt.messages = []

namespace Call.Silent

/-- The report is made by the call that comes last. -/
theorem bind {α : Type} {first : Call α} {next : α → Call Receipt} (h : ∀ a, (next a).Silent) :
    (first >>= next).Silent := by
  intro s receipt t hyields
  obtain ⟨a, m, _, hnext⟩ := yields_bind_iff.mp hyields
  exact h a m receipt t hnext

theorem pure (h : receipt.messages = []) : (pure receipt : Call Receipt).Silent := by
  intro s other t hyields
  rw [← (yields_pure_iff.mp hyields).1, h]

end Call.Silent

/-- A command that is no deposit tells no message. -/
theorem Command.silent [AddressRules] {command : Command} {sender : Address}
    (hother : command.subsystem? ≠ some .deposits) : (command.run env sender).Silent := by
  cases command with
  | deposit | receive => cases hother rfl
  | withdraw m path height =>
    exact .bind fun _ => .bind fun _ => .bind fun _ => .bind fun _ => .pure rfl
  | commit height root seconds =>
    exact .bind fun _ => .bind fun _ => .bind fun _ => .bind fun _ => .bind fun _ => .pure rfl
  | grantRole role account | revokeRole role account =>
    exact .bind fun _ => .bind fun _ => .bind fun _ => .pure rfl
  | pause subsystem | unpause subsystem => exact .bind fun _ => .bind fun _ => .pure rfl
  | bindAsset token asset tokenDecimals assetDecimals =>
    exact .bind fun _ => .bind fun _ => .bind fun _ => .bind fun _ => .pure rfl
  | setTerms token flow terms => exact .bind fun _ => .bind fun _ => .bind fun _ => .pure rfl
  | setFinalityDelay seconds =>
    exact .bind fun _ => .bind fun _ => .bind fun _ => .bind fun _ => .pure rfl
  | setScheme scheme => exact .bind fun _ => .bind fun _ => .bind fun _ => .pure rfl

/-- A later request that is no deposit announces nothing. -/
theorem Entry.announced_eq_nil [AddressRules] {e : Entry} (hlater : e.request.isLater = true)
    (hended : (e.request.run e.env).transact s = (e.result, e.after))
    (hother : e.isDeposit = false) : e.announced = [] := by
  obtain ⟨env, request, result, after⟩ := e
  cases result with
  | error reason => rfl
  | ok receipt =>
    have hyields := Call.transact_eq_ok_iff.mp hended
    cases request with
    | found genesis => cases hlater
    | upgrade u =>
      have hsilent : TokenBridge.upgrade.Silent :=
        .bind fun _ => .bind fun _ => .bind fun _ => .pure rfl
      exact hsilent s receipt after hyields
    | command sender command =>
      exact Command.silent (of_decide_eq_false hother) s receipt after hyields

theorem announcedIn_snoc (log : List Entry) (e : Entry) :
    announcedIn (log ++ [e]) = announcedIn log ++ e.announced := by
  rw [announcedIn, List.flatMap_append, List.flatMap_singleton]
  rfl

/-- The number of deposits in a log. -/
def depositCount (log : List Entry) : Nat := log.countP Entry.isDeposit

theorem depositCount_snoc (log : List Entry) (e : Entry) :
    depositCount (log ++ [e]) = depositCount log + if e.isDeposit then 1 else 0 := by
  rw [depositCount, List.countP_append, List.countP_singleton]
  rfl

namespace Run

variable [AddressRules]

/-- In every run the number of the next message is the number of deposits so far. -/
theorem nextNonce_eq (h : Run g log s) :
    ∃ nonce, s.nextNonce = some nonce ∧ nonce.toNat = depositCount log := by
  induction h using rec_step with
  | found _ hfound =>
    obtain ⟨_, _, _, rfl⟩ := yields_found hfound
    exact ⟨0, rfl, rfl⟩
  | fault env request reason _ _ ih =>
    rw [depositCount_snoc, Entry.isDeposit_error]
    exact ih
  | @step log s env request receipt t _ _ hstep ih =>
    obtain ⟨nonce, hnonce, hcount⟩ := ih
    rw [depositCount_snoc]
    cases hdeposit : Entry.isDeposit ⟨env, request, .ok receipt, t⟩ with
    | false => exact ⟨nonce, hstep.nextNonce_eq hdeposit ▸ hnonce, hcount⟩
    | true =>
      obtain ⟨_, _, hmoved⟩ := Entry.exists_moved?_of_isDeposit hdeposit
      obtain ⟨m, htold, _, next, hnext, hsucc⟩ := hstep.exists_told hmoved
      obtain rfl := Option.some.inj (htold.nonce_eq.symm.trans hnonce)
      exact ⟨next, hnext, hsucc.trans (congrArg (· + 1) hcount)⟩

/-- In every run the messages that were announced have the numbers from zero on, in their order. -/
theorem nonces_announcedIn (h : Run g log s) :
    (announcedIn log).map (·.nonce.toNat) = List.range (depositCount log) := by
  induction h using rec_step with
  | found _ _ => rfl
  | fault env request reason _ _ ih =>
    rw [announcedIn_snoc, depositCount_snoc, Entry.isDeposit_error]
    exact (congrArg _ (List.append_nil _)).trans ih
  | @step log s env request receipt t hrun hnext hstep ih =>
    rw [announcedIn_snoc, depositCount_snoc, List.map_append, ih]
    cases hdeposit : Entry.isDeposit ⟨env, request, .ok receipt, t⟩ with
    | false =>
      obtain ⟨_, _, hlater, hended, _⟩ := hnext.of_snoc
      rw [Entry.announced_eq_nil hlater hended hdeposit]
      exact List.append_nil _
    | true =>
      obtain ⟨_, _, hmoved⟩ := Entry.exists_moved?_of_isDeposit hdeposit
      obtain ⟨m, htold, _⟩ := hstep.exists_told hmoved
      obtain ⟨nonce, hnonce, hcount⟩ := hrun.nextNonce_eq
      obtain rfl := Option.some.inj (htold.nonce_eq.symm.trans hnonce)
      have hannounced : Entry.announced ⟨env, request, .ok receipt, t⟩ = [m] := htold.messages_eq
      rw [hannounced, if_pos rfl, List.range_succ, ← hcount]
      rfl

end Run

/-- The messages of a log are numbered in the order of the deposits that announced them, and the
events of these tell them faithfully. -/
structure Numbered (log : List Entry) (s : Store) : Prop where
  /-- The number of the next message is the number of deposits so far. -/
  counted : ∃ nonce, s.nextNonce = some nonce ∧ nonce.toNat = depositCount log
  /-- A deposit reports one event, which tells a message under the number of the deposits before,
  and the leaf of the very message that its other attributes tell. -/
  announces : ∀ earlier e later, log = earlier ++ e :: later → e.isDeposit = true →
    ∃ receipt event m, e.result = .ok receipt ∧ receipt.events = [event] ∧
      event.message? = some m ∧ m.nonce.toNat = depositCount earlier ∧
      event.attribute? "leaf" = some m.leaf.toHex
  /-- Nothing else announces a message. -/
  silent : ∀ e ∈ log, e.isDeposit = false → e.announced = []
  /-- No two messages of the log have the same encoding. -/
  distinct : ((announcedIn log).map Message.encode).Nodup

/-- The number of a message can be read off its encoding. -/
theorem Message.nonce_eq_of_encode_eq {m m' : Message} (h : m.encode = m'.encode) :
    m.nonce = m'.nonce := by
  simp only [encode, List.append_assoc] at h
  obtain ⟨_, h⟩ := bigEndian_append_inj m.sourceChain.toNat_lt m'.sourceChain.toNat_lt h
  obtain ⟨hnonce, _⟩ := bigEndian_append_inj m.nonce.toNat_lt m'.nonce.toNat_lt h
  exact UInt64.toNat_inj.mp hnonce

/-- In every run the messages are numbered without gaps by the deposits that announce them. -/
theorem Run.numbered [AddressRules] (h : Run g log s) : Numbered log s := by
  constructor
  case counted => exact h.nextNonce_eq
  case announces =>
    intro earlier e later hlog hdeposit
    obtain ⟨env, request, result, after⟩ := e
    cases result with
    | error reason =>
      rw [Entry.isDeposit_error] at hdeposit
      cases hdeposit
    | ok receipt =>
      obtain ⟨before, hbefore, hstep⟩ := h.step_of_eq_append hlog rfl
      obtain ⟨_, _, hmoved⟩ := Entry.exists_moved?_of_isDeposit hdeposit
      obtain ⟨m, htold, _⟩ := hstep.exists_told hmoved
      obtain ⟨nonce, hnonce, hcount⟩ := hbefore.nextNonce_eq
      obtain rfl := Option.some.inj (htold.nonce_eq.symm.trans hnonce)
      obtain ⟨event, hevents, hmessage, hleaf⟩ := htold.tells
      exact ⟨receipt, event, m, rfl, hevents, hmessage, hcount, hleaf⟩
  case silent =>
    intro e he hother
    obtain ⟨earlier, later, hlog⟩ := List.append_of_mem he
    rw [hlog, List.append_cons] at h
    obtain ⟨_, hprefix⟩ := h.of_append
    obtain ⟨_, _, hlater, hended, _⟩ := hprefix.of_snoc
    exact Entry.announced_eq_nil hlater hended hother
  case distinct =>
    have hnonces : ((announcedIn log).map (·.nonce.toNat)).Nodup := by
      rw [h.nonces_announcedIn]
      exact List.nodup_range
    rw [List.Nodup, List.pairwise_map] at hnonces ⊢
    exact hnonces.imp fun hne hsame =>
      hne (congrArg UInt64.toNat (Message.nonce_eq_of_encode_eq hsame))

/-- The short run announces two messages, the first one by a deposit out of an allowance. -/
theorem Run.numbered_sample :
    Run Sample.genesis Sample.played.1 Sample.played.2 ∧
      depositCount Sample.played.1 = 2 ∧
      (announcedIn Sample.played.1).map (·.amount.toNat) = [100, 20] ∧
      Numbered Sample.played.1 Sample.played.2 := by
  have hplayed : depositCount Sample.played.1 = 2 ∧
      (announcedIn Sample.played.1).map (·.amount.toNat) = [100, 20] := by
    decide +kernel
  exact ⟨Sample.run, hplayed.1, hplayed.2, Run.numbered Sample.run⟩

end TokenBridge
