import TokenBridge.Proofs.Announcement
import TokenBridge.Proofs.BindingIndex
import TokenBridge.Proofs.Deciding
import TokenBridge.Proofs.DepositPaths

/-!
# How a deposit is decided

Nine things are asked for before an amount is taken from its owner: that deposits are not paused,
five about the amount and what it is worth on the second chain, that the quota holds it, and two
that the token is asked about. The token may answer anything, and it is asked last. A deposit for
which all nine hold orders the amount from the owner, locks it, charges the quota if there is one
with what was ordered, not with what the message tells, and uses up a number. It touches nothing
else, and stops only where one of the numbers it adds to would leave its range.
-/

namespace TokenBridge

variable {α : Type} {g : Genesis} {log : List Entry} {env : Env} {now : Timestamp} {s t : Store}
  {sender token owner : Address} {amount : Amount} {recipient : String} {order : DepositOrder}
  {receipt : Receipt}

namespace Store

/-- The amount is not zero. -/
def amountCheck (amount : Amount) : Check where
  passes := amount ≠ .zero
  refuses why := why = .badAmount .zero

/-- The recipient is an account of the second chain. -/
def accountCheck (recipient : String) : Check where
  passes := ∃ account, Word256.ofHex? recipient = some account
  refuses why := why = .badAccount (.notHex recipient)

/-- The token is bound. -/
def tokenCheck (s : Store) (token : Address) : Check where
  passes := ∃ b, s.bindings[token]? = some b
  refuses why := why = .unbound token

/-- Some amount of the asset has the same value. -/
def assetCheck (s : Store) (token : Address) (amount : Amount) : Check where
  passes := ∃ b remote, s.bindings[token]? = some b ∧
    amount.toNat * Nat.pow 10 b.assetDecimals.toNat =
      Amount.toNat remote * Nat.pow 10 b.tokenDecimals.toNat
  refuses why := ∃ b, s.bindings[token]? = some b ∧
    why = .badAmount (amount.scaleFault b.tokenDecimals b.assetDecimals)

/-- A token answers, and what it says will do. -/
def answerCheck (answer : Except HostError α) (willDo : α → Prop) (fault : α → TransferFault) :
    Check where
  passes := ∃ a, answer = .ok a ∧ willDo a
  refuses why := ∃ cause, why = .transferFailed cause ∧
    ((∃ e, answer = .error e ∧ cause = .unanswered e) ∨
      ∃ a, answer = .ok a ∧ ¬willDo a ∧ cause = fault a)

/-- The owner holds the amount. -/
def balanceCheck (env : Env) (token owner : Address) (amount : Amount) : Check :=
  answerCheck (env.balanceOf token owner) (amount ≤ ·) (.balanceBelow · amount)

/-- The owner allows the bridge to take the amount, and still does so in this block. -/
def allowanceCheck (env : Env) (token owner : Address) (amount : Amount) : Check :=
  answerCheck (env.allowanceOf token owner)
    (fun a => a.expiry.isReached env.height env.now = false ∧ amount ≤ a.amount)
    fun a => .allowanceBelow (a.usable env.height env.now) amount

/-- All that is asked for before an amount is taken from its owner, in this order. -/
def depositChecks [AddressRules] (s : Store) (env : Env) (sender token : Address) (amount : Amount)
    (recipient : String) : List Check := [
  s.activeCheck .deposits,
  addressCheck token .host,
  amountCheck amount,
  accountCheck recipient,
  s.tokenCheck token,
  s.assetCheck token amount,
  s.quotaCheck .deposit token amount env.now,
  balanceCheck env token sender amount,
  allowanceCheck env token sender amount]

/-- What a deposit does: the amount is ordered from its owner, its message is told, and the number
of the next message, the amount locked and the quota are changed in the store. -/
structure Deposited (s : Store) (env : Env) (sender token : Address) (amount : Amount)
    (receipt : Receipt) (t : Store) : Prop where
  calls : receipt.calls = [⟨token, .take sender env.self amount⟩]
  tells : ∃ m, Told s token amount receipt m
  store : ∃ nonce next locked charged, s.nextNonce = some nonce ∧
    UInt64.toNat next = nonce.toNat + 1 ∧
    Amount.toNat locked = (s.lockedOf token).toNat + amount.toNat ∧
    s.Charged .deposit token amount env.now charged ∧
    t = { s with
      nextNonce := some next
      locked := s.locked.insert token locked
      quotas := charged.elim s.quotas (s.quotas.insert ⟨.deposit, token⟩) }

theorem accountCheck_decides {rest : List Check} {next : Word256 → Except Fault α}
    (hnext : ∀ account, DecidesResult rest (next account)) :
    DecidesResult (accountCheck recipient :: rest) (do
      let account ← match Word256.ofHex? recipient with
        | some account => .ok account
        | none => .error (.rejected (.badAccount (.notHex recipient)))
      next account) := by
  cases haccount : Word256.ofHex? recipient with
  | some account =>
    refine DecidedBy.cons_iff.mpr ⟨fun _ => hnext account, fun hfail => ?_⟩
    exact (hfail ⟨account, haccount⟩).elim
  | none =>
    refine DecidedBy.cons_iff.mpr ⟨?_, fun _ => ⟨_, rfl, rfl⟩⟩
    rintro ⟨account, hsome⟩
    rw [haccount] at hsome
    cases hsome

theorem tokenCheck_decides : DecidesResult [s.tokenCheck token] (s.resolve token) := by
  unfold resolve
  cases hb : s.bindings[token]? with
  | some b => exact .single (fun _ => ⟨_, rfl⟩) fun hfail => (hfail ⟨_, hb⟩).elim
  | none =>
    refine .single ?_ fun _ => ⟨_, rfl, rfl⟩
    rintro ⟨b, hsome⟩
    rw [hb] at hsome
    cases hsome

theorem assetCheck_decides {b : Binding} (hb : s.bindings[token]? = some b)
    (hpos : amount ≠ .zero) :
    DecidesResult [s.assetCheck token amount]
      ((b.toAsset amount).mapError (.rejected <| .badAmount ·)) := by
  have hpasses : (s.assetCheck token amount).passes ↔ ∃ remote, b.toAsset amount = .ok remote := by
    simp [assetCheck, hb, Binding.toAsset_eq_ok_iff_mul_pow hpos]
  cases hscaled : b.toAsset amount with
  | ok remote =>
    have hpass := hpasses.mpr ⟨remote, hscaled⟩
    exact .single (fun _ => ⟨remote, rfl⟩) fun hfail => (hfail hpass).elim
  | error fault =>
    refine .single (fun hpass => ?_) fun _ => ⟨_, ⟨b, hb, rfl⟩, ?_⟩
    · obtain ⟨remote, hremote⟩ := hpasses.mp hpass
      rw [hscaled] at hremote
      cases hremote
    · rw [← Amount.eq_scaleFault hscaled]
      rfl

/-- What a token is asked is decided by its answer. -/
theorem answerCheck_decides {answer : Except HostError α} {willDo : α → Prop}
    {enough : α → Prop} [∀ a, Decidable (enough a)] {fault : α → TransferFault}
    (hiff : ∀ a, willDo a ↔ enough a) :
    DecidesResult [answerCheck answer willDo fault] (do
      let a ← answer.mapError Env.requireFunds.unanswered
      demand (enough a) (.transferFailed (fault a))) := by
  cases answer with
  | error e =>
    refine .single ?_ fun _ => ⟨_, ⟨_, rfl, Or.inl ⟨e, rfl, rfl⟩⟩, rfl⟩
    rintro ⟨a, hanswer, _⟩
    cases hanswer
  | ok a =>
    refine .demand ?_ fun hnot => ⟨_, rfl, Or.inr ⟨a, rfl, mt (hiff a).mp hnot, rfl⟩⟩
    simp [answerCheck, hiff]

end Store

/-- An amount other than zero may be moved as long as the allowance has not ended. -/
theorem Allowance.le_usable_iff {a : Allowance} {height : UInt64} (hpos : amount ≠ .zero) :
    a.expiry.isReached height now = false ∧ amount ≤ a.amount ↔ amount ≤ a.usable height now := by
  unfold usable
  cases a.expiry.isReached height now with
  | false => simp
  | true =>
    have hnone : ¬amount ≤ .zero := by
      intro hle
      exact hpos (Amount.ext (Nat.le_zero.mp hle))
    simp [hnone]

/-- Whether an amount can be taken is decided by the two answers of the token. -/
theorem Env.requireFunds_decided (hpos : amount ≠ .zero) :
    DecidesResult
      [Store.balanceCheck env token owner amount, Store.allowanceCheck env token owner amount]
      (env.requireFunds token owner amount) := by
  unfold requireFunds
  rw [← bind_assoc]
  refine (Store.answerCheck_decides fun _ => Iff.rfl).bind_cons fun _ _ => ?_
  exact Store.answerCheck_decides fun _ => Allowance.le_usable_iff hpos

namespace DepositOrder

/-- The checks that are common to both ways of depositing. -/
theorem check_decided (hquotas : s.SoundQuotas) :
    DecidesResult [Store.amountCheck amount, Store.accountCheck recipient, s.tokenCheck token,
      s.assetCheck token amount, s.quotaCheck .deposit token amount now]
      (check now token amount recipient s) := by
  refine .demand_bind Iff.rfl (fun _ => rfl) fun hpos => ?_
  refine Store.accountCheck_decides fun account => ?_
  refine Store.tokenCheck_decides.bind_cons fun b hresolved => ?_
  have hb := Store.resolve_eq_ok_iff.mp hresolved
  refine (Store.assetCheck_decides hb hpos).bind_cons fun remote _ => ?_
  exact (Store.quotaCheck_decides hquotas).bind_cons fun quota _ => .ok _

/-- All checks of a deposit out of an allowance. -/
def approve [AddressRules] (env : Env) (sender token : Address) (amount : Amount)
    (recipient : String) (s : Store) : Except Fault DepositOrder := do
  s.requireActive .deposits
  let token ← requireValid token
  let order ← check env.now token amount recipient s
  env.requireFunds token sender amount
  return order

/-- All nine checks, one after the other. -/
theorem approve_decided [AddressRules] (hpauses : ∃ pauses, s.pauses = some pauses)
    (hquotas : s.SoundQuotas) :
    DecidesResult (s.depositChecks env sender token amount recipient)
      (approve env sender token amount recipient s) := by
  refine (Store.activeCheck_decides hpauses).bind_cons fun _ _ => ?_
  refine (Store.addressCheck_decides token .host).bind_cons fun token hvalid => ?_
  obtain rfl := eq_of_requireValid hvalid
  refine (check_decided hquotas).bind fun order hcheck => ?_
  -- By now the amount is known not to be zero, so an allowance that has ended is below it.
  obtain ⟨hpos, _⟩ := check_eq_ok_iff.mp hcheck
  exact (Env.requireFunds_decided hpos).bind fun _ _ => .ok order

/-- A deposit is stored once it is approved. -/
theorem transact_eq [AddressRules] (env : Env) (sender token : Address) (amount : Amount)
    (recipient : String) (s : Store) :
    ((Request.command sender (.deposit token amount recipient)).run env).transact s =
      Call.proceed s (approve env sender token amount recipient s) fun order =>
        (order.record sender [⟨token, .take sender env.self amount⟩]).transact s := by
  simp only [Request.run, Command.run, deposit, approve, Call.transact_check_bind,
    Call.transact_lift_bind, Call.proceed_bind]
  cases hvalid : requireValid token with
  | error fault => simp only [Call.proceed_error]
  | ok valid =>
    obtain rfl := eq_of_requireValid hvalid
    simp only [Call.proceed_ok]
    rfl

theorem check_of_approve [AddressRules]
    (h : approve env sender token amount recipient s = .ok order) :
    check env.now token amount recipient s = .ok order := by
  simp only [approve, Except.bind_eq_ok_iff, Except.pure_eq_ok_iff] at h
  obtain ⟨_, _, _, hvalid, _, hcheck, _, _, rfl⟩ := h
  obtain rfl := eq_of_requireValid hvalid
  exact hcheck

/-- What is stored fits the range of every number that it is added to. -/
theorem not_atBound_of_yields {calls : List TokenCall}
    (h : (order.record sender calls).Yields s receipt t) :
    ¬s.DepositAtBound order.binding.token order.amount := by
  obtain ⟨_, nonce, locked, next, _, hnonce, hlocked, hnext, _, _⟩ := yields_record_iff.mp h
  rintro (hfull | ⟨nonce', hnonce', hlast⟩)
  · have hsize := locked.toNat_lt
    omega
  · obtain rfl := Option.some.inj (hnonce.symm.trans hnonce')
    have hsize := next.toNat_lt_size
    omega

/-- What is stored of an approved deposit is what the deposit is said to do. -/
theorem deposited_of_yields (hbyName : s.BoundByName)
    (hcheck : check env.now token amount recipient s = .ok order)
    (h : (order.record sender [⟨token, .take sender env.self amount⟩]).Yields s receipt t) :
    s.Deposited env sender token amount receipt t := by
  obtain ⟨m, htold, _⟩ := exists_told hcheck h
  obtain ⟨_, _, hbinding, _, hquota, hamount, hcharged⟩ := check_eq_ok_iff.mp hcheck
  have htoken : order.binding.token = token := hbyName hbinding
  obtain ⟨_, nonce, locked, next, _, hnonce, hlocked, hnext, rfl, rfl⟩ := yields_record_iff.mp h
  rw [htoken, hamount] at hlocked
  refine ⟨rfl, ⟨m, htold⟩, nonce, next, locked, order.quota, hnonce, hnext, hlocked,
    Store.charged_of_reserved hquota, ?_⟩
  rw [recorded, Store.withQuota, htoken, hcharged]

/-- An approved deposit does what it is said to do, unless it aborts at a bound. -/
theorem ended_of_approve [AddressRules] (hcomplete : s.Complete)
    (happroved : approve env sender token amount recipient s = .ok order) :
    let ended := (order.record sender [⟨token, .take sender env.self amount⟩]).transact s
    (¬s.DepositAtBound token amount →
        ∃ receipt t, ended = (.ok receipt, t) ∧ s.Deposited env sender token amount receipt t) ∧
      (s.DepositAtBound token amount → ended = (.error .aborted, s)) := by
  have hcheck := check_of_approve happroved
  obtain ⟨_, _, hbinding, _, _, hamount, _⟩ := check_eq_ok_iff.mp hcheck
  have htoken : order.binding.token = token := hcomplete.byName hbinding
  rcases hrecord : (order.record sender [⟨token, .take sender env.self amount⟩]).outcome s with
    ⟨result, t⟩
  cases result with
  | ok receipt =>
    have hfits := not_atBound_of_yields hrecord
    rw [htoken, hamount] at hfits
    refine ⟨fun _ => ⟨receipt, t, Call.transact_of_ok hrecord, ?_⟩, fun hbound => ?_⟩
    · exact deposited_of_yields hcomplete.byName hcheck hrecord
    · exact (hfits hbound).elim
  | error fault =>
    obtain ⟨rfl, hbound⟩ := aborted_of_faults_record hcomplete hrecord
    rw [htoken, hamount] at hbound
    exact ⟨fun hfits => (hfits hbound).elim, fun _ => Call.transact_of_error hrecord⟩

end DepositOrder

/-- In every run, and whatever the token answers, a deposit is refused for the first of its checks
that fails, and the store stays as it was. If none fails, the amount is deposited and nothing else
happens; only where a number that is counted would leave its range is the deposit aborted. -/
theorem Run.deposit_decided [AddressRules] (h : Run g log s) (env : Env) (sender token : Address)
    (amount : Amount) (recipient : String) :
    let ended := ((Request.command sender (.deposit token amount recipient)).run env).transact s
    DecidedBy (s.depositChecks env sender token amount recipient)
      (fun why => ended = (.error (.rejected why), s))
      ((¬s.DepositAtBound token amount →
          ∃ receipt t, ended = (.ok receipt, t) ∧ s.Deposited env sender token amount receipt t) ∧
        (s.DepositAtBound token amount → ended = (.error .aborted, s))) := by
  intro ended
  have hcomplete := h.complete
  have hended : ended = _ := DepositOrder.transact_eq env sender token amount recipient s
  refine (DepositOrder.approve_decided hcomplete.pauses hcomplete.quotas).mono ?_ ?_
  · intro why hrefused
    rw [hended, hrefused, Call.proceed_error]
  · rintro ⟨order, happroved⟩
    rw [hended, happroved, Call.proceed_ok]
    exact DepositOrder.ended_of_approve hcomplete happroved

namespace Sample

/-- A token is bound to an asset that counts it in tens, and no more than ninety-five of it may be
deposited in sixty seconds. -/
def bindCoin : List Request := [
  .command "root" (.bindAsset "coin" Word256.zero.bytes 7 6),
  .command "root" (.setTerms "coin" .deposit ⟨⟨95, by decide⟩, 60⟩)]

/-- The log of these calls and the store in the end. -/
def coinBound : List Entry × Store :=
  ((found genesis).transact .empty).2.play (bindCoin.map (Sample.env, ·))

theorem run_coinBound : Run genesis coinBound.1 coinBound.2 := run_of_later bindCoin (by decide)

def seventy : Amount := ⟨70, by decide⟩

/-- One more than the asset can express. -/
def uneven : Amount := ⟨71, by decide⟩

/-- Alice, who has enough, deposits an amount of the token. -/
def depositCoin (amount : Amount) : Except Fault Receipt × Store :=
  ((Request.command "alice" (.deposit "coin" amount Word256.zero.toHex)).run Sample.env).transact
    coinBound.2

end Sample

/-- Where all checks hold, seventy are deposited. Of seventy-one the first check to fail is that of
what they are worth, although the quota holds them and the owner has them. -/
theorem Run.deposit_decided_sample :
    Run Sample.genesis Sample.coinBound.1 Sample.coinBound.2 ∧
      (∃ receipt t, Sample.depositCoin Sample.seventy = (.ok receipt, t) ∧
        Sample.coinBound.2.Deposited Sample.env "alice" "coin" Sample.seventy receipt t) ∧
      Sample.depositCoin Sample.uneven =
        (.error (.rejected (.badAmount (.tooPrecise Sample.uneven 6))), Sample.coinBound.2) := by
  have hdecided := fun amount : Amount =>
    deposit_decided Sample.run_coinBound Sample.env "alice" "coin" amount Word256.zero.toHex
  refine ⟨Sample.run_coinBound, ?_, ?_⟩
  · have hok : (Sample.depositCoin Sample.seventy).1.isOk = true := by decide +kernel
    rcases (hdecided Sample.seventy).refused_or_done with ⟨why, hrefused⟩ | ⟨hdone, haborted⟩
    · change Sample.depositCoin Sample.seventy = _ at hrefused
      rw [hrefused] at hok
      cases hok
    · refine hdone fun hbound => ?_
      have hended : Sample.depositCoin Sample.seventy = _ := haborted hbound
      rw [hended] at hok
      cases hok
  · obtain ⟨hactive, hvalid, hbound⟩ : Sample.coinBound.2.pauses = some .none ∧
        Address.fault? "coin" = none ∧
        Sample.coinBound.2.bindings["coin"]? = some ⟨"coin", Word256.zero, 7, 6⟩ := by
      decide +kernel
    have hpos : Sample.uneven ≠ .zero := by decide
    have hbefore : ∀ c ∈ (Sample.coinBound.2.depositChecks Sample.env "alice" "coin" Sample.uneven
        Word256.zero.toHex).take 5, c.passes := by
      simp only [Store.depositChecks, List.take, List.forall_mem_cons]
      exact ⟨⟨_, hactive, rfl⟩, hvalid, hpos, ⟨_, Word256.ofHex?_toHex _⟩, ⟨_, hbound⟩, nofun⟩
    have hfail : ¬(Sample.coinBound.2.assetCheck "coin" Sample.uneven).passes := by
      rintro ⟨b, remote, hb, hvalue⟩
      obtain rfl := Option.some.inj (hb.symm.trans hbound)
      have huneven : 71 * 1000000 = remote.toNat * 10000000 := hvalue
      omega
    obtain ⟨_, ⟨b, hb, rfl⟩, hrefused⟩ := (hdecided Sample.uneven).first _ _ _ rfl hbefore hfail
    obtain rfl := Option.some.inj (hb.symm.trans hbound)
    exact hrefused

end TokenBridge
