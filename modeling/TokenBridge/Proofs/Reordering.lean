import TokenBridge.Proofs.BindingIndex
import TokenBridge.Proofs.DepositPaths
import TokenBridge.Proofs.Independence

/-!
# The order of requests in a block

Two withdrawals that both succeed in one order do so in the other one. They may draw on the same
quota and on the same amount locked, but what they draw adds up, and a quota that was rolled forward
in a block is not rolled forward again in it. A deposit and a withdrawal of different tokens have
nothing in common but what both only read.
-/

namespace TokenBridge

variable {g : Genesis} {log : List Entry} {env : Env} {now : Timestamp} {s t : Store} {flow : Flow}
  {token other sender : Address} {amount more : Amount} {m m' : Message} {path path' : MerklePath}
  {height height' : UInt64} {command : Command} {asset : Word256} {b : Binding}

namespace Quota

variable {q r c d : Quota}

/-- In the block in which a quota was charged, it is not rolled forward again. -/
theorem rolled?_of_take? (hrolled : q.rolled? now = some r) (htaken : r.take? amount = some c) :
    c.rolled? now = some c := by
  obtain ⟨_, _, hc⟩ := take?_eq_some_iff.mp htaken
  have hending : c.ending = r.ending := by rw [hc, ending, ending]
  apply rolled?_of_lt
  rw [hending]
  exact lt_ending_of_rolled? hrolled

/-- Two charges to an epoch can be made in either order. -/
theorem take?_comm (hfirst : r.take? amount = some c) (hsecond : c.take? more = some d) :
    ∃ c', r.take? more = some c' ∧ c'.take? amount = some d := by
  obtain ⟨hused, _, hc⟩ := take?_eq_some_iff.mp hfirst
  obtain ⟨hused', hlimit, hd⟩ := take?_eq_some_iff.mp hsecond
  have hsum : r.used.toNat + more.toNat < Amount.size := by
    have hsize := d.used.toNat_lt
    omega
  have hterms : c.terms = r.terms := by rw [hc]
  rw [Amount.le_def, hterms] at hlimit
  refine ⟨{ r with used := ⟨r.used.toNat + more.toNat, hsum⟩ }, take?_eq_some_iff.mpr ?_,
    take?_eq_some_iff.mpr ?_⟩
  · refine ⟨rfl, ?_, rfl⟩
    rw [Amount.le_def]
    dsimp only
    omega
  · refine ⟨?_, ?_, ?_⟩
    · dsimp only
      omega
    · rw [Amount.le_def]
      dsimp only
      omega
    · rw [hd, hc]

end Quota

namespace Store

/-- A movement is charged to the quota of its own flow and token. -/
theorem reserved_congr (h : t.quota? flow token = s.quota? flow token) (amount : Amount)
    (now : Timestamp) :
    t.reserved flow token amount now = s.reserved flow token amount now := by
  rw [reserved, reserved, quotaAt, quotaAt, h]

/-- A quota that is stored leaves those of other flows and other tokens as they are. -/
theorem quota?_withQuota_of_ne {flow' : Flow}
    (h : QuotaKey.mk flow token ≠ QuotaKey.mk flow' other) (after : Option Quota) (s : Store) :
    (s.withQuota flow token after).quota? flow' other = s.quota? flow' other := by
  rw [quota?_withQuota, if_neg]
  rintro ⟨rfl, rfl⟩
  exact h rfl

theorem quota?_withQuota_some (flow : Flow) (token : Address) (q : Quota) (s : Store) :
    (s.withQuota flow token (some q)).quota? flow token = some q := by
  rw [quota?_withQuota, if_pos ⟨rfl, rfl⟩, Option.some_or]

theorem withQuota_none (flow : Flow) (token : Address) (s : Store) :
    s.withQuota flow token none = s := rfl

theorem withQuota_some_some (flow : Flow) (token : Address) (q r : Quota) (s : Store) :
    (s.withQuota flow token (some q)).withQuota flow token (some r) =
      s.withQuota flow token (some r) := by
  simp only [withQuota, Option.elim_some, Std.ExtTreeMap.insert_insert]

/-- Quotas of different flows or tokens are stored in either order. -/
theorem withQuota_comm {flow' : Flow} (h : QuotaKey.mk flow token ≠ QuotaKey.mk flow' other)
    (first second : Option Quota) (s : Store) :
    (s.withQuota flow token first).withQuota flow' other second =
      (s.withQuota flow' other second).withQuota flow token first := by
  cases first with
  | none => rfl
  | some q =>
    cases second with
    | none => rfl
    | some r => simp only [withQuota, Option.elim_some, Std.ExtTreeMap.insert_comm s.quotas h]

/-- Two movements of a token can be charged in either order, in one block. -/
theorem reserved_comm_self {first second : Option Quota}
    (hfirst : s.reserved flow token amount now = .ok first)
    (hsecond : (s.withQuota flow token first).reserved flow token more now = .ok second) :
    ∃ second' first', s.reserved flow token more now = .ok second' ∧
      (s.withQuota flow token second').reserved flow token amount now = .ok first' ∧
      (s.withQuota flow token second').withQuota flow token first' =
        (s.withQuota flow token first).withQuota flow token second := by
  rcases reserved_eq_ok_iff.mp hfirst with ⟨hnone, rfl⟩ | ⟨q, r, c, hq, hrolled, htaken, rfl⟩
  · -- The flow is not capped, and no request but the setting of terms changes that.
    rw [withQuota_none] at hsecond
    rcases reserved_eq_ok_iff.mp hsecond with ⟨_, rfl⟩ | ⟨_, _, _, hsome, _⟩
    · exact ⟨none, none, hsecond, hfirst, rfl⟩
    · rw [hnone] at hsome
      cases hsome
  · rcases reserved_eq_ok_iff.mp hsecond with ⟨hnone, _⟩ | ⟨_, _, d, hsome, hrolled', htaken', rfl⟩
    · rw [quota?_withQuota_some] at hnone
      cases hnone
    · -- The first movement left the quota in the epoch of the block, so both draw on the same one.
      rw [quota?_withQuota_some] at hsome
      obtain rfl := Option.some.inj hsome
      rw [Quota.rolled?_of_take? hrolled htaken] at hrolled'
      obtain rfl := Option.some.inj hrolled'
      obtain ⟨c', htaken₁, htaken₂⟩ := Quota.take?_comm htaken htaken'
      have hrolled₁ := Quota.rolled?_of_take? hrolled htaken₁
      have hstored := quota?_withQuota_some flow token c' s
      refine ⟨some c', some d, ?_, ?_, ?_⟩
      · exact reserved_eq_ok_iff.mpr (Or.inr ⟨q, r, c', hq, hrolled, htaken₁, rfl⟩)
      · exact reserved_eq_ok_iff.mpr (Or.inr ⟨c', c', d, hstored, hrolled₁, htaken₂, rfl⟩)
      · rw [withQuota_some_some, withQuota_some_some]

/-- Two movements of a flow can be charged in either order, in one block. -/
theorem reserved_comm {first second : Option Quota}
    (hfirst : s.reserved flow token amount now = .ok first)
    (hsecond : (s.withQuota flow token first).reserved flow other more now = .ok second) :
    ∃ second' first', s.reserved flow other more now = .ok second' ∧
      (s.withQuota flow other second').reserved flow token amount now = .ok first' ∧
      (s.withQuota flow other second').withQuota flow token first' =
        (s.withQuota flow token first).withQuota flow other second := by
  by_cases hsame : token = other
  · subst hsame
    exact reserved_comm_self hfirst hsecond
  · have hkeys : QuotaKey.mk flow token ≠ QuotaKey.mk flow other := by
      intro hkey
      exact hsame (QuotaKey.mk.inj hkey).2
    rw [reserved_congr (quota?_withQuota_of_ne hkeys first s)] at hsecond
    refine ⟨second, first, hsecond, ?_, (withQuota_comm hkeys first second s).symm⟩
    rw [reserved_congr (quota?_withQuota_of_ne (Ne.symm hkeys) second s)]
    exact hfirst

/-- The store after an amount of a token was paid out. -/
def release (token : Address) (amount : Amount) (s : Store) : Store :=
  { s with locked := s.locked.insert token ((s.lockedOf token).truncSub amount) }

theorem lockedOf_release (token account : Address) (amount : Amount) (s : Store) :
    (s.release token amount).lockedOf account =
      if token = account then (s.lockedOf token).truncSub amount else s.lockedOf account :=
  lockedOf_insert token account _ s

theorem locked_release (token : Address) (amount : Amount) (s : Store) :
    (s.release token amount).locked =
      s.locked.insert token ((s.lockedOf token).truncSub amount) := rfl

/-- What is paid out adds up, in either order. -/
theorem release_comm (token other : Address) (amount more : Amount) (s : Store) :
    ((s.release other more).release token amount).locked =
      ((s.release token amount).release other more).locked := by
  simp only [locked_release, lockedOf_release]
  by_cases hsame : token = other
  · subst hsame
    have hrest : ((s.lockedOf token).truncSub more).truncSub amount =
        ((s.lockedOf token).truncSub amount).truncSub more :=
      Amount.ext (Nat.sub_right_comm ..)
    rw [if_pos rfl, if_pos rfl, Std.ExtTreeMap.insert_insert, Std.ExtTreeMap.insert_insert, hrest]
  · rw [if_neg hsame, if_neg (Ne.symm hsame), Std.ExtTreeMap.insert_comm s.locked (Ne.symm hsame)]

/-- If one amount can be paid out after another one, so can they the other way round. -/
theorem lockedOf_comm (hfirst : amount ≤ s.lockedOf token)
    (hsecond : more ≤ (s.release token amount).lockedOf other) :
    more ≤ s.lockedOf other ∧ amount ≤ (s.release other more).lockedOf token := by
  rw [lockedOf_release] at hsecond ⊢
  by_cases hsame : token = other
  · subst hsame
    rw [if_pos rfl] at hsecond ⊢
    rw [Amount.le_def] at hfirst hsecond ⊢
    rw [Amount.le_def]
    simp only [Amount.toNat_truncSub] at hsecond ⊢
    omega
  · rw [if_neg hsame] at hsecond
    rw [if_neg (Ne.symm hsame)]
    exact ⟨hsecond, hfirst⟩

end Store

theorem Call.outcome_putReserved (flow : Flow) (token : Address) (after : Option Quota)
    (s : Store) :
    (putReserved flow token after).outcome s = (.ok (), s.withQuota flow token after) :=
  yields_putReserved_iff.mpr rfl

/-! ### Withdrawals -/

namespace WithdrawalOrder

variable {order order' : WithdrawalOrder}

/-- All checks of a withdrawal. -/
def approve [AddressRules] (now : Timestamp) (m : Message) (path : MerklePath) (height : UInt64)
    (s : Store) :
    Except Fault WithdrawalOrder := do
  s.requireActive .withdrawals
  checkMessage now m path height s
  checkRelease now m s

theorem approve_eq_ok_iff [AddressRules] :
    approve now m path height s = .ok order ↔
      s.requireActive .withdrawals = .ok () ∧ checkMessage now m path height s = .ok () ∧
        checkRelease now m s = .ok order := by
  simp only [approve, Except.bind_eq_ok_iff]
  constructor
  · rintro ⟨_, hactive, _, hmessage, hrelease⟩
    exact ⟨hactive, hmessage, hrelease⟩
  · rintro ⟨hactive, hmessage, hrelease⟩
    exact ⟨(), hactive, (), hmessage, hrelease⟩

/-- A withdrawal is stored and paid out exactly if it passes its checks. -/
theorem transact_eq [AddressRules] (env : Env) (sender : Address) (m : Message) (path : MerklePath)
    (height : UInt64) (s : Store) :
    ((Request.command sender (.withdraw m path height)).run env).transact s =
      Call.proceed s (approve env.now m path height s) fun order =>
        (.ok (order.receipt m.leaf height), order.recorded s) := by
  simp only [Request.run, Command.run, withdraw, approve, Call.transact_check_bind,
    Call.proceed_bind]
  have hstored : ∀ order : WithdrawalOrder,
      (order.record >>= fun _ => pure (order.receipt m.leaf height) : Call Receipt).transact s =
        (.ok (order.receipt m.leaf height), order.recorded s) := by
    intro order
    exact Call.transact_eq_ok_iff.mpr
      (yields_record_bind_iff.mpr (Call.yields_pure_iff.mpr ⟨rfl, rfl⟩))
  simp only [hstored]

theorem transact_eq_ok_iff [AddressRules] {sender : Address} {receipt : Receipt} :
    ((Request.command sender (.withdraw m path height)).run env).transact s = (.ok receipt, t) ↔
      ∃ order, approve env.now m path height s = .ok order ∧ order.receipt m.leaf height = receipt ∧
        order.recorded s = t := by
  rw [transact_eq]
  cases happroved : approve env.now m path height s with
  | error fault => simp
  | ok order => simp

/-- The checks of a message look at no quota and at no amount locked. -/
theorem checkMessage_recorded (horder : order.id ≠ ⟨m.sourceChain, m.nonce⟩) :
    checkMessage now m path height (order.recorded s) = checkMessage now m path height s := by
  have hredeemed : (order.recorded s).redeemed.contains ⟨m.sourceChain, m.nonce⟩ =
      s.redeemed.contains ⟨m.sourceChain, m.nonce⟩ := by
    simp [recorded, Std.ExtTreeSet.contains_insert, horder]
  unfold checkMessage
  rw [hredeemed]
  rfl

/-- What two withdrawals leave: their quotas, the messages redeemed, what remains locked. -/
theorem recorded_recorded (first second : WithdrawalOrder) (s : Store) :
    second.recorded (first.recorded s) = { s with
      quotas := ((s.withQuota .withdrawal first.token first.quota).withQuota .withdrawal
        second.token second.quota).quotas
      redeemed := (s.redeemed.insert first.id).insert second.id
      locked := ((s.release first.token first.amount).release second.token
        second.amount).locked } :=
  rfl

variable [AddressRules]

/-- A message that may be paid out is within its quota and within what is locked. -/
theorem funds_of_checkRelease (h : checkRelease now m s = .ok order) :
    s.reserved .withdrawal order.token order.amount now = .ok order.quota ∧
      order.amount ≤ s.lockedOf order.token := by
  obtain ⟨_, _, _, _, _, _, _, hquota, hheld, htoken, _⟩ := checkRelease_eq_ok_iff.mp h
  rw [htoken]
  exact ⟨hquota, hheld⟩

/-- Under the same bindings a message may be paid out wherever the quota and the amount locked hold
its amount. -/
theorem checkRelease_of_funds {quota : Option Quota} (h : checkRelease now m s = .ok order)
    (hbindings : ∀ asset, t.bindingOfAsset? asset = s.bindingOfAsset? asset)
    (hquota : t.reserved .withdrawal order.token order.amount now = .ok quota)
    (hheld : order.amount ≤ t.lockedOf order.token) :
    checkRelease now m t = .ok { order with quota } := by
  obtain ⟨asset, b, hasset, hbound, hrecipient, hscaled, hzero, _, _, htoken, hid⟩ :=
    checkRelease_eq_ok_iff.mp h
  rw [htoken] at hquota hheld
  have hbound' := (hbindings asset).trans hbound
  exact checkRelease_eq_ok_iff.mpr
    ⟨asset, b, hasset, hbound', hrecipient, hscaled, hzero, hquota, hheld, htoken, hid⟩

/-- What is redeemed is the message. -/
theorem id_of_approve (happroved : approve now m path height s = .ok order) :
    order.id = ⟨m.sourceChain, m.nonce⟩ := by
  obtain ⟨_, _, hrelease⟩ := approve_eq_ok_iff.mp happroved
  obtain ⟨_, _, _, _, _, _, _, _, _, _, hid⟩ := checkRelease_eq_ok_iff.mp hrelease
  exact hid

/-- What is paid out is the token that the asset of the message is bound to. -/
theorem token_of_approve (hasset : m.assetId? = some asset)
    (hbound : s.bindingOfAsset? asset = some b)
    (happroved : approve now m path height s = .ok order) : order.token = b.token := by
  obtain ⟨_, _, hrelease⟩ := approve_eq_ok_iff.mp happroved
  obtain ⟨asset', b', hasset', hbound', _, _, _, _, _, htoken, _⟩ :=
    checkRelease_eq_ok_iff.mp hrelease
  rw [hasset] at hasset'
  obtain rfl := Option.some.inj hasset'
  rw [hbound] at hbound'
  obtain rfl := Option.some.inj hbound'
  exact htoken

/-- Two withdrawals of different messages that pass their checks in one order do so in the other
one, are paid out alike, and leave the same store. -/
theorem approve_comm (hid : order.id ≠ order'.id)
    (hfirst : approve now m path height s = .ok order)
    (hsecond : approve now m' path' height' (order.recorded s) = .ok order') :
    ∃ quota quota', approve now m' path' height' s = .ok { order' with quota := quota' } ∧
      approve now m path height (({ order' with quota := quota' } : WithdrawalOrder).recorded s) =
        .ok { order with quota } ∧
      ({ order with quota } : WithdrawalOrder).recorded
          (({ order' with quota := quota' } : WithdrawalOrder).recorded s) =
        order'.recorded (order.recorded s) := by
  have hmine := id_of_approve hfirst
  have hmine' := id_of_approve hsecond
  obtain ⟨hactive, hmessage, hrelease⟩ := approve_eq_ok_iff.mp hfirst
  obtain ⟨hactive', hmessage', hrelease'⟩ := approve_eq_ok_iff.mp hsecond
  obtain ⟨hquota, hheld⟩ := funds_of_checkRelease hrelease
  obtain ⟨hquota', hheld'⟩ := funds_of_checkRelease hrelease'
  obtain ⟨quota', quota, hreserved', hreserved, hquotas⟩ := Store.reserved_comm hquota hquota'
  obtain ⟨hrest', hrest⟩ := Store.lockedOf_comm hheld hheld'
  have hlocks := s.release_comm order.token order'.token order.amount order'.amount
  refine ⟨quota, quota', ?_, ?_, ?_⟩
  · have hsame : checkMessage now m' path' height' (order.recorded s) =
        checkMessage now m' path' height' s := checkMessage_recorded (hmine' ▸ hid)
    have hfunds : checkRelease now m' s = .ok { order' with quota := quota' } :=
      checkRelease_of_funds hrelease' (fun _ => rfl) hreserved' hrest'
    exact approve_eq_ok_iff.mpr ⟨hactive', hsame.symm.trans hmessage', hfunds⟩
  · have hsame : checkMessage now m path height
        (({ order' with quota := quota' } : WithdrawalOrder).recorded s) =
          checkMessage now m path height s := checkMessage_recorded (hmine ▸ Ne.symm hid)
    have hfunds :
        checkRelease now m (({ order' with quota := quota' } : WithdrawalOrder).recorded s) =
        .ok { order with quota } :=
      checkRelease_of_funds hrelease (fun _ => rfl) hreserved hrest
    exact approve_eq_ok_iff.mpr ⟨hactive, hsame.trans hmessage, hfunds⟩
  · rw [recorded_recorded, recorded_recorded, hlocks, hquotas, Std.ExtTreeSet.insert_comm]

end WithdrawalOrder

/-! ### A deposit and a withdrawal -/

/-- The token of which a call is to deposit an amount: the owner's call names it, the token's own
call comes from it. -/
def Command.depositedToken? (sender : Address) : Command → Option Address
  | deposit token _ _ => some token
  | receive _ _ _ => some sender
  | _ => none

namespace DepositOrder

variable {order : DepositOrder} {w : WithdrawalOrder}

/-- The checks of a deposit look at nothing that a withdrawal writes. -/
theorem check_recorded (now : Timestamp) (token : Address) (amount : Amount) (recipient : String)
    (w : WithdrawalOrder) (s : Store) :
    check now token amount recipient (w.recorded s) = check now token amount recipient s := by
  have hquota : (w.recorded s).quota? .deposit token = s.quota? .deposit token :=
    Store.quota?_withQuota_of_ne (by simp) w.quota s
  unfold check
  rw [Store.reserved_congr hquota]
  rfl

/-- A deposit is stored beside a withdrawal of another token. -/
theorem ignores_recorded (hother : order.binding.token ≠ w.token) (sender : Address)
    (calls : List TokenCall) : (order.record sender calls).Ignores w.recorded := by
  have hkeys : QuotaKey.mk .withdrawal w.token ≠ QuotaKey.mk .deposit order.token := by simp
  have hquota : (Call.putReserved .deposit order.token order.quota).Ignores w.recorded := by
    intro s
    have hquotas := congrArg Store.quotas (Store.withQuota_comm hkeys w.quota order.quota s)
    have hstored : (w.recorded s).withQuota .deposit order.token order.quota =
        w.recorded (s.withQuota .deposit order.token order.quota) :=
      congrArg (fun quotas => { w.recorded s with quotas }) hquotas
    rw [Call.IgnoresAt, Call.outcome_putReserved, Call.outcome_putReserved, hstored]
  have hheld : ∀ s, (w.recorded s).lockedOf order.binding.token =
      s.lockedOf order.binding.token := by
    intro s
    exact (s.lockedOf_release w.token _ w.amount).trans (if_neg (Ne.symm hother))
  have hlocked : ∀ locked s, ({ w.recorded s with
      locked := (w.recorded s).locked.insert order.binding.token locked } : Store) =
        w.recorded { s with locked := s.locked.insert order.binding.token locked } := by
    intro locked s
    simp only [WithdrawalOrder.recorded, Store.withQuota, Store.lockedOf_insert, if_neg hother,
      Std.ExtTreeMap.insert_comm s.locked hother]
  refine .check_bind (fun _ => rfl) fun settings => ?_
  refine hquota.bind fun _ => ?_
  refine .check_bind (fun s => by rw [hheld]) fun locked => ?_
  refine .write_bind (hlocked locked) fun _ => ?_
  refine .check_bind (fun _ => rfl) fun nonce => ?_
  refine .lift_bind fun next => ?_
  exact .write_bind (fun _ => rfl) fun _ => .pure _

/-- The binding that a deposit is checked against is that of its token. -/
theorem token_of_check {recipient : String} (hnamed : s.BoundByName)
    (hcheck : check now token amount recipient s = .ok order) : order.binding.token = token := by
  obtain ⟨_, _, hbinding, _⟩ := check_eq_ok_iff.mp hcheck
  exact hnamed hbinding

end DepositOrder

/-- A deposit goes on alike after a withdrawal of another token. -/
theorem Command.ignoresAt_recorded [AddressRules] {w : WithdrawalOrder} (hnamed : s.BoundByName)
    (env : Env) (hdeposit : command.depositedToken? sender = some token)
    (hother : token ≠ w.token) :
    (command.run env sender).IgnoresAt w.recorded s := by
  cases command with
  | deposit token amount recipient =>
    obtain rfl := Option.some.inj hdeposit
    refine .check_bind rfl fun _ _ => ?_
    refine .lift_bind fun token' hvalid => ?_
    obtain rfl := eq_of_requireValid hvalid
    refine .check_bind (DepositOrder.check_recorded ..) fun order hcheck => ?_
    obtain rfl := DepositOrder.token_of_check hnamed hcheck
    refine .lift_bind fun _ _ => ?_
    exact order.ignores_recorded hother _ _ s
  | receive owner amount notice =>
    obtain rfl := Option.some.inj hdeposit
    refine .check_bind rfl fun _ _ => ?_
    refine .lift_bind fun _ _ => ?_
    refine .lift_bind fun ⟨recipient⟩ _ => ?_
    refine .check_bind (DepositOrder.check_recorded ..) fun order hcheck => ?_
    obtain rfl := DepositOrder.token_of_check hnamed hcheck
    exact order.ignores_recorded hother _ _ s
  | _ => cases hdeposit

/-- A deposit leaves the store as it was, or stores an amount of its token. -/
theorem Command.store_of_deposit [AddressRules] (hnamed : s.BoundByName) (env : Env)
    (hdeposit : command.depositedToken? sender = some token) :
    ((command.run env sender).transact s).2 = s ∨
      ∃ order : DepositOrder, order.binding.token = token ∧ ∃ locked next,
        ((command.run env sender).transact s).2 = order.recorded locked next s := by
  rcases hended : (command.run env sender).transact s with ⟨result, t⟩
  cases result with
  | error fault => exact Or.inl (Call.store_of_transact_error hended)
  | ok receipt =>
    refine Or.inr ?_
    cases Step.of_command (Call.transact_eq_ok_iff.mp hended) with
    | deposit _ hcheck _ hrecord | receive _ _ hcheck hrecord =>
      obtain rfl := Option.some.inj hdeposit
      exact ⟨_, DepositOrder.token_of_check hnamed hcheck, DepositOrder.store_of_record hrecord⟩
    | _ => cases hdeposit

namespace WithdrawalOrder

/-- A withdrawal is checked alike after a deposit of another token. -/
theorem approve_recorded [AddressRules] {d : DepositOrder} (hasset : m.assetId? = some asset)
    (hbound : s.bindingOfAsset? asset = some b) (hother : d.binding.token ≠ b.token)
    (now : Timestamp) (path : MerklePath) (height : UInt64) (locked : Amount) (next : UInt64) :
    approve now m path height (d.recorded locked next s) = approve now m path height s := by
  have hresolve : s.resolveAsset asset = .ok b := by rw [Store.resolveAsset, hbound]
  have hquota : (d.recorded locked next s).quota? .withdrawal b.token =
      s.quota? .withdrawal b.token := Store.quota?_withQuota_of_ne (by simp) d.quota s
  have hheld : (d.recorded locked next s).lockedOf b.token = s.lockedOf b.token :=
    (s.lockedOf_insert d.binding.token b.token locked).trans (if_neg hother)
  have hrelease : checkRelease now m (d.recorded locked next s) = checkRelease now m s := by
    have hresolve' : (d.recorded locked next s).resolveAsset asset = .ok b := hresolve
    simp only [checkRelease, hasset, hresolve, hresolve', bind, Except.bind,
      Store.reserved_congr hquota, hheld]
  unfold approve
  rw [hrelease]
  rfl

end WithdrawalOrder

/-! ### Both orders -/

namespace Store

variable [AddressRules]

/-- How two requests of one block end, one after the other, and the store in the end. -/
def inTurn (env : Env) (first second : Request) (s : Store) :
    (Except Fault Receipt × Except Fault Receipt) × Store :=
  let ended := (first.run env).transact s
  let followed := (second.run env).transact ended.2
  ((ended.1, followed.1), followed.2)

theorem inTurn_eq_ok_iff {first second : Request} {receipt receipt' : Receipt} :
    s.inTurn env first second = ((.ok receipt, .ok receipt'), t) ↔
      ∃ between, (first.run env).transact s = (.ok receipt, between) ∧
        (second.run env).transact between = (.ok receipt', t) := by
  unfold inTurn
  rcases (first.run env).transact s with ⟨result, between⟩
  simp only [Prod.mk.injEq]
  constructor
  · rintro ⟨⟨rfl, hresult⟩, hstore⟩
    exact ⟨between, ⟨rfl, rfl⟩, Prod.ext hresult hstore⟩
  · rintro ⟨_, ⟨rfl, rfl⟩, hfollowed⟩
    rw [hfollowed]
    exact ⟨⟨rfl, rfl⟩, rfl⟩

/-- Withdrawals of messages with different numbers that succeed in one order do so in the other
one. -/
theorem inTurn_withdrawals {sender' : Address} {receipt receipt' : Receipt}
    (hnonce : m.nonce ≠ m'.nonce)
    (hturn : s.inTurn env (.command sender (.withdraw m path height))
      (.command sender' (.withdraw m' path' height')) = ((.ok receipt, .ok receipt'), t)) :
    s.inTurn env (.command sender' (.withdraw m' path' height'))
      (.command sender (.withdraw m path height)) = ((.ok receipt', .ok receipt), t) := by
  obtain ⟨between, hfirst, hsecond⟩ := inTurn_eq_ok_iff.mp hturn
  obtain ⟨order, happroved, rfl, rfl⟩ := WithdrawalOrder.transact_eq_ok_iff.mp hfirst
  obtain ⟨order', happroved', rfl, rfl⟩ := WithdrawalOrder.transact_eq_ok_iff.mp hsecond
  have hid : order.id ≠ order'.id := by
    rw [WithdrawalOrder.id_of_approve happroved, WithdrawalOrder.id_of_approve happroved']
    intro hsame
    exact hnonce (MessageId.mk.inj hsame).2
  obtain ⟨quota, quota', hfirst', hsecond', hafter⟩ :=
    WithdrawalOrder.approve_comm hid happroved happroved'
  refine inTurn_eq_ok_iff.mpr ⟨_, WithdrawalOrder.transact_eq_ok_iff.mpr ⟨_, hfirst', rfl, rfl⟩, ?_⟩
  exact WithdrawalOrder.transact_eq_ok_iff.mpr ⟨_, hsecond', rfl, hafter⟩

/-- A deposit and a withdrawal of another token end alike in both orders, and leave the same. -/
theorem inTurn_deposit {depositor : Address} (hnamed : s.BoundByName) (env : Env)
    (hdeposit : command.depositedToken? depositor = some token) (hasset : m.assetId? = some asset)
    (hbound : s.bindingOfAsset? asset = some b) (hother : b.token ≠ token) (sender : Address)
    (path : MerklePath) (height : UInt64) :
    let deposit := Request.command depositor command
    let withdrawal := Request.command sender (.withdraw m path height)
    s.inTurn env deposit withdrawal =
      ((s.inTurn env withdrawal deposit).1.swap, (s.inTurn env withdrawal deposit).2) := by
  intro deposit withdrawal
  let deposited := (deposit.run env).transact s
  have hagree : WithdrawalOrder.approve env.now m path height deposited.2 =
      WithdrawalOrder.approve env.now m path height s := by
    rcases Command.store_of_deposit hnamed env hdeposit with hkept | ⟨d, rfl, locked, next, hstore⟩
    · exact congrArg _ hkept
    · have hafter : deposited.2 = d.recorded locked next s := hstore
      rw [hafter, WithdrawalOrder.approve_recorded hasset hbound (Ne.symm hother)]
  have hpaid := WithdrawalOrder.transact_eq env sender m path height s
  have hpaid' := WithdrawalOrder.transact_eq env sender m path height deposited.2
  rw [hagree] at hpaid'
  cases happroved : WithdrawalOrder.approve env.now m path height s with
  | error fault =>
    rw [happroved, Call.proceed_error] at hpaid hpaid'
    simp only [inTurn, withdrawal, hpaid]
    rw [hpaid']
    rfl
  | ok w =>
    rw [happroved, Call.proceed_ok] at hpaid hpaid'
    have htoken := WithdrawalOrder.token_of_approve hasset hbound happroved
    have hdeposited : (deposit.run env).transact (w.recorded s) =
        (deposited.1, w.recorded deposited.2) :=
      (Command.ignoresAt_recorded hnamed env hdeposit (htoken.symm ▸ Ne.symm hother)).transact
    simp only [inTurn, withdrawal, hpaid, hdeposited]
    rw [hpaid']
    rfl

/-- The order of two requests in a block does not matter where they do not stand in each other's
way. -/
structure OrderIndependent (env : Env) (s : Store) : Prop where
  /-- Two withdrawals of messages with different numbers that succeed in one order do so in the
  other one, with the same receipts and the same store in the end. -/
  withdrawals : ∀ sender sender' m m' path path' height height' receipt receipt' t,
    m.nonce ≠ m'.nonce →
      s.inTurn env (.command sender (.withdraw m path height))
          (.command sender' (.withdraw m' path' height')) = ((.ok receipt, .ok receipt'), t) →
        s.inTurn env (.command sender' (.withdraw m' path' height'))
          (.command sender (.withdraw m path height)) = ((.ok receipt', .ok receipt), t)
  /-- A deposit of a token and a withdrawal of another one each end in the same way in both orders,
  and leave the same store. -/
  deposits : ∀ depositor command token sender m path height asset b,
    command.depositedToken? depositor = some token → m.assetId? = some asset →
      s.bindingOfAsset? asset = some b → b.token ≠ token →
        let deposit := Request.command depositor command
        let withdrawal := Request.command sender (.withdraw m path height)
        s.inTurn env deposit withdrawal =
          ((s.inTurn env withdrawal deposit).1.swap, (s.inTurn env withdrawal deposit).2)

end Store

/-- In every state of a run the order of two withdrawals, or of a deposit and a withdrawal of
another token, does not matter. -/
theorem Run.order_independent [AddressRules] (h : Run g log s) (env : Env) :
    s.OrderIndependent env where
  withdrawals _ _ _ _ _ _ _ _ _ _ _ hnonce hturn := Store.inTurn_withdrawals hnonce hturn
  deposits _ _ _ sender _ path height _ _ hdeposit hasset hbound hother :=
    Store.inTurn_deposit h.boundByName env hdeposit hasset hbound hother sender path height

namespace Sample

/-- A second message of the other chain. -/
def rival : Message := { message with amount := ⟨13, by decide⟩, nonce := 8 }

/-- Two messages are committed, and a second token is bound. -/
def contest : List Request := preparations ++ [
  .command "root" (.commit 2 rival.leaf.bytes 1),
  .command "root" (.bindAsset "coin" ones.bytes 6 6)]

def contested : List Entry × Store :=
  ((found genesis).transact .empty).2.play (contest.map (Sample.env, ·))

theorem run_contested : Run genesis contested.1 contested.2 := run_of_later contest (by decide)

def rivalry : Request := .command "carol" (.withdraw rival ⟨0, 1, []⟩ 2)

/-- A deposit of the second token. -/
def coinDeposit : Command := .deposit "coin" stake Word256.zero.toHex

/-- Whether the two withdrawals succeed, and whether a withdrawal and the deposit do. -/
def successes : List Bool :=
  let both := contested.2.inTurn Sample.env withdrawal rivalry
  let mixed := contested.2.inTurn Sample.env withdrawal (.command "alice" coinDeposit)
  [both.1.1.isOk, both.1.2.isOk, mixed.1.1.isOk, mixed.1.2.isOk]

end Sample

/-- Two withdrawals share a quota that both fit in, and a deposit of another token is made. -/
theorem Run.order_independent_sample :
    Run Sample.genesis Sample.contested.1 Sample.contested.2 ∧
      Sample.message.nonce ≠ Sample.rival.nonce ∧
      Sample.coinDeposit.depositedToken? "alice" = some "coin" ∧
      Sample.message.assetId? = some Word256.zero ∧
      (Sample.contested.2.bindingOfAsset? Word256.zero).map Binding.token = some "cash" ∧
      Sample.successes = [true, true, true, true] ∧
      Sample.contested.2.OrderIndependent Sample.env := by
  have hended : (Sample.contested.2.bindingOfAsset? Word256.zero).map Binding.token = some "cash" ∧
      Sample.successes = [true, true, true, true] := by decide +kernel
  exact ⟨Sample.run_contested, by decide, by decide, by decide, hended.1, hended.2,
    order_independent Sample.run_contested Sample.env⟩

end TokenBridge
