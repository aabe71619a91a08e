import TokenBridge.Action.Withdrawal
import TokenBridge.Proofs.Yields

/-!
# What movements check and store

The checks of a deposit and of a withdrawal are described by the conditions under which they pass,
and what the two store by the store that they leave. A deposit is keyed by the token of its binding,
a withdrawal by the token that the asset of its message is bound to.
-/

namespace TokenBridge

variable {s t : Store} {now : Timestamp}

/-- A movement is charged to the quota as of now; without a quota it is not charged at all. -/
theorem Store.reserved_eq_ok_iff {flow : Flow} {token : Address} {amount : Amount}
    {after : Option Quota} :
    s.reserved flow token amount now = .ok after ↔
      (s.quota? flow token = none ∧ after = none) ∨
      ∃ q rolled charged, s.quota? flow token = some q ∧ q.rolled? now = some rolled ∧
        rolled.take? amount = some charged ∧ after = some charged := by
  unfold reserved quotaAt
  cases hq : s.quota? flow token with
  | none =>
    simp only [Except.bind_eq_ok_iff, Except.ok.injEq, true_and, reduceCtorEq, false_and,
      exists_false, or_false]
    constructor
    · rintro ⟨_, rfl, h⟩
      exact (Except.pure_eq_ok_iff.mp h).symm
    · rintro rfl
      exact ⟨none, rfl, rfl⟩
  | some q =>
    simp only [Except.bind_eq_ok_iff, orAbort_eq_ok_iff, Except.pure_eq_ok_iff]
    constructor
    · rintro ⟨_, ⟨rolled, hrolled, rfl⟩, h⟩
      cases hcharged : rolled.take? amount with
      | none => simp [hcharged] at h
      | some charged =>
        simp only [hcharged, Except.pure_eq_ok_iff] at h
        exact Or.inr ⟨q, rolled, charged, rfl, hrolled, hcharged, h.symm⟩
    · rintro (⟨hnone, _⟩ | ⟨_, rolled, charged, hq, hrolled, hcharged, rfl⟩)
      · simp at hnone
      · obtain rfl := Option.some.inj hq
        exact ⟨some rolled, ⟨rolled, hrolled, rfl⟩, by simp [hcharged, Except.pure_eq_ok_iff]⟩

namespace DepositOrder

variable {order : DepositOrder}

/-- A deposit passes its checks exactly when the amount is not zero, the recipient is an account of
the second chain, the token is bound, the asset can express the amount and the quota holds it. -/
theorem check_eq_ok_iff {token : Address} {amount : Amount} {recipient : String} :
    check now token amount recipient s = .ok order ↔
      amount ≠ .zero ∧ Word256.ofHex? recipient = some order.recipient ∧
      s.bindings[token]? = some order.binding ∧
      order.binding.toAsset amount = .ok order.remoteAmount ∧
      s.reserved .deposit token amount now = .ok order.quota ∧ order.amount = amount ∧
      order.token = token := by
  unfold check
  simp only [Except.bind_eq_ok_iff, demand_eq_ok_iff, exists_const]
  refine and_congr_right fun _ => ?_
  cases Word256.ofHex? recipient with
  | none => simp [Except.bind_eq_ok_iff]
  | some account =>
    simp only [Except.bind_eq_ok_iff, Except.mapError_eq_ok_iff, Except.pure_eq_ok_iff,
      Except.ok.injEq, Option.some.injEq, Store.resolve]
    constructor
    · rintro ⟨_, rfl, binding, hbinding, remote, hremote, quota, hquota, rfl⟩
      cases hb : s.bindings[token]? with
      | none => simp [hb] at hbinding
      | some b =>
        obtain rfl : b = binding := by simpa [hb] using hbinding
        exact ⟨rfl, rfl, hremote, hquota, rfl, rfl⟩
    · rintro ⟨rfl, hbinding, hremote, hquota, rfl, rfl⟩
      exact ⟨_, rfl, order.binding, by rw [hbinding], _, hremote, _, hquota, rfl⟩

/-- The store after a deposit: its quota, the new amount locked, the new number. -/
def recorded (order : DepositOrder) (locked : Amount) (next : UInt64) (s : Store) : Store :=
  { s.withQuota .deposit order.token order.quota with
    locked := s.locked.insert order.binding.token locked
    nextNonce := some next }

/-- A deposit is stored unless what is locked or the number of messages leaves its range. -/
theorem yields_record_iff {sender : Address} {calls : List TokenCall} {receipt : Receipt} :
    (order.record sender calls).Yields s receipt t ↔
      ∃ settings nonce locked next, s.settings = some settings ∧ s.nextNonce = some nonce ∧
        locked.toNat = (s.lockedOf order.binding.token).toNat + order.amount.toNat ∧
        next.toNat = nonce.toNat + 1 ∧
        receipt = order.receipt (order.message sender nonce settings.homeChain) calls ∧
        t = order.recorded locked next s := by
  simp only [record, Call.yields_check_bind_iff, Call.yields_lift_bind_iff,
    Call.yields_write_bind_iff, Call.yields_putReserved_bind_iff, Call.yields_pure_iff,
    Store.getSettings, Store.getNextNonce, Store.present_eq_ok_iff,
    orAbort_eq_ok_iff, Amount.add?_eq_some_iff, add64?_eq_some_iff]
  constructor
  · rintro ⟨settings, hsettings, locked, hlocked, nonce, hnonce, next, hnext, rfl, rfl⟩
    exact ⟨settings, nonce, locked, next, hsettings, hnonce, hlocked, hnext, rfl, rfl⟩
  · rintro ⟨settings, nonce, locked, next, hsettings, hnonce, hlocked, hnext, rfl, rfl⟩
    exact ⟨settings, hsettings, locked, hlocked, nonce, hnonce, next, hnext, rfl, rfl⟩

theorem store_of_record {sender : Address} {calls : List TokenCall} {receipt : Receipt}
    (h : (order.record sender calls).Yields s receipt t) :
    ∃ locked next, t = order.recorded locked next s := by
  obtain ⟨_, _, locked, next, _, _, _, _, _, hstore⟩ := yields_record_iff.mp h
  exact ⟨locked, next, hstore⟩

end DepositOrder

namespace WithdrawalOrder

variable {order : WithdrawalOrder} {m : Message}

/-- A message may be redeemed exactly when its height is final, the path leads to the root there
under the scheme in force, it comes from the remote chain, and it has not been redeemed. -/
theorem checkMessage_eq_ok_iff {path : MerklePath} {height : UInt64} {u : Unit} :
    checkMessage now m path height s = .ok u ↔
      ∃ c settings, s.commitments[height]? = some c ∧ s.settings = some settings ∧
        c.isFinal now settings.finalityDelay = true ∧
        settings.scheme.verify c.root m.leaf path = true ∧
        m.sourceChain = settings.remoteChain ∧
        s.redeemed.contains ⟨m.sourceChain, m.nonce⟩ = false := by
  unfold checkMessage Store.requireIncluded Store.isFinalized Store.includes
  cases hc : s.commitments[height]? with
  | none => simp [Except.bind_eq_ok_iff, demand_eq_ok_iff]
  | some c =>
    cases hs : s.settings with
    | none => simp [Except.bind_eq_ok_iff, Store.getSettings, hs, Store.present]
    | some settings =>
      simp [Except.bind_eq_ok_iff, demand_eq_ok_iff, Store.getSettings, hs, Store.present]

/-- A message is paid out exactly when its asset is bound, its recipient is valid, the token can
express its amount, which is not zero, and both the quota and what is locked hold that amount. -/
theorem checkRelease_eq_ok_iff [AddressRules] :
    checkRelease now m s = .ok order ↔
      ∃ asset binding, m.assetId? = some asset ∧ s.bindingOfAsset? asset = some binding ∧
        Address.validate m.recipient = .ok order.recipient ∧
        binding.toToken m.amount = .ok order.amount ∧ order.amount ≠ .zero ∧
        s.reserved .withdrawal binding.token order.amount now = .ok order.quota ∧
        order.amount ≤ s.lockedOf binding.token ∧ order.token = binding.token ∧
        order.id = ⟨m.sourceChain, m.nonce⟩ := by
  unfold checkRelease
  cases m.assetId? with
  | none => simp [Except.bind_eq_ok_iff]
  | some asset =>
    simp only [Except.bind_eq_ok_iff, Except.mapError_eq_ok_iff, demand_eq_ok_iff,
      Except.pure_eq_ok_iff, Except.ok.injEq, Option.some.injEq, Store.resolveAsset]
    constructor
    · rintro ⟨_, rfl, binding, hbinding, recipient, hrecipient, amount, hamount, _, hzero, quota,
        hquota, _, hlocked, rfl⟩
      cases hb : s.bindingOfAsset? asset with
      | none => simp [hb] at hbinding
      | some b =>
        obtain rfl : b = binding := by simpa [hb] using hbinding
        exact ⟨asset, b, rfl, hb, hrecipient, hamount, hzero, hquota, hlocked, rfl, rfl⟩
    · rintro ⟨_, binding, rfl, hbinding, hrecipient, hamount, hzero, hquota, hlocked, htoken, hid⟩
      refine ⟨asset, rfl, binding, by rw [hbinding], order.recipient, hrecipient, order.amount,
        hamount, (), hzero, order.quota, hquota, (), hlocked, ?_⟩
      cases order
      simp_all

/-- The store after a withdrawal: the message redeemed, its quota, what remains locked. -/
def recorded (order : WithdrawalOrder) (s : Store) : Store :=
  { s.withQuota .withdrawal order.token order.quota with
    redeemed := s.redeemed.insert order.id
    locked := s.locked.insert order.token ((s.lockedOf order.token).truncSub order.amount) }

/-- A withdrawal that has passed its checks is always stored. -/
theorem yields_record_bind_iff {next : Unit → Call α} {a : α} :
    (order.record >>= next).Yields s a t ↔ (next ()).Yields (order.recorded s) a t := by
  simp only [record, bind_assoc, Call.yields_write_bind_iff, Call.yields_putReserved_bind_iff]
  rfl

end WithdrawalOrder

end TokenBridge
