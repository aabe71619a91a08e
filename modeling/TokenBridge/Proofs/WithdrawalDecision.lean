import TokenBridge.Proofs.Deciding
import TokenBridge.Proofs.Permanence
import TokenBridge.Proofs.Reordering
import TokenBridge.Proofs.Scaling

/-!
# How a withdrawal is decided

Ten things are asked for before a message is paid out: that withdrawals are not paused, four about
the message itself, and five about what it is worth here. Which token that is and how much of it
depends on the binding of its asset, and there is at most one. A withdrawal for which all ten hold
marks the message as redeemed, takes what it is worth from what is locked, charges the quota if
there is one, and touches nothing else.
-/

namespace TokenBridge

variable {g : Genesis} {log : List Entry} {now : Timestamp} {s t : Store} {m : Message}
  {path : MerklePath} {height : UInt64} {settings : Settings} {asset : Word256} {b b' : Binding}
  {amount amount' : Amount} {order : WithdrawalOrder}

namespace Store

/-- The message moves the asset of the binding. -/
def Binds (s : Store) (m : Message) (b : Binding) : Prop :=
  s.bindings[b.token]? = some b ∧ b.asset.bytes = m.data

/-- The message is worth an amount in the token of its binding, of the same value and not zero. -/
def Pays (s : Store) (m : Message) (b : Binding) (amount : Amount) : Prop :=
  s.Binds m b ∧ amount ≠ .zero ∧
    amount.toNat * Nat.pow 10 b.assetDecimals.toNat =
      m.amount.toNat * Nat.pow 10 b.tokenDecimals.toNat

/-- The height is committed, and the delay has passed since. -/
def finalCheck (s : Store) (settings : Settings) (now : Timestamp) (height : UInt64) : Check where
  passes := ∃ c, s.commitments[height]? = some c ∧
    settings.finalityDelay.toNat ≤ now.seconds.toNat - c.time.seconds.toNat
  refuses why := why = .notFinalized height

/-- The path leads from the message to the root at the height, under the scheme in force. -/
def includedCheck (s : Store) (settings : Settings) (m : Message) (path : MerklePath)
    (height : UInt64) : Check where
  passes := ∃ c, s.commitments[height]? = some c ∧
    settings.scheme.verify c.root m.leaf path = true
  refuses why := why = .notIncluded height

/-- The message comes from the remote chain. -/
def chainCheck (settings : Settings) (m : Message) : Check where
  passes := m.sourceChain = settings.remoteChain
  refuses why := why = .foreignChain settings.remoteChain m.sourceChain

/-- The message has not been redeemed. -/
def freshCheck (s : Store) (m : Message) : Check where
  passes := ⟨m.sourceChain, m.nonce⟩ ∉ s.redeemed
  refuses why := why = .replayed m.sourceChain m.nonce

/-- The data of the message are the bytes of a bound asset. -/
def boundCheck (s : Store) (m : Message) : Check where
  passes := ∃ b, s.Binds m b
  refuses why := why = .unbound (String.ofList ('0' :: 'x' :: Hex.encode m.data))

/-- The recipient is valid. -/
def recipientCheck [AddressRules] (m : Message) : Check where
  passes := Address.fault? m.recipient = none
  refuses why := ∃ fault, Address.fault? m.recipient = some fault ∧
    why = .badAccount (.invalid (.badAddress fault))

/-- The message is worth an amount. -/
def valueCheck (s : Store) (m : Message) : Check where
  passes := ∃ b amount, s.Pays m b amount
  refuses why := ∃ b fault, s.Binds m b ∧ why = .badAmount fault ∧
    (b.toToken m.amount = .error fault ∨ b.toToken m.amount = .ok .zero ∧ fault = .zero)

/-- What is locked of the token covers the amount. -/
def lockedCheck (s : Store) (token : Address) (amount : Amount) : Check where
  passes := amount ≤ s.lockedOf token
  refuses why := why = .transferFailed (.lockedBelow (s.lockedOf token) amount)

/-- A check of the amount that the message is worth. -/
def worthCheck (s : Store) (m : Message) (k : Binding → Amount → Check) : Check where
  passes := ∃ b amount, s.Pays m b amount ∧ (k b amount).passes
  refuses why := ∃ b amount, s.Pays m b amount ∧ (k b amount).refuses why

/-- All that is asked for before a message is paid out, in this order. -/
def withdrawalChecks [AddressRules] (s : Store) (settings : Settings) (now : Timestamp)
    (m : Message) (path : MerklePath) (height : UInt64) : List Check := [
  s.activeCheck .withdrawals,
  s.finalCheck settings now height,
  s.includedCheck settings m path height,
  chainCheck settings m,
  s.freshCheck m,
  s.boundCheck m,
  recipientCheck m,
  s.valueCheck m,
  s.worthCheck m fun b amount => s.quotaCheck .withdrawal b.token amount now,
  s.worthCheck m fun b amount => s.lockedCheck b.token amount]

/-- What a withdrawal does: one payment is ordered, and the message, the amount locked and the quota
are changed in the store. -/
structure PaidOut (s : Store) (now : Timestamp) (m : Message) (b : Binding) (amount : Amount)
    (receipt : Receipt) (t : Store) : Prop where
  calls : receipt.calls = [⟨b.token, .pay m.recipient amount⟩]
  store : ∃ left charged, left.toNat + amount.toNat = (s.lockedOf b.token).toNat ∧
    s.Charged .withdrawal b.token amount now charged ∧
    t = { s with
      redeemed := s.redeemed.insert ⟨m.sourceChain, m.nonce⟩
      locked := s.locked.insert b.token left
      quotas := charged.elim s.quotas (s.quotas.insert ⟨.withdrawal, b.token⟩) }

namespace BoundBothWays

/-- The binding of a message is found by the asset that its data spells. -/
theorem binds_iff (hboth : s.BoundBothWays) (hasset : m.assetId? = some asset) :
    s.Binds m b ↔ s.bindingOfAsset? asset = some b := by
  rw [hboth.bindingOfAsset?_eq_some_iff, Binds, ← Word256.ofBytes?_eq_some_iff.mp hasset]
  exact and_congr_right fun _ => ⟨Word256.ext, congrArg Word256.bytes⟩

/-- A message moves the asset of one binding at most. -/
theorem binds_unique (hboth : s.BoundBothWays) (h : s.Binds m b) (h' : s.Binds m b') : b = b' := by
  obtain ⟨hb, hdata⟩ := h
  obtain ⟨hb', hdata'⟩ := h'
  have htoken := hboth.token_inj hb hb' (Word256.ext (hdata.trans hdata'.symm))
  rw [← htoken] at hb'
  exact Option.some.inj (hb.symm.trans hb')

/-- A message is worth one amount of one token at most. -/
theorem pays_unique (hboth : s.BoundBothWays) (h : s.Pays m b amount) (h' : s.Pays m b' amount') :
    b = b' ∧ amount = amount' := by
  obtain ⟨hb, _, hvalue⟩ := h
  obtain ⟨hb', _, hvalue'⟩ := h'
  obtain rfl := hboth.binds_unique hb hb'
  refine ⟨rfl, Amount.ext ?_⟩
  exact Nat.mul_right_cancel (Nat.pow_pos (by decide)) (hvalue.trans hvalue'.symm)

end BoundBothWays

/-- A message is worth what its amount is in the decimals of the token, unless that is zero. -/
theorem pays_iff (hb : s.Binds m b) :
    s.Pays m b amount ↔ amount ≠ .zero ∧ b.toToken m.amount = .ok amount := by
  rw [Pays, and_iff_right hb]
  refine and_congr_right fun hpos => ?_
  rw [Binding.toToken_eq_ok_iff, Binding.toAsset_eq_ok_iff_mul_pow hpos]

/-- A message is worth an amount exactly if its own binding makes one of it that is not zero. -/
theorem BoundBothWays.exists_pays_iff (hboth : s.BoundBothWays) (hb : s.Binds m b) :
    (∃ b' amount, s.Pays m b' amount) ↔
      ∃ amount, amount ≠ .zero ∧ b.toToken m.amount = .ok amount := by
  constructor
  · rintro ⟨b', amount, hpays⟩
    obtain rfl := hboth.binds_unique hb hpays.1
    exact ⟨amount, (pays_iff hb).mp hpays⟩
  · rintro ⟨amount, hamount⟩
    exact ⟨b, amount, (pays_iff hb).mpr hamount⟩

/-- A check of what the message is worth is one of the amount that it is worth. -/
theorem worthCheck_decides {α : Type} {k : Binding → Amount → Check} {result : Except Fault α}
    (hboth : s.BoundBothWays) (hpays : s.Pays m b amount) (h : DecidesResult [k b amount] result) :
    DecidesResult [s.worthCheck m k] result := by
  refine h.congr ⟨?_, fun hpass => ⟨b, amount, hpays, hpass⟩⟩
    fun why hwhy => ⟨b, amount, hpays, hwhy⟩
  rintro ⟨b', amount', hpays', hpass⟩
  obtain ⟨rfl, rfl⟩ := hboth.pays_unique hpays hpays'
  exact hpass

theorem boundCheck_decides (hboth : s.BoundBothWays) (hasset : m.assetId? = some asset) :
    DecidesResult [s.boundCheck m] (s.resolveAsset asset) := by
  unfold resolveAsset
  cases hbound : s.bindingOfAsset? asset with
  | some b =>
    have hb := (hboth.binds_iff hasset).mpr hbound
    exact .single (fun _ => ⟨b, rfl⟩) fun hfail => (hfail ⟨b, hb⟩).elim
  | none =>
    refine .single ?_ fun _ => ⟨_, ?_, rfl⟩
    · rintro ⟨b, hb⟩
      rw [(hboth.binds_iff hasset).mp hb] at hbound
      cases hbound
    · rw [boundCheck, Word256.toHex, Word256.ofBytes?_eq_some_iff.mp hasset]

theorem recipientCheck_decides [AddressRules] :
    DecidesResult [recipientCheck m]
      ((Address.validate m.recipient).mapError (.rejected <| .badAccount <| .invalid ·)) :=
  addressCheck_decides m.recipient (.badAccount <| .invalid ·)

/-- The one check of the amount is made in two tests, whether the token expresses it and whether it
is zero. -/
theorem valueCheck_decides {α : Type} {rest : List Check} {next : Amount → Except Fault α}
    (hboth : s.BoundBothWays) (hb : s.Binds m b)
    (hnext : ∀ amount, s.Pays m b amount → DecidesResult rest (next amount)) :
    DecidesResult (s.valueCheck m :: rest) (do
      let amount ← (b.toToken m.amount).mapError (.rejected <| .badAmount ·)
      demand (amount ≠ .zero) (.badAmount .zero)
      next amount) := by
  have hpasses : (s.valueCheck m).passes ↔
      ∃ amount, amount ≠ .zero ∧ b.toToken m.amount = .ok amount := hboth.exists_pays_iff hb
  cases hscaled : b.toToken m.amount with
  | error fault =>
    rw [hscaled] at hpasses
    refine DecidedBy.cons_iff.mpr ⟨fun hpass => ?_, fun _ => ?_⟩
    · obtain ⟨amount, _, hamount⟩ := hpasses.mp hpass
      cases hamount
    · exact ⟨_, ⟨b, fault, hb, rfl, Or.inl hscaled⟩, rfl⟩
  | ok amount =>
    refine DecidesResult.demand_bind ?_ (fun hzero => ?_) fun hpos => ?_
    · rw [hpasses, hscaled]
      simp
    · rw [Decidable.not_not.mp hzero] at hscaled
      exact ⟨b, .zero, hb, rfl, Or.inr ⟨hscaled, rfl⟩⟩
    · exact hnext amount ((pays_iff hb).mpr ⟨hpos, hscaled⟩)

theorem lockedCheck_decides {token : Address} :
    DecidesResult [s.lockedCheck token amount]
      (demand (amount ≤ s.lockedOf token)
        (.transferFailed (.lockedBelow (s.lockedOf token) amount))) :=
  .demand Iff.rfl fun _ => rfl

end Store

namespace WithdrawalOrder

/-- Whether the message may be redeemed is decided by four checks. -/
theorem checkMessage_decided (hsettings : s.settings = some settings) :
    DecidesResult [s.finalCheck settings now height, s.includedCheck settings m path height,
      Store.chainCheck settings m, s.freshCheck m]
      (checkMessage now m path height s) := by
  cases hc : s.commitments[height]? with
  | none =>
    have hrefused : checkMessage now m path height s =
        .error (.rejected (.notFinalized height)) := by
      simp only [checkMessage, Store.isFinalized, hc]
      rfl
    refine DecidedBy.cons_iff.mpr ⟨?_, fun _ => ⟨_, rfl, hrefused⟩⟩
    rintro ⟨c, hcommitted, _⟩
    rw [hc] at hcommitted
    cases hcommitted
  | some c =>
    rw [checkMessage_of_commitment hc hsettings]
    refine .demand_bind ?_ (fun _ => rfl) fun _ => ?_
    · simp [Store.finalCheck, hc, Commitment.isFinal]
    refine .demand_bind ?_ (fun _ => rfl) fun _ => ?_
    · simp [Store.includedCheck, hc]
    refine .demand_bind Iff.rfl (fun _ => rfl) fun _ => ?_
    refine .demand ?_ fun _ => rfl
    rw [← Bool.not_eq_true, Std.ExtTreeSet.contains_iff_mem]
    rfl

variable [AddressRules]

/-- Whether a message is paid out is decided by the other five. -/
theorem checkRelease_decided (hboth : s.BoundBothWays) (hquotas : s.SoundQuotas) :
    DecidesResult [s.boundCheck m, Store.recipientCheck m, s.valueCheck m,
      s.worthCheck m fun b amount => s.quotaCheck .withdrawal b.token amount now,
      s.worthCheck m fun b amount => s.lockedCheck b.token amount]
      (checkRelease now m s) := by
  unfold checkRelease
  cases hasset : m.assetId? with
  | none =>
    refine DecidedBy.cons_iff.mpr ⟨?_, fun _ => ⟨_, rfl, rfl⟩⟩
    rintro ⟨b, _, hdata⟩
    rw [Message.assetId?, Word256.ofBytes?_eq_some_iff.mpr hdata] at hasset
    cases hasset
  | some asset =>
    refine (Store.boundCheck_decides hboth hasset).bind_cons fun b hresolved => ?_
    have hb := (hboth.binds_iff hasset).mpr (Store.resolveAsset_eq_ok_iff.mp hresolved)
    refine Store.recipientCheck_decides.bind_cons fun recipient _ => ?_
    refine Store.valueCheck_decides hboth hb fun amount hpays => ?_
    refine (Store.worthCheck_decides hboth hpays (Store.quotaCheck_decides hquotas)).bind_cons
      fun quota _ => ?_
    refine (Store.worthCheck_decides hboth hpays Store.lockedCheck_decides).bind_cons fun _ _ => ?_
    exact .ok _

/-- All ten checks, one after the other. -/
theorem approve_decided (hpauses : ∃ pauses, s.pauses = some pauses)
    (hsettings : s.settings = some settings) (hboth : s.BoundBothWays) (hquotas : s.SoundQuotas) :
    DecidesResult (s.withdrawalChecks settings now m path height)
      (approve now m path height s) :=
  (Store.activeCheck_decides hpauses).bind_cons fun _ _ =>
    (checkMessage_decided hsettings).bind fun _ _ => checkRelease_decided hboth hquotas

/-- A withdrawal that passes its checks pays out what the message is worth. -/
theorem paidOut_of_approve (hboth : s.BoundBothWays)
    (h : approve now m path height s = .ok order) :
    ∃ b amount, s.Pays m b amount ∧
      s.PaidOut now m b amount (order.receipt m.leaf height) (order.recorded s) := by
  obtain ⟨id, token, recipient, amount, quota⟩ := order
  obtain ⟨_, _, hrelease⟩ := approve_eq_ok_iff.mp h
  obtain ⟨asset, b, hasset, hbound, hvalid, hscaled, hpos, hquota, hlocked, rfl, rfl⟩ :=
    checkRelease_eq_ok_iff.mp hrelease
  obtain rfl := eq_of_requireValid (Except.mapError_eq_ok_iff.mpr hvalid)
  have hb := (hboth.binds_iff hasset).mpr hbound
  refine ⟨b, amount, (Store.pays_iff hb).mpr ⟨hpos, hscaled⟩, rfl, ?_⟩
  refine ⟨(s.lockedOf b.token).truncSub amount, quota, ?_, Store.charged_of_reserved hquota, rfl⟩
  exact Nat.sub_add_cancel hlocked

end WithdrawalOrder

/-- In every run a withdrawal is refused for the first of its checks that fails, and the store stays
as it was; if none fails, the message is paid out, and nothing else happens. -/
theorem Run.withdrawal_decided [AddressRules] (h : Run g log s) (env : Env) (sender : Address)
    (m : Message) (path : MerklePath) (height : UInt64) :
    let ended := ((Request.command sender (.withdraw m path height)).run env).transact s
    ∃ settings, s.settings = some settings ∧
      DecidedBy (s.withdrawalChecks settings env.now m path height)
        (fun why => ended = (.error (.rejected why), s))
        (∃ receipt t, ended = (.ok receipt, t) ∧
          ∃ b amount, s.Pays m b amount ∧ s.PaidOut env.now m b amount receipt t) := by
  intro ended
  have hboth := h.boundBothWays
  have hcomplete := h.complete
  obtain ⟨settings, hsettings⟩ := hcomplete.settings
  have hended : ended = Call.proceed s (WithdrawalOrder.approve env.now m path height s)
      fun order => (.ok (order.receipt m.leaf height), order.recorded s) :=
    WithdrawalOrder.transact_eq env sender m path height s
  refine ⟨settings, hsettings, (WithdrawalOrder.approve_decided hcomplete.pauses hsettings hboth
    hcomplete.quotas).mono ?_ ?_⟩
  · intro why hrefused
    rw [hended, hrefused, Call.proceed_error]
  · rintro ⟨order, happroved⟩
    refine ⟨order.receipt m.leaf height, order.recorded s, ?_, ?_⟩
    · rw [hended, happroved, Call.proceed_ok]
    · exact WithdrawalOrder.paidOut_of_approve hboth happroved

namespace Sample

/-- The log of the short run before its withdrawal and the store then. -/
def unpaid : List Entry × Store :=
  ((found genesis).transact .empty).2.play (preparations.map (env, ·))

theorem run_unpaid : Run genesis unpaid.1 unpaid.2 := run_of_later preparations (by decide)

/-- The short run withdraws at a height that is not committed. -/
def premature : Request := .command "bob" (.withdraw message ⟨0, 1, []⟩ 2)

end Sample

/-- In the short run the message is paid out at its own height. At the next one it is refused, since
nothing is final there. -/
theorem Run.withdrawal_decided_sample :
    Run Sample.genesis Sample.unpaid.1 Sample.unpaid.2 ∧
      (∃ receipt t,
        (Sample.withdrawal.run Sample.env).transact Sample.unpaid.2 = (.ok receipt, t) ∧
          ∃ b amount, Sample.unpaid.2.Pays Sample.message b amount ∧
            Sample.unpaid.2.PaidOut Sample.env.now Sample.message b amount receipt t) ∧
      (Sample.premature.run Sample.env).transact Sample.unpaid.2 =
        (.error (.rejected (.notFinalized 2)), Sample.unpaid.2) := by
  obtain ⟨hok, hactive, hmissing⟩ :
      ((Sample.withdrawal.run Sample.env).transact Sample.unpaid.2).1.isOk = true ∧
        Sample.unpaid.2.pauses = some .none ∧
        Sample.unpaid.2.commitments[(2 : UInt64)]? = none := by
    decide +kernel
  refine ⟨Sample.run_unpaid, ?_, ?_⟩
  · obtain ⟨_, _, hdecided⟩ := withdrawal_decided Sample.run_unpaid Sample.env "bob"
      Sample.message ⟨0, 1, []⟩ 1
    rcases hdecided.refused_or_done with ⟨why, hrefused⟩ | hdone
    · change (Sample.withdrawal.run Sample.env).transact Sample.unpaid.2 = _ at hrefused
      rw [hrefused] at hok
      cases hok
    · exact hdone
  · obtain ⟨settings, _, hdecided⟩ := withdrawal_decided Sample.run_unpaid Sample.env "bob"
      Sample.message ⟨0, 1, []⟩ 2
    obtain ⟨why, rfl, hrefused⟩ := hdecided.first [Sample.unpaid.2.activeCheck .withdrawals] _ _ rfl
      (List.forall_mem_singleton.mpr ⟨_, hactive, rfl⟩) (by
        rintro ⟨c, hc, _⟩
        rw [hmissing] at hc
        cases hc)
    exact hrefused

end TokenBridge
