import Mathlib.Algebra.Order.Ring.Int
import TokenBridge.Proofs.Announcement
import TokenBridge.Proofs.BindingIndex
import TokenBridge.Proofs.Ledger
import TokenBridge.Proofs.Scaling

/-!
# Backing the assets of the other chain

What a deposit announces is worth what it locks, and what a withdrawal releases is worth the message
that it redeems, whatever decimals the two are counted with. So as long as a token is bound in one
way, what is locked of it is worth what has been announced of its asset less what was redeemed.
-/

namespace TokenBridge

variable {g : Genesis} {log : List Entry} {env : Env} {s t : Store} {request : Request}
  {receipt : Receipt} {token : Address} {amount : Amount} {b : Binding}

namespace Entry

/-- What a request moved of a token in a flow. -/
def moved (flow : Flow) (token : Address) (e : Entry) : Nat :=
  (e.moved? flow token).elim 0 Amount.toNat

/-- The amounts of the messages that a deposit of a token announced. -/
def issued (token : Address) (e : Entry) : Nat :=
  if (e.moved? .deposit token).isSome then (e.announced.map (·.amount.toNat)).sum else 0

/-- The amount of the message that a withdrawal redeemed when it released a token. -/
def retired (token : Address) (e : Entry) : Nat :=
  match e.request with
  | .command _ (.withdraw m _ _) =>
    if (e.moved? .withdrawal token).isSome then m.amount.toNat else 0
  | _ => 0

/-- Nothing is announced for a token of which nothing was deposited. -/
theorem issued_eq_zero {e : Entry} (h : e.moved? .deposit token = none) : e.issued token = 0 := by
  rw [issued, h]
  rfl

/-- No message is redeemed for a token of which nothing was released. -/
theorem retired_eq_zero {e : Entry} (h : e.moved? .withdrawal token = none) :
    e.retired token = 0 := by
  unfold retired
  rw [h]
  split
  · rfl
  · rfl

end Entry

/-- A withdrawal of a message releases the amount of a token that the message stands for. -/
structure Released (s : Store) (token : Address) (amount : Amount) (receipt : Receipt)
    (m : Message) : Prop where
  bound : ∃ b, s.bindings[token]? = some b ∧ b.toToken m.amount = .ok amount ∧
    b.asset.bytes = m.data
  calls_eq : ∃ recipient, receipt.calls = [⟨token, .pay recipient amount⟩]

/-- A withdrawal that was checked releases a token that is bound to the asset of the message. -/
theorem WithdrawalOrder.released [AddressRules] {order : WithdrawalOrder} {now : Timestamp}
    {m : Message} (hways : s.BoundBothWays) (hrelease : checkRelease now m s = .ok order)
    (height : UInt64) :
    Released s order.token order.amount (order.receipt m.leaf height) m := by
  obtain ⟨asset, b, hasset, hbinding, _, hscaled, _, _, _, htoken, _⟩ :=
    checkRelease_eq_ok_iff.mp hrelease
  obtain ⟨hbound, rfl⟩ := hways.bindingOfAsset?_eq_some_iff.mp hbinding
  rw [htoken]
  refine ⟨⟨b, hbound, hscaled, Word256.ofBytes?_eq_some_iff.mp hasset⟩, order.recipient, ?_⟩
  rw [receipt, htoken]

namespace Step

variable [AddressRules]

/-- A step that moves a token out redeems a message. -/
theorem exists_released (hstep : Step env s request receipt t) (hways : s.BoundBothWays)
    (hmoved : Entry.moved? .withdrawal token ⟨env, request, .ok receipt, t⟩ = some amount) :
    ∃ sender m path height, request = .command sender (.withdraw m path height) ∧
      Released s token amount receipt m ∧ t.bindings = s.bindings := by
  cases hstep with
  | @withdraw sender m path height order _ _ hrelease =>
    have hreleased := order.released hways hrelease height
    have hpaid : order.token = token ∧ order.amount = amount := by
      simpa [Entry.moved?, WithdrawalOrder.receipt, TokenCall.payment?] using hmoved
    obtain ⟨rfl, rfl⟩ := hpaid
    exact ⟨sender, m, path, height, rfl, hreleased, rfl⟩
  | _ => cases hmoved

/-- What is locked of a token changes by what is moved of it. -/
theorem locked_add_moved (hstep : Step env s request receipt t) (hbound : s.BoundByName)
    (token : Address) :
    let e : Entry := ⟨env, request, .ok receipt, t⟩
    (t.lockedOf token).toNat + e.moved .withdrawal token =
      (s.lockedOf token).toNat + e.moved .deposit token := by
  cases hstep with
  | deposit _ hcheck _ hrecord | receive _ _ hcheck hrecord =>
    obtain ⟨_, _, hbinding, _, _, rfl, _⟩ := DepositOrder.check_eq_ok_iff.mp hcheck
    obtain ⟨_, hlocked⟩ := DepositOrder.lockedOf_of_record hrecord token
    rw [hbound hbinding] at hlocked
    rw [hlocked]
    simp [Entry.moved, Entry.moved?, apply_ite (Option.elim · 0 Amount.toNat)]
  | @withdraw _ _ _ _ order _ _ hrelease =>
    obtain ⟨_, _, _, _, _, _, _, _, hheld, htoken, _⟩ :=
      WithdrawalOrder.checkRelease_eq_ok_iff.mp hrelease
    rw [← htoken] at hheld
    rw [← WithdrawalOrder.lockedOf_recorded hheld token]
    simp [Entry.moved, Entry.moved?, WithdrawalOrder.receipt, TokenCall.payment?,
      apply_ite (Option.elim · 0 Amount.toNat)]
  | _ => rfl

/-- What a deposit of a token announces is worth what it moves. -/
theorem issued_mul_eq (hstep : Step env s request receipt t)
    (honly : ∀ b', t.bindings[b.token]? = some b' → b' = b) :
    let e : Entry := ⟨env, request, .ok receipt, t⟩
    e.issued b.token * Nat.pow 10 b.tokenDecimals.toNat =
      e.moved .deposit b.token * Nat.pow 10 b.assetDecimals.toNat := by
  intro e
  cases hmoved : e.moved? .deposit b.token with
  | none =>
    rw [Entry.issued_eq_zero hmoved, Entry.moved, hmoved, Option.elim_none, Nat.zero_mul,
      Nat.zero_mul]
  | some amount =>
    obtain ⟨m, htold, hbindings, _⟩ := hstep.exists_told hmoved
    obtain ⟨b', hbound, hscaled, _⟩ := htold.bound
    obtain rfl := honly b' (hbindings ▸ hbound)
    have hissued : e.issued b'.token = m.amount.toNat := by
      have hannounced : e.announced = [m] := htold.messages_eq
      simp [Entry.issued, hmoved, hannounced]
    have hdeposited : e.moved .deposit b'.token = amount.toNat := by
      rw [Entry.moved, hmoved, Option.elim_some]
    rw [hissued, hdeposited]
    exact (Binding.mul_pow_eq_of_toAsset hscaled).symm

/-- What a withdrawal that releases a token redeems is worth what it moves. -/
theorem retired_mul_eq (hstep : Step env s request receipt t) (hways : s.BoundBothWays)
    (honly : ∀ b', t.bindings[b.token]? = some b' → b' = b) :
    let e : Entry := ⟨env, request, .ok receipt, t⟩
    e.retired b.token * Nat.pow 10 b.tokenDecimals.toNat =
      e.moved .withdrawal b.token * Nat.pow 10 b.assetDecimals.toNat := by
  intro e
  cases hmoved : e.moved? .withdrawal b.token with
  | none =>
    rw [Entry.retired_eq_zero hmoved, Entry.moved, hmoved, Option.elim_none, Nat.zero_mul,
      Nat.zero_mul]
  | some amount =>
    obtain ⟨sender, m, path, height, rfl, hreleased, hbindings⟩ :=
      hstep.exists_released hways hmoved
    obtain ⟨b', hbound, hscaled, _⟩ := hreleased.bound
    obtain rfl := honly b' (hbindings ▸ hbound)
    have hretired : e.retired b'.token = m.amount.toNat := if_pos (hmoved ▸ rfl)
    have hpaid : e.moved .withdrawal b'.token = amount.toNat := by
      rw [Entry.moved, hmoved, Option.elim_some]
    rw [hretired, hpaid]
    exact (Binding.mul_pow_eq_of_toAsset (Binding.toToken_eq_ok_iff.mp hscaled)).symm

end Step

/-- No other binding of its token was stored at any time of a log. -/
def SoleBinding (b : Binding) (log : List Entry) : Prop :=
  ∀ e ∈ log, ∀ b', e.after.bindings[b.token]? = some b' → b' = b

/-- The amounts of all messages that deposits of a token announced. -/
def issuedTotal (token : Address) (log : List Entry) : Nat := (log.map (·.issued token)).sum

/-- The amounts of all messages whose withdrawals released a token. -/
def retiredTotal (token : Address) (log : List Entry) : Nat := (log.map (·.retired token)).sum

namespace Run

variable [AddressRules]

/-- While a token has one binding, what is locked of it and what was redeemed are worth what was
announced. -/
theorem locked_mul_add_retiredTotal (h : Run g log s) (hsole : SoleBinding b log) :
    (s.lockedOf b.token).toNat * Nat.pow 10 b.assetDecimals.toNat +
        retiredTotal b.token log * Nat.pow 10 b.tokenDecimals.toNat =
      issuedTotal b.token log * Nat.pow 10 b.tokenDecimals.toNat := by
  induction h using rec_step with
  | found _ hfound =>
    obtain ⟨_, _, _, rfl⟩ := yields_found hfound
    simp [Store.lockedOf, Store.empty, issuedTotal, retiredTotal, Amount.zero]
  | @fault log s env request reason _ _ ih =>
    have hsame := ih fun e he => hsole e (List.mem_append_left _ he)
    have hissued : Entry.issued b.token ⟨env, request, .error reason, s⟩ = 0 :=
      Entry.issued_eq_zero (Entry.moved?_error ..)
    have hretired : Entry.retired b.token ⟨env, request, .error reason, s⟩ = 0 :=
      Entry.retired_eq_zero (Entry.moved?_error ..)
    simpa [issuedTotal, retiredTotal, hissued, hretired] using hsame
  | @step log s env request receipt t hrun _ hstep ih =>
    have hbefore := ih fun e he => hsole e (List.mem_append_left _ he)
    have honly := hsole ⟨env, request, .ok receipt, t⟩ List.mem_concat_self
    have hlocked := hstep.locked_add_moved hrun.boundByName b.token
    have hissued := hstep.issued_mul_eq honly
    have hretired := hstep.retired_mul_eq hrun.boundBothWays honly
    have hvalue := congrArg (· * Nat.pow 10 b.assetDecimals.toNat) hlocked
    simp only [Nat.add_mul] at hvalue
    simp only [issuedTotal, retiredTotal, List.map_append, List.map_cons, List.map_nil,
      List.sum_append, List.sum_cons, List.sum_nil, Nat.add_zero, Nat.add_mul] at hbefore ⊢
    omega

/-- In every run in which a token has one binding, what is locked of the token is worth what was
announced of its asset less what was redeemed. -/
theorem backed (h : Run g log s) (hsole : SoleBinding b log) :
    ((s.lockedOf b.token).toNat : ℤ) * 10 ^ b.assetDecimals.toNat =
      ((issuedTotal b.token log : ℤ) - retiredTotal b.token log) * 10 ^ b.tokenDecimals.toNat := by
  have hvalue := h.locked_mul_add_retiredTotal hsole
  rw [sub_mul]
  exact eq_sub_of_add_eq (by exact_mod_cast hvalue)

end Run

/-! A run in which the asset is counted a hundred times as finely as the token. -/

namespace Sample

/-- A message of thirty units of the token. -/
def redemption : Message := { message with amount := ⟨3000, by decide⟩, nonce := 8 }

/-- Ninety of the token are deposited, and thirty come back. -/
def depositAndRedemption : List Request := [
  .command "root" (.bindAsset "cash" Word256.zero.bytes 6 8),
  .command "alice" (.deposit "cash" ⟨90, by decide⟩ Word256.zero.toHex),
  .command "root" (.commit 1 redemption.leaf.bytes 0),
  .command "bob" (.withdraw redemption ⟨0, 1, []⟩ 1)]

/-- The log of these calls and the store in the end. -/
def partlyPaid : List Entry × Store :=
  ((found genesis).transact .empty).2.play (depositAndRedemption.map (Sample.env, ·))

theorem run_partlyPaid : Run genesis partlyPaid.1 partlyPaid.2 :=
  run_of_later depositAndRedemption (by decide)

end Sample

/-- Of nine thousand units announced three thousand were redeemed; sixty of the token are left. -/
theorem Run.backed_sample :
    let cash : Binding := ⟨"cash", Word256.zero, 6, 8⟩
    Run Sample.genesis Sample.partlyPaid.1 Sample.partlyPaid.2 ∧
      SoleBinding cash Sample.partlyPaid.1 ∧
      issuedTotal "cash" Sample.partlyPaid.1 = 9000 ∧
      retiredTotal "cash" Sample.partlyPaid.1 = 3000 ∧
      ((Sample.partlyPaid.2.lockedOf "cash").toNat : ℤ) * 10 ^ 8 =
        ((issuedTotal "cash" Sample.partlyPaid.1 : ℤ) -
          retiredTotal "cash" Sample.partlyPaid.1) * 10 ^ 6 := by
  intro cash
  have hplayed : (∀ e ∈ Sample.partlyPaid.1, (e.after.bindings["cash"]?).all (· = cash) = true) ∧
      issuedTotal "cash" Sample.partlyPaid.1 = 9000 ∧
      retiredTotal "cash" Sample.partlyPaid.1 = 3000 := by
    decide +kernel
  obtain ⟨hall, hissued, hretired⟩ := hplayed
  have hsole : SoleBinding cash Sample.partlyPaid.1 := by
    intro e he b' hbound
    have hsame := hall e he
    rw [hbound] at hsame
    exact of_decide_eq_true hsame
  exact ⟨Sample.run_partlyPaid, hsole, hissued, hretired, Run.backed Sample.run_partlyPaid hsole⟩

end TokenBridge
