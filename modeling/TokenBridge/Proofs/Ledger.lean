import Mathlib.Algebra.Ring.Nat
import TokenBridge.Proofs.Run

/-!
# What a bridge holds

Tokens come in by orders to take them from an owner and by notices of tokens that were already
moved; they go out by orders to pay. What is locked of a token is at all times what came in less
what went out, so no more of a token is ever paid than was deposited of it.
-/

namespace TokenBridge

namespace TokenCall

/-- What an order to a token takes from an owner. -/
def taken (token : Address) : TokenCall → Nat
  | ⟨addressee, .take _ _ amount⟩ => if addressee = token then amount.toNat else 0
  | ⟨_, .pay _ _⟩ => 0

/-- What an order to a token pays out. -/
def paid (token : Address) : TokenCall → Nat
  | ⟨addressee, .pay _ amount⟩ => if addressee = token then amount.toNat else 0
  | ⟨_, .take _ _ _⟩ => 0

end TokenCall

namespace Entry

/-- The orders to tokens that a request gave; one that faults gives none. -/
def calls (e : Entry) : List TokenCall :=
  match e.result with
  | .ok receipt => receipt.calls
  | .error _ => []

/-- What was taken of a token at the order of a request. -/
def taken (token : Address) (e : Entry) : Nat := (e.calls.map (·.taken token)).sum

/-- What was paid of a token at the order of a request. -/
def paid (token : Address) (e : Entry) : Nat := (e.calls.map (·.paid token)).sum

/-- What a token had moved here before it gave a notice that was accepted. -/
def received (token : Address) (e : Entry) : Nat :=
  match e.request, e.result with
  | .command sender (.receive _ amount _), .ok _ => if sender = token then amount.toNat else 0
  | _, _ => 0

end Entry

/-- A deposit adds its amount to what is locked of its token, and gives its orders. -/
theorem DepositOrder.lockedOf_of_record {order : DepositOrder} {sender : Address}
    {calls : List TokenCall} {receipt : Receipt} {s t : Store}
    (h : (order.record sender calls).Yields s receipt t) (token : Address) :
    receipt.calls = calls ∧ (t.lockedOf token).toNat =
      (s.lockedOf token).toNat + if order.binding.token = token then order.amount.toNat else 0 := by
  obtain ⟨_, _, locked, next, _, _, hlocked, _, rfl, rfl⟩ := DepositOrder.yields_record_iff.mp h
  have hafter : (order.recorded locked next s).lockedOf token =
      if order.binding.token = token then locked else s.lockedOf token :=
    Store.lockedOf_insert order.binding.token token locked s
  refine ⟨rfl, ?_⟩
  rw [hafter]
  by_cases htoken : order.binding.token = token
  · rw [if_pos htoken, if_pos htoken, hlocked, htoken]
  · rw [if_neg htoken, if_neg htoken, Nat.add_zero]

/-- A withdrawal pays from what is locked of its token. -/
theorem WithdrawalOrder.lockedOf_recorded {order : WithdrawalOrder} {s : Store}
    (hheld : order.amount ≤ s.lockedOf order.token) (token : Address) :
    ((order.recorded s).lockedOf token).toNat +
      (if order.token = token then order.amount.toNat else 0) = (s.lockedOf token).toNat := by
  have hafter : (order.recorded s).lockedOf token =
      if order.token = token then (s.lockedOf order.token).truncSub order.amount
      else s.lockedOf token :=
    Store.lockedOf_insert order.token token _ s
  rw [hafter]
  by_cases htoken : order.token = token
  · have hle := Amount.le_def.mp hheld
    rw [if_pos htoken, if_pos htoken, Amount.toNat_truncSub, ← htoken]
    omega
  · rw [if_neg htoken, if_neg htoken, Nat.add_zero]

/-- A step changes what is locked of a token by what it moves of that token. -/
theorem Step.balance [AddressRules] {env : Env} {s t : Store} {request : Request}
    {receipt : Receipt} (hstep : Step env s request receipt t)
    (hbound : s.BoundByName) (token : Address) :
    let e : Entry := ⟨env, request, .ok receipt, t⟩
    (t.lockedOf token).toNat + e.paid token =
      (s.lockedOf token).toNat + e.taken token + e.received token := by
  cases hstep with
  | deposit _ hcheck _ hrecord =>
    obtain ⟨_, _, hbinding, _, _, rfl, _⟩ := DepositOrder.check_eq_ok_iff.mp hcheck
    obtain ⟨hcalls, hlocked⟩ := DepositOrder.lockedOf_of_record hrecord token
    rw [hbound hbinding] at hlocked
    simp [Entry.paid, Entry.taken, Entry.received, Entry.calls, hcalls, TokenCall.paid,
      TokenCall.taken, hlocked]
  | receive _ _ hcheck hrecord =>
    obtain ⟨_, _, hbinding, _, _, rfl, _⟩ := DepositOrder.check_eq_ok_iff.mp hcheck
    obtain ⟨hcalls, hlocked⟩ := DepositOrder.lockedOf_of_record hrecord token
    rw [hbound hbinding] at hlocked
    simp [Entry.paid, Entry.taken, Entry.received, Entry.calls, hcalls, hlocked]
  | withdraw _ _ hrelease =>
    obtain ⟨_, _, _, _, _, _, _, _, hheld, htoken, _⟩ :=
      WithdrawalOrder.checkRelease_eq_ok_iff.mp hrelease
    rw [← htoken] at hheld
    have hlocked := WithdrawalOrder.lockedOf_recorded hheld token
    simpa [Entry.paid, Entry.taken, Entry.received, Entry.calls, WithdrawalOrder.receipt,
      TokenCall.paid, TokenCall.taken] using hlocked
  | commit _ _ _ _ hcalls | grantRole _ _ hcalls | revokeRole _ _ hcalls | pause _ _ hcalls
  | unpause _ _ hcalls | bindAsset _ _ _ hcalls | setTerms _ _ hcalls
  | setFinalityDelay _ _ hcalls | setScheme _ _ hcalls | upgrade hcalls =>
    simp only [Entry.paid, Entry.taken, Entry.received, Entry.calls, hcalls]
    rfl

/-- What was ever taken of a token. -/
def takenTotal (token : Address) (log : List Entry) : Nat := (log.map (·.taken token)).sum

/-- What was ever paid of a token. -/
def paidTotal (token : Address) (log : List Entry) : Nat := (log.map (·.paid token)).sum

/-- What was ever received of a token that had moved it itself. -/
def receivedTotal (token : Address) (log : List Entry) : Nat := (log.map (·.received token)).sum

/-- In every run, what is locked of a token and what was paid of it make up what was taken and
received of it; so what was paid never exceeds what came in. -/
theorem Run.locked_add_paidTotal [AddressRules] {g : Genesis} {log : List Entry} {s : Store}
    (h : Run g log s) (token : Address) :
    (s.lockedOf token).toNat + paidTotal token log =
        takenTotal token log + receivedTotal token log ∧
      paidTotal token log ≤ takenTotal token log + receivedTotal token log := by
  have hbalance : (s.lockedOf token).toNat + paidTotal token log =
      takenTotal token log + receivedTotal token log := by
    induction h using Run.rec_step with
    | found _ hfound =>
      obtain ⟨_, _, _, rfl⟩ := yields_found hfound
      rfl
    | fault env request reason _ _ ih =>
      simpa [paidTotal, takenTotal, receivedTotal, Entry.paid, Entry.taken, Entry.received,
        Entry.calls] using ih
    | step hrun _ hstep ih =>
      have hmoved := hstep.balance hrun.boundByName token
      simp only [paidTotal, takenTotal, receivedTotal, List.map_append, List.map_cons,
        List.map_nil, List.sum_append, List.sum_cons, List.sum_nil] at ih ⊢
      omega
  exact ⟨hbalance, by omega⟩

/-- In the short run, thirty of the hundred and twenty that came in were paid. -/
theorem Run.locked_add_paidTotal_sample :
    Run Sample.genesis Sample.played.1 Sample.played.2 ∧
      takenTotal "cash" Sample.played.1 = 100 ∧
      receivedTotal "cash" Sample.played.1 = 20 ∧
      paidTotal "cash" Sample.played.1 = 30 ∧
      (Sample.played.2.lockedOf "cash").toNat + paidTotal "cash" Sample.played.1 =
        takenTotal "cash" Sample.played.1 + receivedTotal "cash" Sample.played.1 := by
  have hmoved : takenTotal "cash" Sample.played.1 = 100 ∧
      receivedTotal "cash" Sample.played.1 = 20 ∧
      paidTotal "cash" Sample.played.1 = 30 := by
    decide +kernel
  obtain ⟨htaken, hreceived, hpaid⟩ := hmoved
  exact ⟨Sample.run, htaken, hreceived, hpaid, (Run.locked_add_paidTotal Sample.run "cash").1⟩

end TokenBridge
