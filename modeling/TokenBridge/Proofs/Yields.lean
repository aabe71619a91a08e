import TokenBridge.Proofs.CoreTypes
import TokenBridge.Store.Quotas

/-!
# Calls that succeed

A call yields a result and a store from another store. A successful call is taken apart from its
front: a look at the store passes the same store on, a write passes the changed one on. What a
fault leaves behind is of no interest here, since a request that faults is taken back.
-/

namespace TokenBridge

/-- A demand is met exactly under its condition. -/
theorem demand_eq_ok_iff {condition : Prop} [Decidable condition] {otherwise : Rejection}
    {u : Unit} : demand condition otherwise = .ok u ↔ condition := by
  simp [demand]

theorem orAbort_eq_ok_iff {value : Option α} {a : α} : orAbort value = .ok a ↔ value = some a := by
  cases value with
  | none => simp [orAbort]
  | some b => simp [orAbort]

/-- An item is present if it was written. -/
theorem Store.present_eq_ok_iff {item : StoredItem} {value : Option α} {a : α} :
    Store.present item value = .ok a ↔ value = some a := by
  cases value with
  | none => simp [Store.present]
  | some b => simp [Store.present]

namespace Call

variable {s t : Store}

/-- The call succeeds on the first store with a result, and leaves the second store. -/
def Yields (call : Call α) (s : Store) (a : α) (t : Store) : Prop := call.outcome s = (.ok a, t)

theorem yields_pure_iff {a b : α} : (pure a : Call α).Yields s b t ↔ a = b ∧ s = t := by
  simp [Yields]

theorem yields_check_iff {test : Store → Except Fault α} {a : α} :
    (check test).Yields s a t ↔ test s = .ok a ∧ s = t := by
  simp [Yields]

theorem yields_read_iff {look : Store → α} {a : α} :
    (read look).Yields s a t ↔ look s = a ∧ s = t := by
  simp [Yields]

theorem yields_write_iff {change : Store → Store} {u : Unit} :
    (write change).Yields s u t ↔ change s = t := by
  simp [Yields]

/-- Two calls in a row succeed through the store that the first one leaves. -/
theorem yields_bind_iff {first : Call α} {next : α → Call β} {b : β} :
    (first >>= next).Yields s b t ↔ ∃ a m, first.Yields s a m ∧ (next a).Yields m b t := by
  unfold Yields
  rw [outcome_bind]
  rcases h : first.outcome s with ⟨result, m⟩
  cases result with
  | error fault => simp
  | ok a =>
    constructor
    · intro hnext
      exact ⟨a, m, rfl, hnext⟩
    · rintro ⟨a', m', hfirst, hnext⟩
      obtain ⟨ha, rfl⟩ := Prod.mk.inj hfirst
      obtain rfl := Except.ok.inj ha
      exact hnext

/-- A test in front leaves the store as it is. -/
theorem yields_check_bind_iff {test : Store → Except Fault α} {next : α → Call β} {b : β} :
    (check test >>= next).Yields s b t ↔ ∃ a, test s = .ok a ∧ (next a).Yields s b t := by
  simp only [yields_bind_iff, yields_check_iff]
  exact ⟨fun ⟨a, _, ⟨ha, hs⟩, hnext⟩ => ⟨a, ha, hs ▸ hnext⟩,
    fun ⟨a, ha, hnext⟩ => ⟨a, s, ⟨ha, rfl⟩, hnext⟩⟩

theorem yields_lift_bind_iff {result : Except Fault α} {next : α → Call β} {b : β} :
    (lift result >>= next).Yields s b t ↔ ∃ a, result = .ok a ∧ (next a).Yields s b t :=
  yields_check_bind_iff

theorem yields_read_bind_iff {look : Store → α} {next : α → Call β} {b : β} :
    (read look >>= next).Yields s b t ↔ (next (look s)).Yields s b t := by
  simp only [yields_bind_iff, yields_read_iff]
  exact ⟨fun ⟨_, _, ⟨ha, hs⟩, hnext⟩ => ha ▸ hs ▸ hnext,
    fun hnext => ⟨look s, s, ⟨rfl, rfl⟩, hnext⟩⟩

/-- A write in front hands the changed store on. -/
theorem yields_write_bind_iff {change : Store → Store} {next : Unit → Call β} {b : β} :
    (write change >>= next).Yields s b t ↔ (next ()).Yields (change s) b t := by
  simp only [yields_bind_iff, yields_write_iff]
  exact ⟨fun ⟨_, _, hs, hnext⟩ => hs ▸ hnext, fun hnext => ⟨(), change s, rfl, hnext⟩⟩

/-- A request that is carried out whole or not at all succeeds as its call does. -/
theorem transact_eq_ok_iff {call : Call α} {a : α} :
    call.transact s = (.ok a, t) ↔ call.Yields s a t := by
  unfold transact Yields
  rcases call.outcome s with ⟨result, m⟩
  cases result with
  | error fault => simp
  | ok b => simp

/-- A request that faults changes nothing. -/
theorem store_of_transact_error {call : Call α} {fault : Fault}
    (h : call.transact s = (.error fault, t)) : t = s := by
  unfold transact at h
  split at h
  · simp at h
  · exact (Prod.mk.inj h).2.symm

end Call

namespace Store

/-- The store with the quota after a movement, if the flow is capped. -/
def withQuota (flow : Flow) (token : Address) (after : Option Quota) (s : Store) : Store :=
  { s with quotas := after.elim s.quotas (s.quotas.insert ⟨flow, token⟩) }

/-- A movement touches the quota of its own flow and token alone. -/
theorem quota?_withQuota (flow other : Flow) (token account : Address) (after : Option Quota)
    (s : Store) :
    (s.withQuota flow token after).quota? other account =
      if flow = other ∧ token = account then after.or (s.quota? other account)
      else s.quota? other account := by
  cases after with
  | none => simp [withQuota, quota?]
  | some q =>
    simp only [quota?, withQuota, Option.elim_some, Std.ExtTreeMap.getElem?_insert,
      Std.compare_eq_iff_eq, QuotaKey.mk.injEq, Option.some_or]

/-- What is locked of a token after its amount was written. -/
theorem lockedOf_insert (token account : Address) (amount : Amount) (s : Store) :
    ({ s with locked := s.locked.insert token amount } : Store).lockedOf account =
      if token = account then amount else s.lockedOf account := by
  simp only [lockedOf, Std.ExtTreeMap.getD_insert, Std.compare_eq_iff_eq]

end Store

/-- Storing the quota after a movement always succeeds. -/
theorem Call.yields_putReserved_iff {flow : Flow} {token : Address} {after : Option Quota}
    {s t : Store} {u : Unit} :
    (Call.putReserved flow token after).Yields s u t ↔ s.withQuota flow token after = t := by
  cases after with
  | none => exact Call.yields_pure_iff.trans (and_iff_right rfl)
  | some q => exact Call.yields_write_iff

theorem Call.yields_putReserved_bind_iff {flow : Flow} {token : Address} {after : Option Quota}
    {next : Unit → Call β} {s t : Store} {b : β} :
    (Call.putReserved flow token after >>= next).Yields s b t ↔
      (next ()).Yields (s.withQuota flow token after) b t := by
  simp only [Call.yields_bind_iff, Call.yields_putReserved_iff]
  exact ⟨fun ⟨_, _, hs, hnext⟩ => hs ▸ hnext, fun hnext => ⟨(), _, rfl, hnext⟩⟩

end TokenBridge
