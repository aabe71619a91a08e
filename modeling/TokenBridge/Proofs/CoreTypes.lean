import Std.Data.ExtTreeMap
import Std.Data.ExtTreeSet

/-!
# Results, words and tables

Facts about types of the library, whatever they stand for: when a result that may be an error is a
given one, how words and characters are counted, and when the order of insertions into a table or a
set does not matter.
-/

namespace Except

variable {α β ε ε' : Type}

theorem pure_eq_ok_iff {a b : α} : (pure a : Except ε α) = .ok b ↔ a = b := by
  simp [pure, Except.pure]

/-- A test followed by another succeeds if both do. -/
theorem bind_eq_ok_iff {first : Except ε α} {next : α → Except ε β} {b : β} :
    first >>= next = .ok b ↔ ∃ a, first = .ok a ∧ next a = .ok b := by
  cases first with
  | error e => simp [bind, Except.bind]
  | ok a => simp [bind, Except.bind]

/-- A test followed by another faults if the first one does, or the second after it. -/
theorem bind_eq_error_iff {first : Except ε α} {next : α → Except ε β} {e : ε} :
    first >>= next = .error e ↔ first = .error e ∨ ∃ a, first = .ok a ∧ next a = .error e := by
  cases first with
  | error e' => simp [bind, Except.bind]
  | ok a => simp [bind, Except.bind]

/-- Renaming an error does not change the result. -/
theorem mapError_eq_ok_iff {rename : ε → ε'} {result : Except ε α} {a : α} :
    result.mapError rename = .ok a ↔ result = .ok a := by
  cases result with
  | error e => exact ⟨nofun, nofun⟩
  | ok b => exact ⟨fun h => congrArg _ (Except.ok.inj h), fun h => congrArg _ (Except.ok.inj h)⟩

theorem mapError_eq_error_iff {rename : ε → ε'} {result : Except ε α} {e : ε'} :
    result.mapError rename = .error e ↔ ∃ cause, result = .error cause ∧ rename cause = e := by
  cases result with
  | error cause =>
    constructor
    · intro h
      exact ⟨cause, rfl, Except.error.inj h⟩
    · rintro ⟨_, hcause, rfl⟩
      rw [Except.error.inj hcause]
      rfl
  | ok a => exact ⟨nofun, nofun⟩

end Except

theorem UInt64.toNat_pos_of_ne_zero {w : UInt64} (h : w ≠ 0) : 0 < w.toNat :=
  UInt64.lt_iff_toNat_lt.mp (UInt64.pos_iff_ne_zero.mpr h)

/-- The letters of the upper case are those with the codes from 65 to 90. -/
theorem Char.toNat_toLower (c : Char) :
    c.toLower.toNat = if 65 ≤ c.toNat ∧ c.toNat ≤ 90 then c.toNat + 32 else c.toNat := by
  unfold Char.toLower
  split
  · next h =>
    have hge : 65 ≤ c.val.toNat := h.1
    have hle : c.val.toNat ≤ 90 := h.2
    rw [if_pos ⟨hge, hle⟩]
    change (c.val + 32).toNat = c.val.toNat + 32
    rw [UInt32.toNat_add]
    exact Nat.mod_eq_of_lt (Nat.lt_of_le_of_lt (Nat.add_le_add_right hle 32) (by decide))
  · next h => rw [if_neg fun hupper => h ⟨hupper.1, hupper.2⟩]

namespace Std

variable {κ ν : Type} [Ord κ] [TransOrd κ] [LawfulEqOrd κ] {key key' : κ}

/-- Under different keys the order of insertions does not matter. -/
theorem ExtTreeMap.insert_comm (table : ExtTreeMap κ ν) (h : key ≠ key') (value value' : ν) :
    (table.insert key value).insert key' value' = (table.insert key' value').insert key value := by
  apply ext_getElem?
  intro k
  simp only [getElem?_insert, compare_eq_iff_eq]
  by_cases hk : key = k
  · subst hk
    simp [Ne.symm h]
  · simp [hk]

/-- Under the same key the last insertion counts. -/
theorem ExtTreeMap.insert_insert (table : ExtTreeMap κ ν) (key : κ) (value value' : ν) :
    (table.insert key value).insert key value' = table.insert key value' := by
  apply ext_getElem?
  intro k
  simp only [getElem?_insert]
  by_cases hk : compare key k = .eq
  · simp [hk]
  · simp [hk]

theorem ExtTreeSet.insert_comm (set : ExtTreeSet κ) (key key' : κ) :
    (set.insert key).insert key' = (set.insert key').insert key := by
  apply ext_mem
  intro k
  simp only [mem_insert]
  exact or_left_comm

end Std
