/-!
# Binary trees over a list

The nodes of a level are combined in adjacent pairs; a last node without a partner moves up as it
is. The levels end with the first one that holds a single node, the root. The siblings of a position
are the nodes that its ancestors are combined with, from the bottom level up; a node that moves up
has none.
-/

namespace TokenBridge.Merkle

variable {α : Type}

/-- The level above: adjacent nodes combined, a last single one kept. -/
def pairUp (combine : α → α → α) : List α → List α
  | a :: b :: rest => combine a b :: pairUp combine rest
  | rest => rest

theorem length_pairUp (combine : α → α → α) (level : List α) :
    (pairUp combine level).length = (level.length + 1) / 2 := by
  fun_induction pairUp combine level with
  | case1 a b rest ih => simp only [List.length_cons, ih]; omega
  | case2 rest h =>
    rcases rest with _ | ⟨a, _ | ⟨b, rest⟩⟩
    · simp
    · simp
    · exact absurd rfl (h a b rest)

/-- A node of the level above is combined from the two below it, or is the single one kept. -/
theorem getElem?_pairUp (combine : α → α → α) (level : List α) (i : Nat) :
    (pairUp combine level)[i]? =
      (level[2 * i]?).map fun a => (level[2 * i + 1]?).elim a (combine a) := by
  induction level using pairUp.induct generalizing i with
  | case1 a b rest ih =>
    cases i with
    | zero => rfl
    | succ i => simpa [pairUp, Nat.mul_succ] using ih i
  | case2 rest h =>
    rcases rest with _ | ⟨a, _ | ⟨b, rest⟩⟩
    · simp [pairUp]
    · cases i with
      | zero => rfl
      | succ i => simp [pairUp, Nat.mul_succ]
    · exact absurd rfl (h a b rest)

/-- All levels from the bottom one up to the first with at most one node. -/
def levels (combine : α → α → α) (bottom : List α) : List (List α) :=
  if bottom.length ≤ 1 then [bottom] else bottom :: levels combine (pairUp combine bottom)
termination_by bottom.length
decreasing_by rw [length_pairUp]; omega

/-- The single node of the last level; an empty bottom level has none. -/
def root? (combine : α → α → α) (bottom : List α) : Option α :=
  (levels combine bottom).getLast?.bind List.head?

/-- The position that is combined with the given one. -/
def partner (i : Nat) : Nat := if i % 2 = 0 then i + 1 else i - 1

/-- A node at a position and the one that it is combined with, the left one first. -/
def inPlace (i : Nat) (node sibling : α) : α × α :=
  if i % 2 = 0 then (node, sibling) else (sibling, node)

theorem inPlace_inj {i : Nat} {a b c d : α} (h : inPlace i a b = inPlace i c d) :
    a = c ∧ b = d := by
  unfold inPlace at h
  split at h
  · exact Prod.mk.inj h
  · exact (Prod.mk.inj h).symm

/-- The partner at each level but the last, where there is one. -/
def siblings : List (List α) → Nat → List α
  | level :: above :: rest, i => level[partner i]?.toList ++ siblings (above :: rest) (i / 2)
  | _, _ => []

section

variable {combine : α → α → α} {bottom level : List α} {i : Nat} {node : α}

theorem levels_of_le (h : bottom.length ≤ 1) : levels combine bottom = [bottom] := by
  rw [levels, if_pos h]

theorem levels_of_lt (h : 1 < bottom.length) :
    levels combine bottom = bottom :: levels combine (pairUp combine bottom) := by
  rw [levels, if_neg (Nat.not_le.mpr h)]

/-- The levels start with the bottom one. -/
theorem exists_levels_eq_cons (combine : α → α → α) (bottom : List α) :
    ∃ above, levels combine bottom = bottom :: above := by
  by_cases h : bottom.length ≤ 1
  · exact ⟨[], levels_of_le h⟩
  · exact ⟨_, levels_of_lt (Nat.lt_of_not_le h)⟩

theorem root?_of_le (h : bottom.length ≤ 1) : root? combine bottom = bottom.head? := by
  rw [root?, levels_of_le h]
  rfl

/-- A level and the one above it have the same root. -/
theorem root?_of_lt (h : 1 < bottom.length) :
    root? combine bottom = root? combine (pairUp combine bottom) := by
  obtain ⟨above, hlevels⟩ := exists_levels_eq_cons combine (pairUp combine bottom)
  rw [root?, root?, levels_of_lt h, hlevels, List.getLast?_cons_cons]

/-- A tree over at least one node has a root. -/
theorem exists_root? (combine : α → α → α) (h : bottom ≠ []) :
    ∃ root, root? combine bottom = some root := by
  induction bottom using levels.induct combine with
  | case1 bottom hsingle =>
    rw [root?_of_le hsingle]
    exact ⟨bottom.head h, List.head?_eq_some_head h⟩
  | case2 bottom hmany ih =>
    have hlength := length_pairUp combine bottom
    have hnext : pairUp combine bottom ≠ [] := by
      rw [← List.length_pos_iff, hlength]
      omega
    rw [root?_of_lt (Nat.lt_of_not_le hmany)]
    exact ih hnext

theorem siblings_of_le (h : bottom.length ≤ 1) (i : Nat) :
    siblings (levels combine bottom) i = [] := by
  rw [levels_of_le h]
  rfl

/-- After its partner, a node has the siblings of its parent. -/
theorem siblings_of_lt (h : 1 < bottom.length) (i : Nat) :
    siblings (levels combine bottom) i =
      bottom[partner i]?.toList ++ siblings (levels combine (pairUp combine bottom)) (i / 2) := by
  obtain ⟨above, hlevels⟩ := exists_levels_eq_cons combine (pairUp combine bottom)
  rw [levels_of_lt h, hlevels, siblings]

/-- Where there is only one node, it is at position zero. -/
theorem eq_singleton_of_getElem? (hlength : level.length ≤ 1) (h : level[i]? = some node) :
    i = 0 ∧ level = [node] := by
  rcases level with _ | ⟨a, _ | ⟨b, rest⟩⟩
  · simp at h
  · cases i with
    | zero => exact ⟨rfl, by simpa using h⟩
    | succ i => simp at h
  · simp at hlength

/-- Only the last node of an odd level has no partner. -/
theorem getElem?_partner_eq_none_iff (h : i < level.length) :
    level[partner i]? = none ↔ i = level.length - 1 ∧ level.length % 2 = 1 := by
  rw [List.getElem?_eq_none_iff, partner]
  split <;> omega

/-- The parent of a node: combined with its partner, or moved up without one. -/
theorem getElem?_pairUp_half (combine : α → α → α) (h : level[i]? = some node) :
    (pairUp combine level)[i / 2]? = some ((level[partner i]?).elim node fun sibling =>
      combine (inPlace i node sibling).1 (inPlace i node sibling).2) := by
  rw [getElem?_pairUp, partner]
  by_cases heven : i % 2 = 0
  · have hleft : 2 * (i / 2) = i := by omega
    rw [if_pos heven, hleft, h]
    simp [inPlace, heven]
  · have hright : 2 * (i / 2) + 1 = i := by omega
    have hleft : 2 * (i / 2) = i - 1 := by omega
    obtain ⟨hlt, _⟩ := List.getElem?_eq_some_iff.mp h
    have hpartner : level[i - 1]? = some level[i - 1] := List.getElem?_eq_getElem (by omega)
    rw [if_neg heven, hright, hleft, hpartner, h]
    simp [inPlace, heven]

end

end TokenBridge.Merkle
