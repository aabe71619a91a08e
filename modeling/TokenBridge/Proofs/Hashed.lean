import TokenBridge.Merkle.Scheme

/-!
# What trees and paths hash

A tree hashes one string for each pair of nodes that it combines, and under `indexed` one more for
each leaf. A path hashes one string for each of its siblings. As long as no two of these strings
collide, a path that leads to a node of a tree can be followed down inside that tree.
-/

namespace TokenBridge

/-- Two different strings of the list have the same digest. -/
def Collision (strings : List Bytes) : Prop :=
  ∃ x ∈ strings, ∃ y ∈ strings, x ≠ y ∧ keccak256 x = keccak256 y

/-- Without a collision the strings are told apart by their digests. -/
theorem eq_of_not_collision {strings : List Bytes} (hfree : ¬Collision strings) {x y : Bytes}
    (hx : x ∈ strings) (hy : y ∈ strings) (h : keccak256 x = keccak256 y) : x = y := by
  by_cases heq : x = y
  · exact heq
  · exact absurd ⟨x, hx, y, hy, heq, h⟩ hfree

/-- Two strings with different digests do not collide. -/
theorem not_collision_of_two {strings : List Bytes} {x y : Bytes}
    (hdiffer : keccak256 x ≠ keccak256 y) (honly : ∀ z ∈ strings, z = x ∨ z = y) :
    ¬Collision strings := by
  rintro ⟨z, hz, z', hz', hne, h⟩
  rcases honly z hz with rfl | rfl
  · rcases honly z' hz' with rfl | rfl
    · exact hne rfl
    · exact hdiffer h
  · rcases honly z' hz' with rfl | rfl
    · exact hdiffer h.symm
    · exact hne rfl

namespace Merkle

section Tree

variable {α : Type} {combine : α → α → α} {level bottom : List α} {node : α} {p : α × α}

/-- The adjacent nodes of a level that are combined. -/
def pairs : List α → List (α × α)
  | a :: b :: rest => (a, b) :: pairs rest
  | _ => []

/-- The nodes of all levels of a tree. -/
def nodes (combine : α → α → α) (bottom : List α) : List α := (levels combine bottom).flatten

/-- The pairs of nodes combined in a tree. -/
def combined (combine : α → α → α) (bottom : List α) : List (α × α) :=
  (levels combine bottom).flatMap pairs

theorem nodes_of_le (h : bottom.length ≤ 1) : nodes combine bottom = bottom := by
  rw [nodes, levels_of_le h, List.flatten_singleton]

theorem nodes_of_lt (h : 1 < bottom.length) :
    nodes combine bottom = bottom ++ nodes combine (pairUp combine bottom) := by
  rw [nodes, levels_of_lt h, List.flatten_cons]
  rfl

theorem combined_of_lt (h : 1 < bottom.length) :
    combined combine bottom = pairs bottom ++ combined combine (pairUp combine bottom) := by
  rw [combined, levels_of_lt h, List.flatMap_cons]
  rfl

theorem mem_of_mem_pairs (h : p ∈ pairs level) : p.1 ∈ level ∧ p.2 ∈ level := by
  fun_induction pairs level with
  | case1 a b rest ih =>
    rcases List.mem_cons.mp h with rfl | hrest
    · exact ⟨by simp, by simp⟩
    · obtain ⟨hleft, hright⟩ := ih hrest
      exact ⟨by simp [hleft], by simp [hright]⟩
  | case2 => cases h

/-- A node of the next level has moved up, or is combined from two nodes. -/
theorem mem_or_eq_of_mem_pairUp (h : node ∈ pairUp combine level) :
    node ∈ level ∨ ∃ p ∈ pairs level, node = combine p.1 p.2 := by
  fun_induction pairUp combine level with
  | case1 a b rest ih =>
    rcases List.mem_cons.mp h with rfl | hrest
    · exact Or.inr ⟨(a, b), List.mem_cons_self, rfl⟩
    · rcases ih hrest with hkept | ⟨p, hp, rfl⟩
      · exact Or.inl (List.mem_cons_of_mem _ (List.mem_cons_of_mem _ hkept))
      · exact Or.inr ⟨p, List.mem_cons_of_mem _ hp, rfl⟩
  | case2 => exact Or.inl h

/-- A node of a tree is at the bottom, or is combined from two nodes. -/
theorem mem_or_eq_of_mem_nodes (h : node ∈ nodes combine bottom) :
    node ∈ bottom ∨ ∃ p ∈ combined combine bottom, node = combine p.1 p.2 := by
  induction bottom using levels.induct combine with
  | case1 bottom hsingle =>
    rw [nodes_of_le hsingle] at h
    exact Or.inl h
  | case2 bottom hmany ih =>
    have hlt := Nat.lt_of_not_le hmany
    rw [nodes_of_lt hlt, List.mem_append] at h
    rw [combined_of_lt hlt]
    rcases h with hbottom | habove
    · exact Or.inl hbottom
    · rcases ih habove with hnext | ⟨p, hp, heq⟩
      · rcases mem_or_eq_of_mem_pairUp hnext with hbottom | ⟨p, hp, heq⟩
        · exact Or.inl hbottom
        · exact Or.inr ⟨p, List.mem_append_left _ hp, heq⟩
      · exact Or.inr ⟨p, List.mem_append_right _ hp, heq⟩

/-- Combined nodes are nodes. -/
theorem mem_nodes_of_mem_combined (h : p ∈ combined combine bottom) :
    p.1 ∈ nodes combine bottom ∧ p.2 ∈ nodes combine bottom := by
  obtain ⟨level, hlevel, hp⟩ := List.mem_flatMap.mp h
  obtain ⟨hleft, hright⟩ := mem_of_mem_pairs hp
  exact ⟨List.mem_flatten_of_mem hlevel hleft, List.mem_flatten_of_mem hlevel hright⟩

/-- The root is a node. -/
theorem mem_nodes_of_root? (h : root? combine bottom = some node) :
    node ∈ nodes combine bottom := by
  obtain ⟨level, hlast, hhead⟩ := Option.bind_eq_some_iff.mp h
  exact List.mem_flatten_of_mem (List.mem_of_getLast? hlast) (List.mem_of_head? hhead)

end Tree

theorem leafInput_inj {a b : Word256} (h : leafInput a = leafInput b) : a = b :=
  Word256.ext (List.cons.inj h).2

/-- Two words in a row are told apart by their bytes. -/
theorem words_inj {a b c d : Word256} (h : a.bytes ++ b.bytes = c.bytes ++ d.bytes) :
    a = c ∧ b = d := by
  obtain ⟨hleft, hright⟩ := List.append_inj h (a.length_bytes.trans c.length_bytes.symm)
  exact ⟨Word256.ext hleft, Word256.ext hright⟩

theorem nodeInput_inj {a b c d : Word256} (h : nodeInput a b = nodeInput c d) :
    a = c ∧ b = d :=
  words_inj (List.cons.inj h).2

/-- A sorted pair is told apart from others up to its order. -/
theorem sortedPairInput_inj {a b c d : Word256} (h : sortedPairInput a b = sortedPairInput c d) :
    a = c ∧ b = d ∨ a = d ∧ b = c := by
  unfold sortedPairInput at h
  split at h
  · split at h
    · exact Or.inl (words_inj h)
    · exact Or.inr (words_inj h)
  · split at h
    · exact Or.inr (words_inj h).symm
    · exact Or.inl (words_inj h).symm

end Merkle

namespace Scheme

/-- What is hashed for the node above two nodes. -/
def pairInput : Scheme → Word256 → Word256 → Bytes
  | sortedPair => Merkle.sortedPairInput
  | indexed => Merkle.nodeInput

/-- What is hashed for the node at the bottom for a leaf. -/
def leafInputs : Scheme → Word256 → List Bytes
  | sortedPair, _ => []
  | indexed, leaf => [Merkle.leafInput leaf]

/-- What is hashed to build the tree over the leaves. -/
def treeStrings (s : Scheme) (leaves : List Word256) : List Bytes :=
  leaves.flatMap s.leafInputs ++
    (Merkle.combined s.combine (s.bottom leaves)).map fun p => s.pairInput p.1 p.2

/-- What is hashed when siblings are folded with sorted pairs. -/
def foldStrings : Word256 → List Word256 → List Bytes
  | _, [] => []
  | node, sibling :: rest =>
    Merkle.sortedPairInput node sibling :: foldStrings (Merkle.hashSortedPair node sibling) rest

/-- What is hashed on the way that `climb` takes. -/
def climbStrings (width index : Nat) (node : Word256) (siblings : List Word256) : List Bytes :=
  if width ≤ 1 then []
  else if index = width - 1 ∧ width % 2 = 1 then
    climbStrings ((width + 1) / 2) (index / 2) node siblings
  else match siblings with
    | [] => []
    | sibling :: rest =>
      (if index % 2 = 0 then Merkle.nodeInput node sibling else Merkle.nodeInput sibling node) ::
        climbStrings ((width + 1) / 2) (index / 2)
          (if index % 2 = 0 then Merkle.hashNode node sibling else Merkle.hashNode sibling node)
          rest
termination_by width
decreasing_by all_goals omega

section

variable {width index : Nat} {node sibling : Word256} {siblings : List Word256}

theorem climbStrings_of_alone (hopen : 1 < width) (halone : index = width - 1 ∧ width % 2 = 1) :
    climbStrings width index node siblings =
      climbStrings ((width + 1) / 2) (index / 2) node siblings := by
  rw [climbStrings.eq_def, if_neg (Nat.not_le.mpr hopen), if_pos halone]

theorem climbStrings_cons (hopen : 1 < width) (hpaired : ¬(index = width - 1 ∧ width % 2 = 1)) :
    climbStrings width index node (sibling :: siblings) =
      Merkle.nodeInput (Merkle.inPlace index node sibling).1
          (Merkle.inPlace index node sibling).2 ::
        climbStrings ((width + 1) / 2) (index / 2)
          (Merkle.hashNode (Merkle.inPlace index node sibling).1
            (Merkle.inPlace index node sibling).2) siblings := by
  rw [climbStrings.eq_def, if_neg (Nat.not_le.mpr hopen), if_neg hpaired]
  by_cases heven : index % 2 = 0
  · simp only [if_pos heven, Merkle.inPlace]
  · simp only [if_neg heven, Merkle.inPlace]

end

/-- What is hashed to check a path for a leaf. -/
def pathStrings (s : Scheme) (leaf : Word256) (path : MerklePath) : List Bytes :=
  match s, path.words? with
  | _, none => []
  | sortedPair, some siblings => foldStrings leaf siblings
  | indexed, some siblings =>
    if path.leafIndex < path.leafCount then
      Merkle.leafInput leaf ::
        climbStrings path.leafCount.toNat path.leafIndex.toNat (Merkle.hashLeaf leaf) siblings
    else []

/-- A way up from a node, on which each next node is combined from the one before and any other
one on either side, with what is hashed on it. -/
inductive Ascends (s : Scheme) : List Bytes → Word256 → Word256 → Prop
  | here (node) : Ascends s [] node node
  | up {strings a b node top} (hchild : node = a ∨ node = b)
      (h : Ascends s strings (s.combine a b) top) :
      Ascends s (s.pairInput a b :: strings) node top

variable {s s' : Scheme} {a b c d leaf node top : Word256} {strings : List Bytes}

/-- What is hashed for a leaf is hashed to build a tree over it. -/
theorem leafInputs_subset_treeStrings {leaves : List Word256} (hleaf : leaf ∈ leaves) :
    s.leafInputs leaf ⊆ s.treeStrings leaves := by
  intro x hx
  exact List.mem_append_left _ (List.mem_flatMap.mpr ⟨leaf, hleaf, hx⟩)

theorem leafInput_mem_treeStrings {leaves : List Word256} (hleaf : leaf ∈ leaves) :
    Merkle.leafInput leaf ∈ indexed.treeStrings leaves :=
  leafInputs_subset_treeStrings hleaf (List.mem_singleton_self _)

/-- What is hashed for two nodes that a tree combines is hashed to build it. -/
theorem pairInput_mem_treeStrings {leaves : List Word256} {p : Word256 × Word256}
    (hp : p ∈ Merkle.combined s.combine (s.bottom leaves)) :
    s.pairInput p.1 p.2 ∈ s.treeStrings leaves :=
  List.mem_append_right _ (List.mem_map_of_mem hp)

theorem combine_eq (s : Scheme) (a b : Word256) : s.combine a b = keccak256 (s.pairInput a b) := by
  cases s with
  | sortedPair => rfl
  | indexed => rfl

/-- Pairs are hashed in sixty-four or sixty-five bytes. -/
theorem length_pairInput (s : Scheme) (a b : Word256) :
    (s.pairInput a b).length = 64 ∧ s = sortedPair ∨
      (s.pairInput a b).length = 65 ∧ s = indexed := by
  cases s with
  | sortedPair => exact Or.inl ⟨Merkle.length_sortedPairInput a b, rfl⟩
  | indexed => exact Or.inr ⟨Merkle.length_nodeInput a b, rfl⟩

/-- What is hashed for a pair tells the scheme, and the pair up to its order. -/
theorem pairInput_inj (h : s.pairInput a b = s'.pairInput c d) :
    s = s' ∧ (a = c ∧ b = d ∨ a = d ∧ b = c) := by
  have hlength := congrArg List.length h
  cases s with
  | sortedPair =>
    cases s' with
    | sortedPair => exact ⟨rfl, Merkle.sortedPairInput_inj h⟩
    | indexed => simp [pairInput] at hlength
  | indexed =>
    cases s' with
    | sortedPair => simp [pairInput] at hlength
    | indexed => exact ⟨rfl, Or.inl (Merkle.nodeInput_inj h)⟩

theorem ascends_of_foldl {siblings : List Word256}
    (h : siblings.foldl Merkle.hashSortedPair node = top) :
    sortedPair.Ascends (foldStrings node siblings) node top := by
  induction siblings generalizing node with
  | nil =>
    obtain rfl := h
    exact Ascends.here node
  | cons sibling rest ih => exact Ascends.up (Or.inl rfl) (ih h)

theorem ascends_of_climb {width index : Nat} {siblings : List Word256}
    (h : climb width index node siblings = some top) :
    indexed.Ascends (climbStrings width index node siblings) node top := by
  induction width, index, node, siblings using climb.induct with
  | case1 width index node hend =>
    rw [climb.eq_def, if_pos hend, if_pos rfl] at h
    rw [climbStrings, if_pos hend]
    obtain rfl := Option.some.inj h
    exact Ascends.here node
  | case2 width index node siblings hend hleft =>
    rw [climb.eq_def, if_pos hend, if_neg hleft] at h
    cases h
  | case3 width index node siblings hopen hkept ih =>
    rw [climb.eq_def, if_neg hopen, if_pos hkept] at h
    rw [climbStrings.eq_def, if_neg hopen, if_pos hkept]
    exact ih h
  | case4 width index node hopen hpaired =>
    rw [climb.eq_def, if_neg hopen, if_neg hpaired] at h
    cases h
  | case5 width index node hopen hpaired sibling rest ih =>
    rw [climb.eq_def, if_neg hopen, if_neg hpaired] at h
    rw [climbStrings.eq_def, if_neg hopen, if_neg hpaired]
    by_cases heven : index % 2 = 0
    · simp only [if_pos heven, dif_pos heven] at h ih ⊢
      exact Ascends.up (Or.inl rfl) (ih h)
    · simp only [if_neg heven, dif_neg heven] at h ih ⊢
      exact Ascends.up (Or.inr rfl) (ih h)

/-- An accepted path is a way up from the bottom node of its leaf to the root. -/
theorem ascends_of_verify {path : MerklePath} (h : s.verify top leaf path = true) :
    ∃ strings, s.pathStrings leaf path = s.leafInputs leaf ++ strings ∧
      s.Ascends strings (s.leafNode leaf) top := by
  unfold verify at h
  unfold pathStrings
  cases hwords : path.words? with
  | none => simp [hwords] at h
  | some siblings =>
    cases s with
    | sortedPair =>
      simp only [hwords, decide_eq_true_eq] at h
      exact ⟨_, rfl, ascends_of_foldl h⟩
    | indexed =>
      simp only [hwords, Bool.decide_and, Bool.and_eq_true, decide_eq_true_eq] at h
      refine ⟨_, ?_, ascends_of_climb h.2⟩
      simp only [if_pos h.1]
      rfl

/-- Whatever a way hashes is the string of a pair. -/
theorem Ascends.eq_pairInput (h : s.Ascends strings node top) {x : Bytes} (hx : x ∈ strings) :
    ∃ a b, x = s.pairInput a b := by
  induction h with
  | here => cases hx
  | up _ _ ih =>
    rcases List.mem_cons.mp hx with rfl | hrest
    · exact ⟨_, _, rfl⟩
    · exact ih hrest

section Descent

variable {leaves : List Word256} {hashed : List Bytes}

/-- Without a collision, two nodes whose combination is a node of a tree are nodes of that tree. The
exception is a bottom node that is itself the digest of a pair. -/
theorem mem_nodes_of_combine (hfree : ¬Collision hashed)
    (htree : ∀ x ∈ s.treeStrings leaves, x ∈ hashed) (hpair : s'.pairInput a b ∈ hashed)
    (hnode : s'.combine a b ∈ Merkle.nodes s.combine (s.bottom leaves)) :
    keccak256 (s'.pairInput a b) ∈ s.bottom leaves ∨
      s' = s ∧ a ∈ Merkle.nodes s.combine (s.bottom leaves) ∧
        b ∈ Merkle.nodes s.combine (s.bottom leaves) := by
  rw [combine_eq] at hnode
  rcases Merkle.mem_or_eq_of_mem_nodes hnode with hbottom | ⟨p, hp, heq⟩
  · exact Or.inl hbottom
  · have hstring : s.pairInput p.1 p.2 ∈ hashed := htree _ (pairInput_mem_treeStrings hp)
    rw [combine_eq] at heq
    have hsame := eq_of_not_collision hfree hpair hstring heq
    obtain ⟨hleft, hright⟩ := Merkle.mem_nodes_of_mem_combined hp
    obtain ⟨hscheme, ⟨rfl, rfl⟩ | ⟨rfl, rfl⟩⟩ := pairInput_inj hsame
    · exact Or.inr ⟨hscheme, hleft, hright⟩
    · exact Or.inr ⟨hscheme, hright, hleft⟩

/-- Without a collision, a way up to a node of a tree runs inside the tree, under the scheme of the
tree unless it hashes nothing. The exception is a bottom node that is itself the digest of a pair
on the way. -/
theorem Ascends.mem_nodes (h : s'.Ascends strings node top) (hfree : ¬Collision hashed)
    (htree : ∀ x ∈ s.treeStrings leaves, x ∈ hashed) (hway : ∀ x ∈ strings, x ∈ hashed)
    (htop : top ∈ Merkle.nodes s.combine (s.bottom leaves)) :
    node ∈ Merkle.nodes s.combine (s.bottom leaves) ∧ (strings = [] ∨ s' = s) ∨
      ∃ x ∈ strings, keccak256 x ∈ s.bottom leaves := by
  -- The way is followed from its top down: what is above a node is known to lie in the tree.
  induction h with
  | here => exact Or.inl ⟨htop, Or.inl rfl⟩
  | up hchild _ ih =>
    have hfirst := hway _ List.mem_cons_self
    rcases ih (fun x hx => hway x (List.mem_cons_of_mem _ hx)) htop with ⟨hnode, _⟩ | ⟨x, hx, hmem⟩
    · rcases mem_nodes_of_combine hfree htree hfirst hnode with hbottom | ⟨hscheme, hleft, hright⟩
      · exact Or.inr ⟨_, List.mem_cons_self, hbottom⟩
      · refine Or.inl ⟨?_, Or.inr hscheme⟩
        rcases hchild with rfl | rfl
        · exact hleft
        · exact hright
    · exact Or.inr ⟨x, List.mem_cons_of_mem _ hx, hmem⟩

end Descent

end Scheme

end TokenBridge
