import TokenBridge.Merkle.Scheme

/-!
# Paths that are built are accepted

A path is read off the levels of a tree and checked without them. Whoever checks it goes from a node
to its parent with the sibling given, or with none where the node moves up alone, and has then a
path in the level above: that level has the same root, and the siblings left are those of the
parent. So every leaf of a tree is accepted with the path built for it, whatever the number of
leaves.
-/

namespace TokenBridge

namespace Merkle

variable {α : Type} {combine : α → α → α} {level : List α} {i : Nat} {node : α}

/-- Where the order of a pair does not matter, the siblings of a node are folded up to the root. -/
theorem foldl_siblings (hcomm : ∀ a b, combine a b = combine b a) (h : level[i]? = some node) :
    root? combine level = some ((siblings (levels combine level) i).foldl combine node) := by
  induction level using levels.induct combine generalizing i node with
  | case1 level hsingle =>
    obtain ⟨rfl, rfl⟩ := eq_singleton_of_getElem? hsingle h
    rw [root?_of_le hsingle, siblings_of_le hsingle]
    rfl
  | case2 level hmany ih =>
    have hlt := Nat.lt_of_not_le hmany
    rw [root?_of_lt hlt, siblings_of_lt hlt, ih (getElem?_pairUp_half _ h), List.foldl_append]
    cases level[partner i]? with
    | none => rfl
    | some sibling =>
      have hparent : combine (inPlace i node sibling).1 (inPlace i node sibling).2 =
          combine node sibling := by
        unfold inPlace
        split
        · rfl
        · exact hcomm sibling node
      rw [Option.elim_some, hparent]
      rfl

end Merkle

namespace Scheme

/-- Walked along the position of a node and the width of its level, its siblings lead to the
root. -/
theorem climb_siblings {level : List Word256} {i : Nat} {node : Word256}
    (h : level[i]? = some node) :
    climb level.length i node (Merkle.siblings (Merkle.levels Merkle.hashNode level) i) =
      Merkle.root? Merkle.hashNode level := by
  induction level using Merkle.levels.induct Merkle.hashNode generalizing i node with
  | case1 level hsingle =>
    obtain ⟨rfl, rfl⟩ := Merkle.eq_singleton_of_getElem? hsingle h
    rw [Merkle.root?_of_le hsingle, Merkle.siblings_of_le hsingle, climb_of_le hsingle, if_pos rfl]
    rfl
  | case2 level hmany ih =>
    have hlt := Nat.lt_of_not_le hmany
    obtain ⟨hi, _⟩ := List.getElem?_eq_some_iff.mp h
    have halone := Merkle.getElem?_partner_eq_none_iff hi
    have hparent := ih (Merkle.getElem?_pairUp_half _ h)
    rw [Merkle.length_pairUp] at hparent
    rw [Merkle.root?_of_lt hlt, Merkle.siblings_of_lt hlt, ← hparent]
    cases hpartner : level[Merkle.partner i]? with
    | none => exact climb_of_alone hlt (halone.mp hpartner)
    | some sibling =>
      refine climb_cons hlt ?_
      rw [← halone, hpartner]
      exact Option.some_ne_none sibling

/-- For every position of a list of leaves there is a root and a path, and the path leads from the
leaf at the position to the root. Where position and width are walked, a word of 64 bits has to
hold them. -/
theorem accepts_built_path (s : Scheme) {leaves : List Word256} {index : Nat}
    (hindex : index < leaves.length) (hcount : s = indexed → leaves.length < UInt64.size) :
    ∃ root path, s.root? leaves = some root ∧ s.path? leaves index = some path ∧
      s.verify root leaves[index] path = true := by
  have hnode : (s.bottom leaves)[index]? = some (s.leafNode leaves[index]) := by
    rw [bottom, List.getElem?_map, List.getElem?_eq_getElem hindex]
    rfl
  cases s with
  | sortedPair =>
    refine ⟨_, _, Merkle.foldl_siblings Merkle.hashSortedPair_comm hnode, if_pos hindex, ?_⟩
    rw [verify_sortedPair_iff]
    exact ⟨_, MerklePath.words?_eq_some_iff.mpr rfl, rfl⟩
  | indexed =>
    have hcounted : (UInt64.ofNat leaves.length).toNat = leaves.length :=
      UInt64.toNat_ofNat_of_lt' (hcount rfl)
    have hplaced : (UInt64.ofNat index).toNat = index :=
      UInt64.toNat_ofNat_of_lt' (Nat.lt_trans hindex (hcount rfl))
    obtain ⟨root, hroot⟩ : ∃ root, indexed.root? leaves = some root :=
      Merkle.exists_root? _ (List.ne_nil_of_mem (List.mem_of_getElem? hnode))
    have hclimb := climb_siblings hnode
    rw [bottom, List.length_map] at hclimb
    refine ⟨root, _, hroot, if_pos hindex, ?_⟩
    rw [verify_indexed_iff, UInt64.lt_iff_toNat_lt, hcounted, hplaced]
    exact ⟨hindex, _, MerklePath.words?_eq_some_iff.mpr rfl, hclimb.trans hroot⟩

end Scheme

namespace Sample

/-- The word all of whose bytes are the given one. -/
def uniform (byte : UInt8) : Word256 := ⟨List.replicate 32 byte, List.length_replicate⟩

/-- Three leaves, of which the last one moves up alone to the level below the root. -/
def leaves : List Word256 := [uniform 3, uniform 4, uniform 5]

end Sample

/-- The path built for that last leaf is accepted. -/
theorem Scheme.accepts_built_path_sample :
    2 < Sample.leaves.length ∧ Sample.leaves.length < UInt64.size ∧
      ∃ root path, indexed.root? Sample.leaves = some root ∧
        indexed.path? Sample.leaves 2 = some path ∧
        indexed.verify root (Sample.uniform 5) path = true :=
  have hindex : 2 < Sample.leaves.length := by decide
  have hcount : Sample.leaves.length < UInt64.size := by decide
  ⟨hindex, hcount, accepts_built_path indexed hindex fun _ => hcount⟩

end TokenBridge
