import Mathlib.Data.List.Induction
import TokenBridge.Proofs.BuiltPaths
import TokenBridge.Proofs.Hashed

/-!
# What an accepted indexed path shows

Whoever asks for a path to be checked chooses its position, its count of leaves and its siblings.
Whatever they are, an accepted path starts at a leaf of the tree. If the count is that of the tree,
the way has the shape of the tree, and at each level, from the top down, the two nodes combined on
the way are the two combined in the tree: so the path is the one that is built for its position.
All this holds unless two of the strings hashed collide.
-/

namespace TokenBridge

namespace Merkle

variable {α : Type} {level : List α} {i : Nat} {node sibling : α}

/-- A node and its partner are one of the pairs of their level. -/
theorem inPlace_mem_pairs (hnode : level[i]? = some node)
    (hpartner : level[partner i]? = some sibling) : inPlace i node sibling ∈ pairs level := by
  induction level using List.twoStepInduction generalizing i with
  | nil => cases hnode
  | singleton a =>
    have hsingle : [a].length ≤ 1 := Nat.le_refl 1
    obtain ⟨rfl, _⟩ := eq_singleton_of_getElem? hsingle hnode
    cases hpartner
  | cons_cons a b rest ih =>
    rcases i with _ | _ | i
    · obtain rfl := Option.some.inj hnode
      obtain rfl := Option.some.inj hpartner
      exact List.mem_cons_self
    · obtain rfl := Option.some.inj hnode
      obtain rfl := Option.some.inj hpartner
      exact List.mem_cons_self
    · have hshift : partner (i + 2) = partner i + 2 := by
        unfold partner
        split <;> split <;> omega
      have hplace : inPlace (i + 2) node sibling = inPlace i node sibling := by
        rw [inPlace, inPlace, Nat.add_mod_right]
      rw [hshift] at hpartner
      rw [hplace]
      exact List.mem_cons_of_mem _ (ih hnode hpartner)

end Merkle

namespace Scheme

variable {level leaves : List Word256} {hashed : List Bytes} {i : Nat} {node root : Word256}
  {siblings : List Word256}

/-- Without a collision, a way that is walked along a position and a width up to the root of a level
of that width starts at the node of the position, and takes its siblings. -/
theorem eq_siblings_of_climb (hfree : ¬Collision hashed)
    (htree : ∀ p ∈ Merkle.combined Merkle.hashNode level, Merkle.nodeInput p.1 p.2 ∈ hashed)
    (hway : ∀ x ∈ climbStrings level.length i node siblings, x ∈ hashed) (hi : i < level.length)
    (hroot : Merkle.root? Merkle.hashNode level = some root)
    (h : climb level.length i node siblings = some root) :
    level[i]? = some node ∧
      siblings = Merkle.siblings (Merkle.levels Merkle.hashNode level) i := by
  induction level using Merkle.levels.induct Merkle.hashNode generalizing i node siblings with
  | case1 level hsingle =>
    rw [climb_of_le hsingle] at h
    split at h
    · next hnone =>
      obtain rfl := Option.some.inj h
      obtain ⟨rfl, _⟩ := Merkle.eq_singleton_of_getElem? hsingle (List.getElem?_eq_getElem hi)
      rw [Merkle.root?_of_le hsingle, List.head?_eq_getElem?] at hroot
      exact ⟨hroot, hnone.trans (Merkle.siblings_of_le hsingle 0).symm⟩
    · cases h
  | case2 level hmany ih =>
    have hlt := Nat.lt_of_not_le hmany
    have hkept : level[i]? = some level[i] := List.getElem?_eq_getElem hi
    have hparent := Merkle.getElem?_pairUp_half Merkle.hashNode hkept
    have hhalf : i / 2 < (Merkle.pairUp Merkle.hashNode level).length := by
      rw [Merkle.length_pairUp]
      omega
    have halone := Merkle.getElem?_partner_eq_none_iff hi
    rw [Merkle.root?_of_lt hlt] at hroot
    rw [Merkle.combined_of_lt hlt] at htree
    rw [Merkle.siblings_of_lt hlt]
    have hrest := fun p hp => htree p (List.mem_append_right _ hp)
    cases hpartner : level[Merkle.partner i]? with
    | none =>
      have hmoves := halone.mp hpartner
      rw [climb_of_alone hlt hmoves, ← Merkle.length_pairUp Merkle.hashNode] at h
      rw [climbStrings_of_alone hlt hmoves, ← Merkle.length_pairUp Merkle.hashNode] at hway
      obtain ⟨hnode, hsiblings⟩ := ih hrest hway hhalf hroot h
      rw [hparent, hpartner] at hnode
      exact ⟨hkept.trans hnode, hsiblings⟩
    | some sibling =>
      have hpaired : ¬(i = level.length - 1 ∧ level.length % 2 = 1) := by
        rw [← halone, hpartner]
        exact Option.some_ne_none sibling
      cases siblings with
      | nil =>
        rw [climb_nil hlt hpaired] at h
        cases h
      | cons given later =>
        rw [climb_cons hlt hpaired, ← Merkle.length_pairUp Merkle.hashNode] at h
        rw [climbStrings_cons hlt hpaired, ← Merkle.length_pairUp Merkle.hashNode] at hway
        obtain ⟨hnode, hsiblings⟩ :=
          ih hrest (fun x hx => hway x (List.mem_cons_of_mem _ hx)) hhalf hroot h
        rw [hparent, hpartner, Option.elim_some] at hnode
        -- The parent in the tree is the one on the way, so both hash the same string.
        have hsame := eq_of_not_collision hfree
          (htree _ (List.mem_append_left _ (Merkle.inPlace_mem_pairs hkept hpartner)))
          (hway _ List.mem_cons_self) (Option.some.inj hnode)
        obtain ⟨hleft, hright⟩ := Merkle.nodeInput_inj hsame
        obtain ⟨hown, hbeside⟩ := Merkle.inPlace_inj (Prod.ext hleft hright)
        rw [hkept, hown, hbeside, hsiblings]
        exact ⟨rfl, rfl⟩

/-- No pair is hashed as a leaf is. -/
theorem pairInput_ne_leafInput (s : Scheme) (a b leaf : Word256) :
    s.pairInput a b ≠ Merkle.leafInput leaf := by
  intro heq
  have hlength := congrArg List.length heq
  rw [Merkle.length_leafInput] at hlength
  rcases s.length_pairInput a b with ⟨hpair, _⟩ | ⟨hpair, _⟩
  · omega
  · omega

section Accepted

variable {leaf : Word256} {path : MerklePath}

/-- Without a collision, a string whose digest is a node at the bottom is that of a leaf. -/
theorem exists_leaf_of_mem_bottom (hfree : ¬Collision hashed)
    (htree : ∀ x ∈ indexed.treeStrings leaves, x ∈ hashed) {x : Bytes} (hx : x ∈ hashed)
    (h : keccak256 x ∈ indexed.bottom leaves) : ∃ leaf ∈ leaves, x = Merkle.leafInput leaf := by
  obtain ⟨leaf, hleaf, hdigest⟩ := List.mem_map.mp h
  have hstring : Merkle.leafInput leaf ∈ hashed := htree _ (leafInput_mem_treeStrings hleaf)
  exact ⟨leaf, hleaf, eq_of_not_collision hfree hx hstring hdigest.symm⟩

/-- Without a collision, an accepted path starts at a leaf of the tree, whatever its count. -/
theorem mem_of_verify_indexed (hroot : indexed.root? leaves = some root)
    (h : indexed.verify root leaf path = true)
    (hfree : ¬Collision (indexed.treeStrings leaves ++ indexed.pathStrings leaf path)) :
    leaf ∈ leaves := by
  have htree : ∀ x ∈ indexed.treeStrings leaves,
      x ∈ indexed.treeStrings leaves ++ indexed.pathStrings leaf path :=
    fun x hx => List.mem_append_left _ hx
  obtain ⟨strings, hpath, hascends⟩ := ascends_of_verify h
  have hway : ∀ x ∈ Merkle.leafInput leaf :: strings,
      x ∈ indexed.treeStrings leaves ++ indexed.pathStrings leaf path := by
    intro x hx
    rw [hpath]
    exact List.mem_append_right _ hx
  have hstart := hway _ List.mem_cons_self
  rcases hascends.mem_nodes hfree htree (fun x hx => hway x (List.mem_cons_of_mem _ hx))
    (Merkle.mem_nodes_of_root? hroot) with ⟨hnode, _⟩ | ⟨x, hx, hbottom⟩
  · rcases Merkle.mem_or_eq_of_mem_nodes hnode with hbottom | ⟨p, hp, hdigest⟩
    · obtain ⟨leaf', hleaf', heq⟩ := exists_leaf_of_mem_bottom hfree htree hstart hbottom
      rwa [Merkle.leafInput_inj heq]
    · have hpair := htree _ (pairInput_mem_treeStrings hp)
      have heq := eq_of_not_collision hfree hpair hstart hdigest.symm
      exact absurd heq (pairInput_ne_leafInput indexed p.1 p.2 leaf)
  · obtain ⟨leaf', _, heq⟩ :=
      exists_leaf_of_mem_bottom hfree htree (hway x (List.mem_cons_of_mem _ hx)) hbottom
    obtain ⟨a, b, rfl⟩ := hascends.eq_pairInput hx
    exact absurd heq (pairInput_ne_leafInput indexed a b leaf')

/-- Without a collision, an accepted path that counts the leaves rightly starts at the leaf of its
position, and is the path built for it. -/
theorem path?_of_verify_indexed (hroot : indexed.root? leaves = some root)
    (h : indexed.verify root leaf path = true)
    (hfree : ¬Collision (indexed.treeStrings leaves ++ indexed.pathStrings leaf path))
    (hcount : path.leafCount.toNat = leaves.length) :
    leaves[path.leafIndex.toNat]? = some leaf ∧
      indexed.path? leaves path.leafIndex.toNat = some path := by
  obtain ⟨hlt, siblings, hwords, hclimb⟩ := verify_indexed_iff.mp h
  have hindex : path.leafIndex.toNat < leaves.length := by
    rw [← hcount]
    exact UInt64.lt_iff_toNat_lt.mp hlt
  have hstrings : indexed.pathStrings leaf path = Merkle.leafInput leaf ::
      climbStrings path.leafCount.toNat path.leafIndex.toNat (Merkle.hashLeaf leaf) siblings := by
    simp only [pathStrings, hwords, if_pos hlt]
  rw [hstrings] at hfree
  have hwidth : (indexed.bottom leaves).length = path.leafCount.toNat := by
    rw [bottom, List.length_map, hcount]
  rw [← hwidth] at hclimb hfree
  obtain ⟨hnode, hsiblings⟩ := eq_siblings_of_climb hfree
    (fun p hp => List.mem_append_left _ (pairInput_mem_treeStrings hp))
    (fun x hx => List.mem_append_right _ (List.mem_cons_of_mem _ hx))
    (by rwa [hwidth, hcount]) hroot hclimb
  constructor
  · rw [bottom, List.getElem?_map, Option.map_eq_some_iff] at hnode
    obtain ⟨leaf', hleaf', hdigest⟩ := hnode
    have heq := eq_of_not_collision hfree ?_ ?_ hdigest
    · rwa [← Merkle.leafInput_inj heq]
    · exact List.mem_append_left _ (leafInput_mem_treeStrings (List.mem_of_getElem? hleaf'))
    · exact List.mem_append_right _ List.mem_cons_self
  · rw [path?, if_pos hindex, ← hcount, UInt64.ofNat_toNat, UInt64.ofNat_toNat]
    have hbytes := MerklePath.words?_eq_some_iff.mp hwords
    rw [hsiblings] at hbytes
    exact congrArg some (congrArg (MerklePath.mk path.leafIndex path.leafCount) hbytes.symm)

/-- Over a list of leaves an indexed tree has a root. A path that is accepted under it is one for a
leaf of the list. If it counts the leaves rightly, it is one for the leaf at its position, and is
the path built for that position, with its siblings and no others. All this holds unless two
different strings hashed to build the tree and to check the path have the same digest. -/
theorem opens_only_leaves (hne : leaves ≠ []) :
    ∃ root, indexed.root? leaves = some root ∧
      ∀ leaf path, indexed.verify root leaf path = true →
        ¬Collision (indexed.treeStrings leaves ++ indexed.pathStrings leaf path) →
          leaf ∈ leaves ∧
            (path.leafCount.toNat = leaves.length →
              leaves[path.leafIndex.toNat]? = some leaf ∧
                indexed.path? leaves path.leafIndex.toNat = some path) := by
  have hbottom : indexed.bottom leaves ≠ [] := mt List.map_eq_nil_iff.mp hne
  obtain ⟨root, hroot⟩ := Merkle.exists_root? indexed.combine hbottom
  refine ⟨root, hroot, ?_⟩
  intro leaf path h hfree
  exact ⟨mem_of_verify_indexed hroot h hfree, path?_of_verify_indexed hroot h hfree⟩

end Accepted

end Scheme

namespace Sample

/-- A path for the last leaf, which has only the node above the other two beside it. -/
def lastPath : MerklePath where
  leafIndex := 2
  leafCount := 3
  siblings := [(Merkle.hashNode (Merkle.hashLeaf (uniform 3)) (Merkle.hashLeaf (uniform 4))).bytes]

/-- What is hashed for the tree and on that path does not collide. -/
theorem lastPath_free : ¬Collision
    (Scheme.indexed.treeStrings leaves ++ Scheme.indexed.pathStrings (uniform 5) lastPath) := by
  unfold Collision
  decide +kernel

end Sample

/-- That path is accepted, and nothing collides on it: so it is the one that is built. -/
theorem Scheme.opens_only_leaves_sample :
    Sample.leaves ≠ [] ∧
      (indexed.root? Sample.leaves).any
        (fun root => indexed.verify root (Sample.uniform 5) Sample.lastPath) = true ∧
      ¬Collision (indexed.treeStrings Sample.leaves ++
        indexed.pathStrings (Sample.uniform 5) Sample.lastPath) ∧
      indexed.path? Sample.leaves 2 = some Sample.lastPath := by
  have hne : Sample.leaves ≠ [] := by decide
  have hverify : (indexed.root? Sample.leaves).any
      (fun root => indexed.verify root (Sample.uniform 5) Sample.lastPath) = true := by
    decide +kernel
  obtain ⟨root, hroot, hopens⟩ := opens_only_leaves hne
  refine ⟨hne, hverify, Sample.lastPath_free, ?_⟩
  rw [hroot, Option.any_some] at hverify
  obtain ⟨_, hbuilt⟩ := hopens (Sample.uniform 5) Sample.lastPath hverify Sample.lastPath_free
  exact (hbuilt (by decide)).2

end TokenBridge
