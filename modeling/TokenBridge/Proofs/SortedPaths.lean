import TokenBridge.Proofs.BuiltPaths
import TokenBridge.Proofs.Hashed

/-!
# What an accepted sorted path shows

Under sorted pairs leaves and inner nodes are hashed alike, and nothing in a path tells at which
level it starts. It may start at any node of the tree, and below the tree where a leaf is itself the
digest of a pair. Without a collision it starts nowhere else.
-/

namespace TokenBridge

namespace Scheme

variable {leaves : List Word256} {root v : Word256} {siblings : List Word256}

/-- Under sorted pairs the leaves are the bottom level. -/
theorem bottom_sortedPair (leaves : List Word256) : sortedPair.bottom leaves = leaves :=
  List.map_id' leaves

/-- Siblings that are folded up to the root make an accepted path. -/
theorem exists_path_of_foldl (h : siblings.foldl Merkle.hashSortedPair v = root) :
    ∃ path, sortedPair.verify root v path = true := by
  refine ⟨⟨0, 0, siblings.map Word256.bytes⟩, verify_sortedPair_iff.mpr ⟨siblings, ?_, h⟩⟩
  exact MerklePath.words?_eq_some_iff.mpr rfl

/-- From every node of a tree siblings are folded up to its root. -/
theorem exists_foldl_of_mem_nodes (hroot : Merkle.root? Merkle.hashSortedPair leaves = some root)
    (hv : v ∈ Merkle.nodes Merkle.hashSortedPair leaves) :
    ∃ siblings : List Word256, siblings.foldl Merkle.hashSortedPair v = root := by
  have hbottom : ∀ level, Merkle.root? Merkle.hashSortedPair level = some root → v ∈ level →
      ∃ siblings : List Word256, siblings.foldl Merkle.hashSortedPair v = root := by
    intro level hlevel hmem
    obtain ⟨i, hi⟩ := List.mem_iff_getElem?.mp hmem
    rw [Merkle.foldl_siblings Merkle.hashSortedPair_comm hi] at hlevel
    exact ⟨_, Option.some.inj hlevel⟩
  induction leaves using Merkle.levels.induct Merkle.hashSortedPair with
  | case1 leaves hsingle =>
    rw [Merkle.nodes_of_le hsingle] at hv
    exact hbottom leaves hroot hv
  | case2 leaves hmany ih =>
    have hlt := Nat.lt_of_not_le hmany
    rw [Merkle.nodes_of_lt hlt, List.mem_append] at hv
    rcases hv with hleaf | habove
    · exact hbottom leaves hroot hleaf
    · rw [Merkle.root?_of_lt hlt] at hroot
      exact ih hroot habove

/-- Whatever an accepted path starts at, the two words that it was combined from start one too. -/
theorem exists_path_of_hashSortedPair {sibling : Word256} {path : MerklePath}
    (h : sortedPair.verify root (Merkle.hashSortedPair v sibling) path = true) :
    ∃ path', sortedPair.verify root v path' = true := by
  obtain ⟨siblings, _, hfold⟩ := verify_sortedPair_iff.mp h
  rw [← List.foldl_cons] at hfold
  exact exists_path_of_foldl hfold

/-- Without a collision, an accepted path starts at a node, or hashes a pair into a leaf. -/
theorem mem_nodes_of_verify_sortedPair {path : MerklePath}
    (hroot : sortedPair.root? leaves = some root) (h : sortedPair.verify root v path = true)
    (hfree : ¬Collision (sortedPair.treeStrings leaves ++ sortedPair.pathStrings v path)) :
    v ∈ Merkle.nodes Merkle.hashSortedPair leaves ∨
      ∃ pair ∈ sortedPair.pathStrings v path, pair.length = 64 ∧ keccak256 pair ∈ leaves := by
  obtain ⟨strings, hpath, hascends⟩ := ascends_of_verify h
  have hstrings : sortedPair.pathStrings v path = strings := hpath
  rw [hstrings] at hfree ⊢
  rcases hascends.mem_nodes hfree (fun x hx => List.mem_append_left _ hx)
    (fun x hx => List.mem_append_right _ hx) (Merkle.mem_nodes_of_root? hroot) with
    ⟨hnode, _⟩ | ⟨pair, hpair, hleaf⟩
  · rw [bottom_sortedPair] at hnode
    exact Or.inl hnode
  · rw [bottom_sortedPair] at hleaf
    obtain ⟨a, b, rfl⟩ := hascends.eq_pairInput hpair
    exact Or.inr ⟨_, hpair, Merkle.length_sortedPairInput a b, hleaf⟩

/-- Over a list of leaves a tree of sorted pairs has a root. A path that is accepted under it starts
at a node of some level of the tree, or some leaf is the digest of a pair that is hashed on the way,
unless two different strings hashed to build the tree and to check the path have the same digest. In
turn every node of every level starts an accepted path, and so do the two words that such a start is
the digest of. -/
theorem opens_only_nodes (hne : leaves ≠ []) :
    ∃ root, sortedPair.root? leaves = some root ∧
      (∀ v path, sortedPair.verify root v path = true →
        ¬Collision (sortedPair.treeStrings leaves ++ sortedPair.pathStrings v path) →
          (∃ level ∈ Merkle.levels Merkle.hashSortedPair leaves, v ∈ level) ∨
            ∃ pair ∈ sortedPair.pathStrings v path,
              pair.length = 64 ∧ keccak256 pair ∈ leaves) ∧
      (∀ level ∈ Merkle.levels Merkle.hashSortedPair leaves, ∀ v ∈ level,
        ∃ path, sortedPair.verify root v path = true) ∧
      ∀ v sibling path, sortedPair.verify root (Merkle.hashSortedPair v sibling) path = true →
        ∃ path', sortedPair.verify root v path' = true := by
  obtain ⟨root, htree⟩ := Merkle.exists_root? Merkle.hashSortedPair hne
  have hroot : sortedPair.root? leaves = some root := by
    rw [root?, bottom_sortedPair]
    exact htree
  refine ⟨root, hroot, ?_, ?_, ?_⟩
  · intro v path h hfree
    exact (mem_nodes_of_verify_sortedPair hroot h hfree).imp_left List.mem_flatten.mp
  · intro level hlevel v hv
    have hnode : v ∈ Merkle.nodes Merkle.hashSortedPair leaves := List.mem_flatten_of_mem hlevel hv
    obtain ⟨siblings, hfold⟩ := exists_foldl_of_mem_nodes htree hnode
    exact exists_path_of_foldl hfold
  · intro v sibling path h
    exact exists_path_of_hashSortedPair h

end Scheme

namespace Sample

/-- The digest of two words. -/
def inner : Word256 := Merkle.hashSortedPair (uniform 3) (uniform 4)

/-- Two leaves, of which the first is that digest. -/
def nestedLeaves : List Word256 := [inner, uniform 5]

/-- The root over the two. -/
def outer : Word256 := Merkle.hashSortedPair inner (uniform 5)

/-- A path that starts below the first leaf. -/
def deepPath : MerklePath where
  leafIndex := 0
  leafCount := 2
  siblings := [(uniform 4).bytes, (uniform 5).bytes]

theorem start_ne_nodes : uniform 3 ∉ [inner, uniform 5] ∧ uniform 3 ≠ outer ∧ inner ≠ outer := by
  decide +kernel

theorem levels_nestedLeaves :
    Merkle.levels Scheme.sortedPair.combine nestedLeaves = [nestedLeaves, [outer]] := by
  rw [Merkle.levels_of_lt (by decide), Merkle.levels_of_le (by decide)]
  rfl

/-- For the tree and on the path two pairs are hashed, whose digests differ. -/
theorem deepPath_free : ¬Collision (Scheme.sortedPair.treeStrings nestedLeaves ++
    Scheme.sortedPair.pathStrings (uniform 3) deepPath) := by
  have htree : Scheme.sortedPair.treeStrings nestedLeaves =
      [Merkle.sortedPairInput inner (uniform 5)] := by
    rw [Scheme.treeStrings, Scheme.bottom_sortedPair, Merkle.combined, levels_nestedLeaves]
    rfl
  have hpath : Scheme.sortedPair.pathStrings (uniform 3) deepPath =
      [Merkle.sortedPairInput (uniform 3) (uniform 4),
        Merkle.sortedPairInput inner (uniform 5)] := by
    have hwords : deepPath.words? = some [uniform 4, uniform 5] :=
      MerklePath.words?_eq_some_iff.mpr rfl
    simp only [Scheme.pathStrings, hwords]
    rfl
  rw [htree, hpath]
  refine not_collision_of_two start_ne_nodes.2.2 fun z hz => ?_
  simp only [List.cons_append, List.nil_append, List.mem_cons, List.not_mem_nil, or_false] at hz
  exact hz.elim Or.inr id

end Sample

/-- One half of that pair is accepted, though it is no node of the tree. -/
theorem Scheme.opens_only_nodes_sample :
    Sample.nestedLeaves ≠ [] ∧
      (sortedPair.root? Sample.nestedLeaves).any
        (fun root => sortedPair.verify root (Sample.uniform 3) Sample.deepPath) = true ∧
      ¬Collision (sortedPair.treeStrings Sample.nestedLeaves ++
        sortedPair.pathStrings (Sample.uniform 3) Sample.deepPath) ∧
      ∃ pair ∈ sortedPair.pathStrings (Sample.uniform 3) Sample.deepPath,
        pair.length = 64 ∧ keccak256 pair ∈ Sample.nestedLeaves := by
  have hne : Sample.nestedLeaves ≠ [] := List.cons_ne_nil _ _
  have hroot : sortedPair.root? Sample.nestedLeaves = some Sample.outer := by
    rw [root?, bottom_sortedPair, Merkle.root?, Sample.levels_nestedLeaves]
    rfl
  have hverify : sortedPair.verify Sample.outer (Sample.uniform 3) Sample.deepPath = true := by
    refine verify_sortedPair_iff.mpr ⟨[Sample.uniform 4, Sample.uniform 5], ?_, rfl⟩
    exact MerklePath.words?_eq_some_iff.mpr rfl
  obtain ⟨root, hroot', hopens, _⟩ := opens_only_nodes hne
  obtain rfl := Option.some.inj (hroot.symm.trans hroot')
  refine ⟨hne, by rwa [hroot, Option.any_some], Sample.deepPath_free, ?_⟩
  refine (hopens _ _ hverify Sample.deepPath_free).resolve_left ?_
  rintro ⟨level, hlevel, hmem⟩
  change level ∈ Merkle.levels sortedPair.combine Sample.nestedLeaves at hlevel
  rw [Sample.levels_nestedLeaves, List.mem_cons, List.mem_singleton] at hlevel
  obtain ⟨hleaf, htop, _⟩ := Sample.start_ne_nodes
  rcases hlevel with rfl | rfl
  · exact hleaf hmem
  · exact htop (List.mem_singleton.mp hmem)

end TokenBridge
