import TokenBridge.Proofs.AcceptedPaths

/-!
# What an indexed root commits to

A digest does not show how it came about. Here each node of a tree is built once more as its origin:
the leaf that it was hashed from, or the origins of the two nodes below it. The root's origin lists
all leaves in order, however many there are and whichever nodes moved up alone. Leaves and pairs are
hashed as different strings, so without a collision a digest has one origin only, and a root one
list of leaves.
-/

namespace TokenBridge

namespace Merkle

section Image

variable {α β : Type} {combine : α → α → α} {combine' : β → β → β} {f : α → β}

theorem pairUp_map (hf : ∀ a b, f (combine a b) = combine' (f a) (f b)) (level : List α) :
    pairUp combine' (level.map f) = (pairUp combine level).map f := by
  induction level using List.twoStepInduction with
  | nil => rfl
  | singleton a => rfl
  | cons_cons a b rest ih => simp only [List.map_cons, pairUp, ih, hf]

theorem pairs_map (f : α → β) (level : List α) :
    pairs (level.map f) = (pairs level).map (Prod.map f f) := by
  induction level using List.twoStepInduction with
  | nil => rfl
  | singleton a => rfl
  | cons_cons a b rest ih => simp only [List.map_cons, pairs, ih, Prod.map_apply]

/-- Where nodes are combined as their images are, the images of a tree are a tree. -/
theorem levels_map (hf : ∀ a b, f (combine a b) = combine' (f a) (f b)) (bottom : List α) :
    levels combine' (bottom.map f) = (levels combine bottom).map (List.map f) := by
  induction bottom using levels.induct combine with
  | case1 bottom hsingle =>
    rw [levels_of_le hsingle, levels_of_le (by rwa [List.length_map])]
    rfl
  | case2 bottom hmany ih =>
    have hlt := Nat.lt_of_not_le hmany
    rw [levels_of_lt hlt, levels_of_lt (by rwa [List.length_map]), pairUp_map hf, ih]
    rfl

theorem root?_map (hf : ∀ a b, f (combine a b) = combine' (f a) (f b)) (bottom : List α) :
    root? combine' (bottom.map f) = (root? combine bottom).map f := by
  rw [root?, root?, levels_map hf, List.getLast?_map]
  cases (levels combine bottom).getLast? with
  | none => rfl
  | some level => exact List.head?_map

theorem combined_map (hf : ∀ a b, f (combine a b) = combine' (f a) (f b)) (bottom : List α) :
    combined combine' (bottom.map f) = (combined combine bottom).map (Prod.map f f) := by
  rw [combined, combined, levels_map hf, List.flatMap_map, List.map_flatMap]
  simp only [pairs_map]

end Image

/-- How a node came about: from a leaf, or from the two nodes below it. -/
inductive Origin where
  | leaf (word : Word256)
  | pair (left right : Origin)

namespace Origin

/-- The digest at the node. -/
def digest : Origin → Word256
  | leaf word => hashLeaf word
  | pair left right => hashNode left.digest right.digest

/-- The leaves below the node, from left to right. -/
def leaves : Origin → List Word256
  | leaf word => [word]
  | pair left right => left.leaves ++ right.leaves

/-- What is hashed for the node itself. -/
def input : Origin → Bytes
  | leaf word => leafInput word
  | pair left right => nodeInput left.digest right.digest

/-- What is hashed for the node and for all nodes below it. -/
def strings : Origin → List Bytes
  | leaf word => [leafInput word]
  | pair left right => nodeInput left.digest right.digest :: (left.strings ++ right.strings)

variable {o o' : Origin} {level : List Origin} {words : List Word256} {hashed : List Bytes}

theorem digest_eq (o : Origin) : o.digest = keccak256 o.input := by
  cases o with
  | leaf word => rfl
  | pair left right => rfl

theorem input_mem_strings (o : Origin) : o.input ∈ o.strings := by
  cases o with
  | leaf word => exact List.mem_singleton_self _
  | pair left right => exact List.mem_cons_self

theorem input_eq_of_digest_eq (hfree : ¬Collision hashed) (ho : ∀ x ∈ o.strings, x ∈ hashed)
    (ho' : ∀ x ∈ o'.strings, x ∈ hashed) (h : o.digest = o'.digest) : o.input = o'.input := by
  rw [digest_eq, digest_eq] at h
  exact eq_of_not_collision hfree (ho _ o.input_mem_strings) (ho' _ o'.input_mem_strings) h

/-- No pair comes from what is hashed for a leaf. -/
theorem input_pair_ne_input_leaf (left right : Origin) (word : Word256) :
    (pair left right).input ≠ (leaf word).input :=
  Scheme.pairInput_ne_leafInput .indexed left.digest right.digest word

/-- Without a collision a digest has one origin. -/
theorem eq_of_digest_eq (hfree : ¬Collision hashed) (ho : ∀ x ∈ o.strings, x ∈ hashed)
    (ho' : ∀ x ∈ o'.strings, x ∈ hashed) (h : o.digest = o'.digest) : o = o' := by
  -- Equal digests have equal inputs; these show the constructor, and the digests one level below.
  induction o generalizing o' with
  | leaf word =>
    have hinput := input_eq_of_digest_eq hfree ho ho' h
    cases o' with
    | leaf word' => rw [leafInput_inj hinput]
    | pair left' right' => exact absurd hinput.symm (input_pair_ne_input_leaf left' right' word)
  | pair left right ihleft ihright =>
    have hinput := input_eq_of_digest_eq hfree ho ho' h
    cases o' with
    | leaf word' => exact absurd hinput (input_pair_ne_input_leaf left right word')
    | pair left' right' =>
      obtain ⟨hleft, hright⟩ := nodeInput_inj hinput
      simp only [strings, List.mem_cons, List.mem_append] at ho ho'
      rw [ihleft (fun x hx => ho x (.inr (.inl hx))) (fun x hx => ho' x (.inr (.inl hx))) hleft,
        ihright (fun x hx => ho x (.inr (.inr hx))) (fun x hx => ho' x (.inr (.inr hx))) hright]

/-- The level above has the same leaves in the same order, also where a node moves up alone. -/
theorem flatMap_leaves_pairUp (level : List Origin) :
    (pairUp pair level).flatMap leaves = level.flatMap leaves := by
  induction level using List.twoStepInduction with
  | nil => rfl
  | singleton a => rfl
  | cons_cons a b rest ih =>
    simp only [pairUp, List.flatMap_cons, ih, leaves, List.append_assoc]

theorem leaves_of_root? (h : root? pair level = some o) : o.leaves = level.flatMap leaves := by
  induction level using levels.induct pair with
  | case1 level hsingle =>
    rw [root?_of_le hsingle, List.head?_eq_getElem?] at h
    obtain ⟨_, rfl⟩ := eq_singleton_of_getElem? hsingle h
    exact (List.flatMap_singleton leaves o).symm
  | case2 level hmany ih =>
    rw [root?_of_lt (Nat.lt_of_not_le hmany)] at h
    rw [ih h, flatMap_leaves_pairUp]

/-- The bottom level under the indexed scheme. -/
theorem bottom_eq_map (words : List Word256) :
    Scheme.indexed.bottom words = (words.map leaf).map digest := by
  rw [List.map_map]
  rfl

theorem digest_pair (left right : Origin) :
    digest (pair left right) = Scheme.indexed.combine left.digest right.digest :=
  rfl

/-- A root over leaves is the digest of an origin with just these leaves. -/
theorem exists_of_root? {root : Word256} (h : Scheme.indexed.root? words = some root) :
    ∃ o, root? pair (words.map leaf) = some o ∧ o.digest = root ∧ o.leaves = words := by
  rw [Scheme.root?, bottom_eq_map, root?_map digest_pair, Option.map_eq_some_iff] at h
  obtain ⟨o, hroot, hdigest⟩ := h
  refine ⟨o, hroot, hdigest, ?_⟩
  rw [leaves_of_root? hroot, List.flatMap_map]
  exact List.flatMap_singleton' words

theorem nodeInput_mem_treeStrings {left right : Origin}
    (h : (left, right) ∈ combined pair (words.map leaf)) :
    nodeInput left.digest right.digest ∈ Scheme.indexed.treeStrings words := by
  have hcombined : (left.digest, right.digest) ∈
      combined Scheme.indexed.combine (Scheme.indexed.bottom words) := by
    rw [bottom_eq_map, combined_map digest_pair]
    exact List.mem_map_of_mem h
  exact Scheme.pairInput_mem_treeStrings hcombined

/-- Whatever is hashed for a node of a tree and for those below it is hashed to build the tree. -/
theorem mem_treeStrings (ho : o ∈ nodes pair (words.map leaf)) {x : Bytes} (hx : x ∈ o.strings) :
    x ∈ Scheme.indexed.treeStrings words := by
  induction o with
  | leaf word =>
    obtain rfl := List.mem_singleton.mp hx
    rcases mem_or_eq_of_mem_nodes ho with hbottom | ⟨p, _, heq⟩
    · obtain ⟨_, hword, heq⟩ := List.mem_map.mp hbottom
      obtain rfl := Origin.leaf.inj heq
      exact Scheme.leafInput_mem_treeStrings hword
    · cases heq
  | pair left right ihleft ihright =>
    rcases mem_or_eq_of_mem_nodes ho with hbottom | ⟨p, hp, heq⟩
    · obtain ⟨_, _, heq⟩ := List.mem_map.mp hbottom
      cases heq
    · obtain ⟨rfl, rfl⟩ := Origin.pair.inj heq
      obtain ⟨hleft, hright⟩ := mem_nodes_of_mem_combined hp
      rcases List.mem_cons.mp hx with rfl | hbelow
      · exact nodeInput_mem_treeStrings hp
      · exact (List.mem_append.mp hbelow).elim (ihleft hleft) (ihright hright)

end Origin

end Merkle

/-- Over a list of leaves an indexed tree has a root. No other list has it, be it longer, shorter or
in another order, unless two different strings hashed to build the two trees have the same
digest. -/
theorem Scheme.commits_to_leaves {leaves : List Word256} (hne : leaves ≠ []) :
    ∃ root, indexed.root? leaves = some root ∧
      ∀ leaves', indexed.root? leaves' = some root →
        ¬Collision (indexed.treeStrings leaves ++ indexed.treeStrings leaves') →
          leaves' = leaves := by
  obtain ⟨root, hroot⟩ := Merkle.exists_root? indexed.combine (mt List.map_eq_nil_iff.mp hne)
  refine ⟨root, hroot, ?_⟩
  intro leaves' hroot' hfree
  obtain ⟨o, htree, hdigest, hleaves⟩ := Merkle.Origin.exists_of_root? hroot
  obtain ⟨o', htree', hdigest', hleaves'⟩ := Merkle.Origin.exists_of_root? hroot'
  have hsame : o' = o := Merkle.Origin.eq_of_digest_eq hfree
    (fun _ hx => List.mem_append_right _
      (Merkle.Origin.mem_treeStrings (Merkle.mem_nodes_of_root? htree') hx))
    (fun _ hx => List.mem_append_left _
      (Merkle.Origin.mem_treeStrings (Merkle.mem_nodes_of_root? htree) hx))
    (hdigest'.trans hdigest.symm)
  rw [← hleaves', hsame, hleaves]

/-- With the last leaf once more, a list of three leaves has another root. -/
theorem Scheme.commits_to_leaves_sample :
    Sample.leaves ≠ [] ∧
      ¬Collision (indexed.treeStrings Sample.leaves ++
        indexed.treeStrings (Sample.leaves ++ [Sample.uniform 5])) ∧
      indexed.root? (Sample.leaves ++ [Sample.uniform 5]) ≠ indexed.root? Sample.leaves := by
  have hne : Sample.leaves ≠ [] := by decide
  have hfree : ¬Collision (indexed.treeStrings Sample.leaves ++
      indexed.treeStrings (Sample.leaves ++ [Sample.uniform 5])) := by
    unfold Collision
    decide +kernel
  obtain ⟨root, hroot, hone⟩ := commits_to_leaves hne
  refine ⟨hne, hfree, ?_⟩
  intro hsame
  have hleaves := hone _ (hsame.trans hroot) hfree
  exact absurd hleaves (by decide)

end TokenBridge
