import TokenBridge.Proofs.CommittedLeaves

/-!
# What an accepted indexed path shows of its position

A path claims a position and a count of leaves, and the root holds neither. What is hashed on the
way up depends on the siblings and on the side on which each of them stands; a level where the node
moves up alone leaves no trace. So an accepted path shows the sides of a leaf of the tree, and any
other position and count with the same sides are accepted as well. Only where the count is that of
the tree, the position is that of the leaf.
-/

namespace TokenBridge

namespace Merkle

/-- Where a sibling stands beside a node. -/
inductive Side where
  | left
  | right
  deriving DecidableEq

/-- The side on which the partner of a position stands. -/
def Side.ofPosition (i : Nat) : Side := if i % 2 = 0 then .right else .left

/-- What is hashed for a node and the sibling on one side of it. -/
def stepInput (node : Word256) : Side × Word256 → Bytes
  | (.left, sibling) => nodeInput sibling node
  | (.right, sibling) => nodeInput node sibling

/-- The node that is reached from a node past siblings on given sides. -/
def rise (node : Word256) : List (Side × Word256) → Word256
  | [] => node
  | step :: rest => rise (keccak256 (stepInput node step)) rest

/-- What is hashed on that way. -/
def riseStrings (node : Word256) : List (Side × Word256) → List Bytes
  | [] => []
  | step :: rest => stepInput node step :: riseStrings (keccak256 (stepInput node step)) rest

/-- The sides of the siblings on the way that is walked along a position and a width. Where a node
moves up alone there is none. -/
def sides (width index : Nat) : List Side :=
  if width ≤ 1 then []
  else if index = width - 1 ∧ width % 2 = 1 then sides ((width + 1) / 2) (index / 2)
  else Side.ofPosition index :: sides ((width + 1) / 2) (index / 2)
termination_by width
decreasing_by all_goals omega

section

variable {α β : Type} {width index : Nat} {node sibling : Word256} {step : Side × Word256}
  {steps : List (Side × Word256)}

theorem sides_of_le (h : width ≤ 1) : sides width index = [] := by
  rw [sides, if_pos h]

theorem sides_of_alone (hopen : 1 < width) (halone : index = width - 1 ∧ width % 2 = 1) :
    sides width index = sides ((width + 1) / 2) (index / 2) := by
  rw [sides, if_neg (Nat.not_le.mpr hopen), if_pos halone]

theorem sides_of_paired (hopen : 1 < width) (hpaired : ¬(index = width - 1 ∧ width % 2 = 1)) :
    sides width index = Side.ofPosition index :: sides ((width + 1) / 2) (index / 2) := by
  rw [sides, if_neg (Nat.not_le.mpr hopen), if_neg hpaired]

theorem stepInput_ofPosition (i : Nat) (node sibling : Word256) :
    stepInput node (Side.ofPosition i, sibling) =
      nodeInput (inPlace i node sibling).1 (inPlace i node sibling).2 := by
  unfold Side.ofPosition inPlace
  split
  · rfl
  · rfl

theorem rise_append_singleton (node : Word256) (steps : List (Side × Word256))
    (step : Side × Word256) :
    rise node (steps ++ [step]) = keccak256 (stepInput (rise node steps) step) := by
  induction steps generalizing node with
  | nil => rfl
  | cons first rest ih => rw [List.cons_append, rise, ih, rise]

theorem riseStrings_append_singleton (node : Word256) (steps : List (Side × Word256))
    (step : Side × Word256) :
    riseStrings node (steps ++ [step]) =
      riseStrings node steps ++ [stepInput (rise node steps) step] := by
  induction steps generalizing node with
  | nil => rfl
  | cons first rest ih =>
    rw [List.cons_append, riseStrings, ih, riseStrings, rise, List.cons_append]

theorem siblings_map (f : α → β) (levels : List (List α)) (i : Nat) :
    siblings (levels.map (List.map f)) i = (siblings levels i).map f := by
  induction levels generalizing i with
  | nil => rfl
  | cons level rest ih =>
    cases rest with
    | nil => rfl
    | cons above rest =>
      have hrest := ih (i / 2)
      rw [List.map_cons] at hrest
      simp only [List.map_cons, siblings, hrest, List.getElem?_map, List.map_append]
      cases level[partner i]? with
      | none => rfl
      | some sibling => rfl

end

namespace Origin

/-- The way up to a node from a leaf below it, past the digests of the other halves. -/
inductive Route : Origin → List (Side × Word256) → Word256 → Prop
  | leaf (word) : Route (.leaf word) [] word
  | left {left right steps word} (h : Route left steps word) :
      Route (.pair left right) (steps ++ [(.right, right.digest)]) word
  | right {left right steps word} (h : Route right steps word) :
      Route (.pair left right) (steps ++ [(.left, left.digest)]) word

variable {o o' : Origin} {level : List Origin} {words : List Word256} {hashed : List Bytes}
  {i : Nat} {word : Word256} {steps : List (Side × Word256)}

/-- A way up to a node leads to its digest. -/
theorem Route.rise_eq (h : o.Route steps word) : rise (hashLeaf word) steps = o.digest := by
  induction h with
  | leaf word => rfl
  | left _ ih =>
    rw [rise_append_singleton, ih]
    rfl
  | right _ ih =>
    rw [rise_append_singleton, ih]
    rfl

/-- Without a collision, whatever leads from a leaf to the digest of a node is a way up to it. -/
theorem route_of_rise (hfree : ¬Collision hashed) (ho : ∀ x ∈ o.strings, x ∈ hashed)
    (hword : leafInput word ∈ hashed) (hway : ∀ x ∈ riseStrings (hashLeaf word) steps, x ∈ hashed)
    (h : rise (hashLeaf word) steps = o.digest) : o.Route steps word := by
  -- The last string on the way is that of the node itself, which shows both of its halves.
  induction steps using List.reverseRecOn generalizing o with
  | nil =>
    rw [digest_eq] at h
    have hinput := eq_of_not_collision hfree hword (ho _ o.input_mem_strings) h
    cases o with
    | leaf word' =>
      obtain rfl := leafInput_inj hinput
      exact Route.leaf word
    | pair left right => exact absurd hinput.symm (input_pair_ne_input_leaf left right word)
  | append_singleton steps step ih =>
    rw [riseStrings_append_singleton] at hway
    rw [rise_append_singleton, digest_eq] at h
    have hbelow := fun x hx => hway x (List.mem_append_left _ hx)
    have hlast := hway _ (List.mem_append_right _ (List.mem_singleton_self _))
    have hinput := eq_of_not_collision hfree hlast (ho _ o.input_mem_strings) h
    obtain ⟨side, sibling⟩ := step
    cases o with
    | leaf word' =>
      cases side with
      | left => exact absurd hinput (Scheme.pairInput_ne_leafInput .indexed _ _ word')
      | right => exact absurd hinput (Scheme.pairInput_ne_leafInput .indexed _ _ word')
    | pair left right =>
      simp only [strings, List.mem_cons, List.mem_append] at ho
      cases side with
      | left =>
        obtain ⟨rfl, hnode⟩ := nodeInput_inj hinput
        exact Route.right (ih (fun x hx => ho x (.inr (.inr hx))) hbelow hnode)
      | right =>
        obtain ⟨hnode, rfl⟩ := nodeInput_inj hinput
        exact Route.left (ih (fun x hx => ho x (.inr (.inl hx))) hbelow hnode)

/-- The step past the partner of a position, if there is one. -/
def step (level : List Origin) (i : Nat) : List (Side × Word256) :=
  (level[partner i]?.toList).map fun sibling => (Side.ofPosition i, sibling.digest)

/-- The steps from a position of a level to the root. -/
def ascent (level : List Origin) (i : Nat) : List (Side × Word256) :=
  if level.length ≤ 1 then [] else step level i ++ ascent (pairUp pair level) (i / 2)
termination_by level.length
decreasing_by rw [length_pairUp]; omega

theorem ascent_of_le (h : level.length ≤ 1) : ascent level i = [] := by
  rw [ascent, if_pos h]

theorem ascent_of_lt (h : 1 < level.length) :
    ascent level i = step level i ++ ascent (pairUp pair level) (i / 2) := by
  rw [ascent, if_neg (Nat.not_le.mpr h)]

/-- The sides on the way to the root depend on the width alone. -/
theorem map_fst_ascent (hi : i < level.length) :
    (ascent level i).map Prod.fst = sides level.length i := by
  induction level using levels.induct pair generalizing i with
  | case1 level hsingle => rw [ascent_of_le hsingle, sides_of_le hsingle, List.map_nil]
  | case2 level hmany ih =>
    have hlt := Nat.lt_of_not_le hmany
    have hlength := length_pairUp pair level
    have habove := ih (i := i / 2) (by omega)
    rw [hlength] at habove
    have halone := getElem?_partner_eq_none_iff hi
    rw [ascent_of_lt hlt, List.map_append, habove, step]
    cases hpartner : level[partner i]? with
    | none =>
      rw [sides_of_alone hlt (halone.mp hpartner)]
      rfl
    | some sibling =>
      rw [sides_of_paired hlt ?_]
      · rfl
      · rw [← halone, hpartner]
        exact Option.some_ne_none sibling

/-- Past the siblings of the position. -/
theorem map_snd_ascent (level : List Origin) (i : Nat) :
    (ascent level i).map Prod.snd = (siblings (levels pair level) i).map digest := by
  induction level using levels.induct pair generalizing i with
  | case1 level hsingle =>
    rw [ascent_of_le hsingle, siblings_of_le hsingle]
    rfl
  | case2 level hmany ih =>
    have hlt := Nat.lt_of_not_le hmany
    rw [ascent_of_lt hlt, siblings_of_lt hlt, List.map_append, List.map_append, ih, step,
      List.map_map]
    rfl

/-- A way up to a node of the next level starts below a node of this one, and goes past its partner
if it has one. -/
theorem route_pairUp_iff :
    (∃ o, (pairUp pair level)[i]? = some o ∧ o.Route steps word) ↔
      ∃ j o low, j / 2 = i ∧ level[j]? = some o ∧ o.Route low word ∧
        steps = low ++ step level j := by
  constructor
  · rintro ⟨o, ho, hroute⟩
    rw [getElem?_pairUp, Option.map_eq_some_iff] at ho
    obtain ⟨a, ha, rfl⟩ := ho
    have heven : partner (2 * i) = 2 * i + 1 := by rw [partner, if_pos (by omega)]
    have hodd : partner (2 * i + 1) = 2 * i := by rw [partner, if_neg (by omega)]; omega
    cases hb : level[2 * i + 1]? with
    | none =>
      rw [hb] at hroute
      refine ⟨2 * i, a, steps, by omega, ha, hroute, ?_⟩
      rw [step, heven, hb, Option.toList_none, List.map_nil, List.append_nil]
    | some b =>
      rw [hb] at hroute
      cases hroute with
      | left h =>
        refine ⟨2 * i, a, _, by omega, ha, h, ?_⟩
        rw [step, heven, hb, Side.ofPosition, if_pos (by omega)]
        rfl
      | right h =>
        refine ⟨2 * i + 1, b, _, by omega, hb, h, ?_⟩
        rw [step, hodd, ha, Side.ofPosition, if_neg (by omega)]
        rfl
  · rintro ⟨j, o, low, rfl, ho, hroute, rfl⟩
    have hparent := getElem?_pairUp_half pair ho
    refine ⟨_, hparent, ?_⟩
    rw [step]
    cases level[partner j]? with
    | none =>
      rw [Option.toList_none, List.map_nil, List.append_nil]
      exact hroute
    | some sibling =>
      unfold Side.ofPosition inPlace
      by_cases heven : j % 2 = 0
      · simp only [if_pos heven]
        exact Route.left hroute
      · simp only [if_neg heven]
        exact Route.right hroute

/-- A way up to the root starts below a node of the level, and goes on from its position. -/
theorem route_iff_of_root? (hroot : root? pair level = some o) :
    o.Route steps word ↔
      ∃ i o' low, level[i]? = some o' ∧ o'.Route low word ∧ steps = low ++ ascent level i := by
  induction level using levels.induct pair generalizing steps with
  | case1 level hsingle =>
    rw [root?_of_le hsingle, List.head?_eq_getElem?] at hroot
    simp only [ascent_of_le hsingle, List.append_nil]
    constructor
    · intro hroute
      exact ⟨0, o, steps, hroot, hroute, rfl⟩
    · rintro ⟨i, o', _, ho', hroute, rfl⟩
      obtain ⟨rfl, _⟩ := eq_singleton_of_getElem? hsingle ho'
      rwa [← Option.some.inj (ho'.symm.trans hroot)]
  | case2 level hmany ih =>
    have hlt := Nat.lt_of_not_le hmany
    rw [root?_of_lt hlt] at hroot
    rw [ih hroot]
    constructor
    · rintro ⟨i, o', high, ho', hroute, rfl⟩
      obtain ⟨j, o'', low, rfl, ho'', hlow, rfl⟩ := route_pairUp_iff.mp ⟨o', ho', hroute⟩
      refine ⟨j, o'', low, ho'', hlow, ?_⟩
      rw [ascent_of_lt hlt, List.append_assoc]
    · rintro ⟨j, o'', low, ho'', hlow, rfl⟩
      obtain ⟨o', ho', hroute⟩ := route_pairUp_iff.mpr ⟨j, o'', low, rfl, ho'', hlow, rfl⟩
      refine ⟨j / 2, o', _, ho', hroute, ?_⟩
      rw [ascent_of_lt hlt, List.append_assoc]

/-- The siblings of a leaf are those past which the way from it goes. -/
theorem siblings_eq_map_ascent (words : List Word256) (k : Nat) :
    siblings (levels Scheme.indexed.combine (Scheme.indexed.bottom words)) k =
      (ascent (words.map leaf) k).map Prod.snd := by
  rw [bottom_eq_map, levels_map digest_pair, siblings_map, map_snd_ascent]

/-- The sides on the way from a leaf depend on how many leaves there are. -/
theorem map_fst_ascent_leaves {k : Nat} (hk : k < words.length) :
    (ascent (words.map leaf) k).map Prod.fst = sides words.length k := by
  have hwidth : k < (words.map leaf).length := by rwa [List.length_map]
  have hsides := map_fst_ascent hwidth
  rwa [List.length_map] at hsides

/-- Over leaves, a way up to the root is the way from one of their positions. -/
theorem route_iff_of_leaves (hroot : root? pair (words.map leaf) = some o) :
    o.Route steps word ↔
      ∃ k, words[k]? = some word ∧ steps = ascent (words.map leaf) k := by
  rw [route_iff_of_root? hroot]
  constructor
  · rintro ⟨k, o', low, ho', hroute, rfl⟩
    rw [List.getElem?_map, Option.map_eq_some_iff] at ho'
    obtain ⟨word', hword', rfl⟩ := ho'
    cases hroute
    exact ⟨k, hword', List.nil_append _⟩
  · rintro ⟨k, hword, rfl⟩
    refine ⟨k, leaf word, [], ?_, Route.leaf word, (List.nil_append _).symm⟩
    rw [List.getElem?_map, hword]
    rfl

end Origin

end Merkle

namespace Scheme

section

variable {width index : Nat} {node top : Word256} {steps : List (Merkle.Side × Word256)}
  {siblings : List Word256}

/-- A walk past as many siblings as it has sides goes up past each of them on its side. -/
theorem climb_eq_rise (hsides : steps.map Prod.fst = Merkle.sides width index) :
    climb width index node (steps.map Prod.snd) = some (Merkle.rise node steps) ∧
      climbStrings width index node (steps.map Prod.snd) = Merkle.riseStrings node steps := by
  induction width, index using Merkle.sides.induct generalizing node steps with
  | case1 width index hend =>
    rw [Merkle.sides_of_le hend, List.map_eq_nil_iff] at hsides
    rw [hsides, climb_of_le hend, climbStrings.eq_def, if_pos hend]
    exact ⟨rfl, rfl⟩
  | case2 width index hopen halone ih =>
    have hlt := Nat.lt_of_not_le hopen
    rw [Merkle.sides_of_alone hlt halone] at hsides
    rw [climb_of_alone hlt halone, climbStrings_of_alone hlt halone]
    exact ih hsides
  | case3 width index hopen hpaired ih =>
    have hlt := Nat.lt_of_not_le hopen
    rw [Merkle.sides_of_paired hlt hpaired] at hsides
    obtain ⟨⟨_, sibling⟩, rest, rfl, rfl, hrest⟩ := List.map_eq_cons_iff.mp hsides
    rw [List.map_cons, climb_cons hlt hpaired, climbStrings_cons hlt hpaired, Merkle.rise,
      Merkle.riseStrings, Merkle.stepInput_ofPosition]
    obtain ⟨hclimb, hstrings⟩ := ih hrest
    exact ⟨hclimb, congrArg _ hstrings⟩

/-- A walk that comes to its end has taken one sibling for each of its sides. -/
theorem exists_steps_of_climb (h : climb width index node siblings = some top) :
    ∃ steps : List (Merkle.Side × Word256),
      steps.map Prod.fst = Merkle.sides width index ∧ steps.map Prod.snd = siblings := by
  induction width, index using Merkle.sides.induct generalizing node siblings with
  | case1 width index hend =>
    rw [climb_of_le hend] at h
    split at h
    · next hnone =>
      exact ⟨[], (Merkle.sides_of_le hend).symm, hnone.symm⟩
    · cases h
  | case2 width index hopen halone ih =>
    have hlt := Nat.lt_of_not_le hopen
    rw [climb_of_alone hlt halone] at h
    rw [Merkle.sides_of_alone hlt halone]
    exact ih h
  | case3 width index hopen hpaired ih =>
    have hlt := Nat.lt_of_not_le hopen
    cases siblings with
    | nil =>
      rw [climb_nil hlt hpaired] at h
      cases h
    | cons sibling later =>
      rw [climb_cons hlt hpaired] at h
      obtain ⟨rest, hsides, hlater⟩ := ih h
      rw [Merkle.sides_of_paired hlt hpaired]
      exact ⟨(Merkle.Side.ofPosition index, sibling) :: rest,
        congrArg _ hsides, congrArg _ hlater⟩

end

section Accepted

variable {leaves : List Word256} {root leaf : Word256} {path : MerklePath}

/-- An accepted path goes up past its siblings, each on its side. -/
theorem verify_indexed_iff_rise :
    indexed.verify root leaf path = true ↔
      path.leafIndex < path.leafCount ∧ ∃ steps : List (Merkle.Side × Word256),
        path.words? = some (steps.map Prod.snd) ∧
        steps.map Prod.fst = Merkle.sides path.leafCount.toNat path.leafIndex.toNat ∧
        Merkle.rise (Merkle.hashLeaf leaf) steps = root := by
  rw [verify_indexed_iff]
  refine and_congr_right fun _ => ?_
  constructor
  · rintro ⟨_, hwords, hclimb⟩
    obtain ⟨steps, hsides, rfl⟩ := exists_steps_of_climb hclimb
    rw [(climb_eq_rise hsides).1] at hclimb
    exact ⟨steps, hwords, hsides, Option.some.inj hclimb⟩
  · rintro ⟨steps, hwords, hsides, hrise⟩
    refine ⟨_, hwords, ?_⟩
    rw [(climb_eq_rise hsides).1, hrise]

/-- To check a path is to hash its leaf and then what is hashed on the way up. -/
theorem pathStrings_eq_riseStrings {steps : List (Merkle.Side × Word256)}
    (hlt : path.leafIndex < path.leafCount) (hwords : path.words? = some (steps.map Prod.snd))
    (hsides : steps.map Prod.fst = Merkle.sides path.leafCount.toNat path.leafIndex.toNat) :
    indexed.pathStrings leaf path =
      Merkle.leafInput leaf :: Merkle.riseStrings (Merkle.hashLeaf leaf) steps := by
  simp only [pathStrings, hwords, if_pos hlt, (climb_eq_rise hsides).2]

/-- The path that is built for a position holds the siblings on the way from there. -/
theorem siblings_of_path? {k : Nat} (hk : k < leaves.length) :
    (indexed.path? leaves k).map MerklePath.siblings =
      some (((Merkle.Origin.ascent (leaves.map .leaf) k).map Prod.snd).map Word256.bytes) := by
  rw [path?, if_pos hk, Option.map_some, Merkle.Origin.siblings_eq_map_ascent]

/-- Without a collision, a path is accepted for a leaf exactly if it has the siblings of the path
that is built for some position of the leaf, and meets them on the same sides. -/
theorem verify_indexed_iff_sides (hroot : indexed.root? leaves = some root)
    (hfree : ¬Collision (indexed.treeStrings leaves ++ indexed.pathStrings leaf path)) :
    indexed.verify root leaf path = true ↔
      path.leafIndex < path.leafCount ∧ ∃ k, leaves[k]? = some leaf ∧
        (indexed.path? leaves k).map MerklePath.siblings = some path.siblings ∧
        Merkle.sides path.leafCount.toNat path.leafIndex.toNat = Merkle.sides leaves.length k := by
  obtain ⟨o, htree, rfl, _⟩ := Merkle.Origin.exists_of_root? hroot
  rw [verify_indexed_iff_rise]
  refine and_congr_right fun hlt => ?_
  constructor
  · rintro ⟨steps, hwords, hsides, hrise⟩
    rw [pathStrings_eq_riseStrings hlt hwords hsides] at hfree
    have hroute := Merkle.Origin.route_of_rise hfree
      (fun x hx => List.mem_append_left _
        (Merkle.Origin.mem_treeStrings (Merkle.mem_nodes_of_root? htree) hx))
      (List.mem_append_right _ List.mem_cons_self)
      (fun x hx => List.mem_append_right _ (List.mem_cons_of_mem _ hx)) hrise
    obtain ⟨k, hk, rfl⟩ := (Merkle.Origin.route_iff_of_leaves htree).mp hroute
    obtain ⟨hindex, _⟩ := List.getElem?_eq_some_iff.mp hk
    refine ⟨k, hk, ?_, ?_⟩
    · rw [siblings_of_path? hindex, MerklePath.words?_eq_some_iff.mp hwords]
    · rw [← hsides, Merkle.Origin.map_fst_ascent_leaves hindex]
  · rintro ⟨k, hk, hgiven, hsides⟩
    obtain ⟨hindex, _⟩ := List.getElem?_eq_some_iff.mp hk
    rw [siblings_of_path? hindex, Option.some.injEq] at hgiven
    refine ⟨Merkle.Origin.ascent (leaves.map .leaf) k, ?_, ?_, ?_⟩
    · exact MerklePath.words?_eq_some_iff.mpr hgiven.symm
    · rw [hsides, Merkle.Origin.map_fst_ascent_leaves hindex]
    · exact ((Merkle.Origin.route_iff_of_leaves htree).mpr ⟨k, hk, rfl⟩).rise_eq

end Accepted

/-- Over distinct leaves, the paths that are accepted for one of them have the siblings of the path
that is built for its position, and any position and count that have the same sides. Such a path
claims the position of the leaf and the number of leaves exactly if it counts them rightly. All this
holds unless two different strings hashed to build the tree and to check the path have the same
digest. -/
theorem accepted_iff_same_sides {leaves : List Word256} (hdistinct : leaves.Nodup) {j : Nat}
    (hj : j < leaves.length) :
    ∃ root, indexed.root? leaves = some root ∧
      ∀ path, ¬Collision (indexed.treeStrings leaves ++ indexed.pathStrings leaves[j] path) →
        (indexed.verify root leaves[j] path = true ↔
          path.leafIndex < path.leafCount ∧
            (indexed.path? leaves j).map MerklePath.siblings = some path.siblings ∧
            Merkle.sides path.leafCount.toNat path.leafIndex.toNat =
              Merkle.sides leaves.length j) ∧
        (indexed.verify root leaves[j] path = true →
          (path.leafIndex.toNat = j ∧ path.leafCount.toNat = leaves.length ↔
            path.leafCount.toNat = leaves.length)) := by
  have hne : leaves ≠ [] := List.ne_nil_of_length_pos (Nat.zero_lt_of_lt hj)
  obtain ⟨root, hroot⟩ := Merkle.exists_root? indexed.combine (mt List.map_eq_nil_iff.mp hne)
  have hleaf : leaves[j]? = some leaves[j] := List.getElem?_eq_getElem hj
  have honly : ∀ k, leaves[k]? = some leaves[j] → k = j := by
    intro k hk
    obtain ⟨hlt, _⟩ := List.getElem?_eq_some_iff.mp hk
    exact (List.getElem?_inj hlt hdistinct).mp (hk.trans hleaf.symm)
  refine ⟨root, hroot, fun path hfree => ⟨?_, fun haccepted => ⟨And.right, fun hcount => ?_⟩⟩⟩
  · rw [verify_indexed_iff_sides hroot hfree]
    refine and_congr_right fun _ => ⟨?_, fun hsame => ⟨j, hleaf, hsame⟩⟩
    rintro ⟨k, hk, hsame⟩
    rwa [honly k hk] at hsame
  · obtain ⟨hindex, _⟩ := path?_of_verify_indexed hroot haccepted hfree hcount
    exact ⟨honly _ hindex, hcount⟩

end Scheme

namespace Sample

/-- The last path once more, with the position and the count of a tree over two leaves. -/
def shiftedPath : MerklePath := { lastPath with leafIndex := 1, leafCount := 2 }

/-- The last of three moves up alone, so from there on it takes the way of the last of two. -/
theorem sides_shiftedPath : Merkle.sides 2 1 = Merkle.sides 3 2 := by
  have hopen : 1 < 3 := by decide
  exact (Merkle.sides_of_alone hopen ⟨rfl, rfl⟩).symm

theorem pathStrings_shiftedPath :
    Scheme.indexed.pathStrings (uniform 5) shiftedPath =
      Scheme.indexed.pathStrings (uniform 5) lastPath := by
  have hwords : lastPath.words? =
      some [Merkle.hashNode (Merkle.hashLeaf (uniform 3)) (Merkle.hashLeaf (uniform 4))] :=
    MerklePath.words?_eq_some_iff.mpr rfl
  have hshifted : shiftedPath.words? = _ := hwords
  simp only [Scheme.pathStrings, hwords, hshifted]
  rw [if_pos (by decide), if_pos (by decide)]
  have hopen : 1 < 3 := by decide
  exact congrArg _ (Scheme.climbStrings_of_alone hopen ⟨rfl, rfl⟩).symm

theorem shiftedPath_free : ¬Collision (Scheme.indexed.treeStrings leaves ++
    Scheme.indexed.pathStrings (uniform 5) shiftedPath) := by
  rw [pathStrings_shiftedPath]
  exact lastPath_free

/-- It holds the one sibling of the path that is built for the last leaf. -/
theorem siblings_shiftedPath :
    (Scheme.indexed.path? leaves 2).map MerklePath.siblings = some shiftedPath.siblings := by
  have hthree : 1 < (Scheme.indexed.bottom leaves).length := by decide
  rw [Scheme.path?, if_pos (by decide), Merkle.siblings_of_lt hthree,
    Merkle.siblings_of_lt (by decide), Merkle.siblings_of_le (by decide)]
  rfl

end Sample

/-- The last of three leaves has its one sibling on the same side as the last of two, so the path is
accepted. -/
theorem Scheme.accepted_iff_same_sides_sample :
    Sample.leaves.Nodup ∧ 2 < Sample.leaves.length ∧
      ∃ root, indexed.root? Sample.leaves = some root ∧
        indexed.verify root (Sample.uniform 5) Sample.shiftedPath = true := by
  have hdistinct : Sample.leaves.Nodup := by decide
  have hindex : 2 < Sample.leaves.length := by decide
  obtain ⟨root, hroot, haccepted⟩ := accepted_iff_same_sides hdistinct hindex
  obtain ⟨hiff, _⟩ := haccepted Sample.shiftedPath Sample.shiftedPath_free
  refine ⟨hdistinct, hindex, root, hroot, hiff.mpr ⟨?_, ?_, ?_⟩⟩
  · decide
  · exact Sample.siblings_shiftedPath
  · exact Sample.sides_shiftedPath

/-- An accepted path may claim a position that is not that of its leaf, and a count that is not that
of the leaves. -/
theorem Scheme.not_binds_position :
    ¬ ∀ (leaves : List Word256) (root leaf : Word256) (j : Nat) (path : MerklePath),
      leaves.Nodup → leaves[j]? = some leaf → indexed.root? leaves = some root →
      indexed.verify root leaf path = true →
      ¬Collision (indexed.treeStrings leaves ++ indexed.pathStrings leaf path) →
        path.leafIndex.toNat = j ∧ path.leafCount.toNat = leaves.length := by
  intro hbinds
  have hdistinct : Sample.leaves.Nodup := by decide
  obtain ⟨root, hroot⟩ := Merkle.exists_root? indexed.combine
    (mt List.map_eq_nil_iff.mp (by decide : Sample.leaves ≠ []))
  have haccepted : indexed.verify root (Sample.uniform 5) Sample.shiftedPath = true := by
    refine (verify_indexed_iff_sides hroot Sample.shiftedPath_free).mpr ⟨by decide, 2, rfl, ?_, ?_⟩
    · exact Sample.siblings_shiftedPath
    · exact Sample.sides_shiftedPath
  obtain ⟨hposition, _⟩ :=
    hbinds Sample.leaves root _ 2 _ hdistinct rfl hroot haccepted Sample.shiftedPath_free
  exact absurd hposition (by decide)

end TokenBridge
