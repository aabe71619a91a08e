import TokenBridge.Keccak
import TokenBridge.Merkle.Tree

/-!
# Inclusion schemes

Each kind of node is the digest of a byte string of its own form: two words in ascending order, a
leaf behind the byte `00`, or two words in their places behind the byte `01`. The strings are named
apart from their digests because what a tree commits to depends on which strings were hashed.

A scheme fixes how the leaves become the bottom level of a tree, how nodes are combined, and which
paths are accepted. Under `sortedPair` the leaves are nodes themselves and a path is folded with
sorted pairs. Under `indexed` leaves and inner nodes are hashed differently, and the path is walked
along the position and width that it claims.
-/

namespace TokenBridge

/-! ## Nodes -/

namespace Merkle

/-- What is hashed for a pair whose order does not matter. -/
def sortedPairInput (a b : Word256) : Bytes :=
  if (compare a b).isLE then a.bytes ++ b.bytes else b.bytes ++ a.bytes

/-- What is hashed for a leaf that stays apart from inner nodes. -/
def leafInput (leaf : Word256) : Bytes := 0x00 :: leaf.bytes

/-- What is hashed for an inner node whose children have their places. -/
def nodeInput (left right : Word256) : Bytes := 0x01 :: (left.bytes ++ right.bytes)

/-- The digest of a pair whose order does not matter. -/
def hashSortedPair (a b : Word256) : Word256 := keccak256 (sortedPairInput a b)

/-- The digest of a leaf that stays apart from inner nodes. -/
def hashLeaf (leaf : Word256) : Word256 := keccak256 (leafInput leaf)

/-- The digest of an inner node whose children have their places. -/
def hashNode (left right : Word256) : Word256 := keccak256 (nodeInput left right)

@[simp] theorem length_sortedPairInput (a b : Word256) : (sortedPairInput a b).length = 64 := by
  unfold sortedPairInput
  split <;> simp [a.length_bytes, b.length_bytes]

@[simp] theorem length_leafInput (leaf : Word256) : (leafInput leaf).length = 33 := by
  simp [leafInput, leaf.length_bytes]

@[simp] theorem length_nodeInput (left right : Word256) :
    (nodeInput left right).length = 65 := by
  simp [nodeInput, left.length_bytes, right.length_bytes]

/-- The order in which a pair is given does not matter. -/
theorem sortedPairInput_comm (a b : Word256) : sortedPairInput a b = sortedPairInput b a := by
  have hswap : compare a b = (compare b a).swap := Std.OrientedOrd.eq_swap
  unfold sortedPairInput
  rw [hswap]
  cases h : compare b a with
  | lt | gt => rfl
  | eq => rw [Std.LawfulEqOrd.eq_of_compare h, ite_self, ite_self]

theorem hashSortedPair_comm (a b : Word256) : hashSortedPair a b = hashSortedPair b a :=
  congrArg keccak256 (sortedPairInput_comm a b)

end Merkle

/-! ## Paths and schemes -/

/-- The place of a leaf and the nodes beside its way to the root. Nothing is known of the lengths of
the siblings before they are used. -/
structure MerklePath where
  leafIndex : UInt64
  leafCount : UInt64
  siblings : List Bytes
  deriving DecidableEq

/-- The siblings as words, if all of them are. -/
def MerklePath.words? (path : MerklePath) : Option (List Word256) :=
  path.siblings.mapM Word256.ofBytes?

/-- The siblings are words exactly if they are the bytes of words. -/
theorem MerklePath.words?_eq_some_iff {path : MerklePath} {words : List Word256} :
    path.words? = some words ↔ path.siblings = words.map Word256.bytes := by
  rw [words?]
  generalize path.siblings = siblings
  induction siblings generalizing words with
  | nil =>
    cases words with
    | nil => simp
    | cons w words => simp
  | cons bytes rest ih =>
    simp only [List.mapM_cons, Option.bind_eq_bind, Option.bind_eq_some_iff,
      Word256.ofBytes?_eq_some_iff, ih, Option.pure_def, Option.some.injEq]
    constructor
    · rintro ⟨w, rfl, words, rfl, rfl⟩
      rfl
    · intro h
      obtain ⟨w, words, rfl, hw, hrest⟩ := List.map_eq_cons_iff.mp h.symm
      exact ⟨w, hw, words, hrest.symm, rfl⟩

/-- A way to build trees over leaves and to check paths in them. -/
inductive Scheme where
  | sortedPair
  | indexed
  deriving DecidableEq

namespace Scheme

/-- The name of a scheme. -/
def tag : Scheme → String
  | sortedPair => "sorted_pair_keccak_v1"
  | indexed => "indexed_keccak_v2"

/-- The number of a scheme. -/
def version : Scheme → UInt8
  | sortedPair => 1
  | indexed => 2

/-- Every scheme. -/
def all : List Scheme := [sortedPair, indexed]

/-- The scheme of a name. -/
def ofTag? (tag : String) : Option Scheme := all.find? (·.tag = tag)

/-- The node at the bottom for a leaf. -/
def leafNode : Scheme → Word256 → Word256
  | sortedPair, leaf => leaf
  | indexed, leaf => Merkle.hashLeaf leaf

/-- The node above two nodes. -/
def combine : Scheme → Word256 → Word256 → Word256
  | sortedPair => Merkle.hashSortedPair
  | indexed => Merkle.hashNode

/-- The bottom level over the leaves. -/
def bottom (s : Scheme) (leaves : List Word256) : List Word256 := leaves.map s.leafNode

/-- The root over the leaves, if there is a leaf. -/
def root? (s : Scheme) (leaves : List Word256) : Option Word256 :=
  Merkle.root? s.combine (s.bottom leaves)

/-- The path of the leaf at a position, if there is one. -/
def path? (s : Scheme) (leaves : List Word256) (index : Nat) : Option MerklePath :=
  if index < leaves.length then
    some {
      leafIndex := UInt64.ofNat index
      leafCount := UInt64.ofNat leaves.length
      siblings :=
        (Merkle.siblings (Merkle.levels s.combine (s.bottom leaves)) index).map Word256.bytes }
  else none

/-- The node reached from a node at a position of a level of the given width. A last node of an odd
level moves up as it is; every other one takes the next sibling, on the left if its position is odd.
The way ends at width one, where no sibling may be left. -/
def climb (width index : Nat) (node : Word256) (siblings : List Word256) : Option Word256 :=
  if width ≤ 1 then if siblings = [] then some node else none
  else if index = width - 1 ∧ width % 2 = 1 then
    climb ((width + 1) / 2) (index / 2) node siblings
  else match siblings with
    | [] => none
    | sibling :: rest =>
      climb ((width + 1) / 2) (index / 2)
        (if index % 2 = 0 then Merkle.hashNode node sibling else Merkle.hashNode sibling node) rest
termination_by width
decreasing_by all_goals omega

section

variable {width index : Nat} {node sibling : Word256} {siblings : List Word256}

theorem climb_of_le (h : width ≤ 1) :
    climb width index node siblings = if siblings = [] then some node else none := by
  rw [climb.eq_def, if_pos h]

/-- A node without a partner moves up. -/
theorem climb_of_alone (hopen : 1 < width) (halone : index = width - 1 ∧ width % 2 = 1) :
    climb width index node siblings = climb ((width + 1) / 2) (index / 2) node siblings := by
  rw [climb.eq_def, if_neg (Nat.not_le.mpr hopen), if_pos halone]

/-- A node with a partner needs a sibling. -/
theorem climb_nil (hopen : 1 < width) (hpaired : ¬(index = width - 1 ∧ width % 2 = 1)) :
    climb width index node [] = none := by
  rw [climb.eq_def, if_neg (Nat.not_le.mpr hopen), if_neg hpaired]

/-- A node with a partner is combined with the next sibling. -/
theorem climb_cons (hopen : 1 < width) (hpaired : ¬(index = width - 1 ∧ width % 2 = 1)) :
    climb width index node (sibling :: siblings) =
      climb ((width + 1) / 2) (index / 2)
        (Merkle.hashNode (Merkle.inPlace index node sibling).1
          (Merkle.inPlace index node sibling).2) siblings := by
  rw [climb.eq_def, if_neg (Nat.not_le.mpr hopen), if_neg hpaired]
  by_cases heven : index % 2 = 0
  · simp only [if_pos heven, Merkle.inPlace]
  · simp only [if_neg heven, Merkle.inPlace]

end

/-- Does the path lead from the leaf to the root? -/
def verify (s : Scheme) (root leaf : Word256) (path : MerklePath) : Bool :=
  match s, path.words? with
  | _, none => false
  | sortedPair, some siblings => siblings.foldl Merkle.hashSortedPair leaf = root
  | indexed, some siblings =>
    path.leafIndex < path.leafCount ∧
      climb path.leafCount.toNat path.leafIndex.toNat (Merkle.hashLeaf leaf) siblings = some root

/-- A path is folded with sorted pairs up to the root. -/
theorem verify_sortedPair_iff {root leaf : Word256} {path : MerklePath} :
    sortedPair.verify root leaf path = true ↔
      ∃ siblings, path.words? = some siblings ∧
        siblings.foldl Merkle.hashSortedPair leaf = root := by
  unfold verify
  cases path.words? with
  | none => simp
  | some siblings => simp

/-- A path is walked along its position and width up to the root. -/
theorem verify_indexed_iff {root leaf : Word256} {path : MerklePath} :
    indexed.verify root leaf path = true ↔
      path.leafIndex < path.leafCount ∧ ∃ siblings, path.words? = some siblings ∧
        climb path.leafCount.toNat path.leafIndex.toNat (Merkle.hashLeaf leaf) siblings =
          some root := by
  unfold verify
  cases path.words? with
  | none => simp
  | some siblings => simp

end Scheme

end TokenBridge
