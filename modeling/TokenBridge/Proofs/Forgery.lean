import TokenBridge.Proofs.Encoding
import TokenBridge.Proofs.Hashed
import TokenBridge.Proofs.Run

/-!
# No forged withdrawals

Where the root of a tree of messages is committed, only these messages can be withdrawn, and only
under the scheme of the tree: anything else exhibits two strings with the same digest among those
that were hashed. The kinds of strings are told apart by their lengths, 33 bytes for a leaf, 64 or
65 for a pair, and more for a message that names an asset.
-/

namespace TokenBridge

namespace Scheme

variable {s s' : Scheme} {m m' : Message} {ms : List Message} {a b : Word256}

/-- The string whose digest is the node at the bottom for a message. -/
def bottomString : Scheme → Message → Bytes
  | sortedPair, m => m.encode
  | indexed, m => Merkle.leafInput m.leaf

/-- What is hashed to build the tree over messages. -/
def messageStrings (s : Scheme) (ms : List Message) : List Bytes :=
  ms.map Message.encode ++ s.treeStrings (ms.map Message.leaf)

theorem leafNode_leaf (s : Scheme) (m : Message) :
    s.leafNode m.leaf = keccak256 (s.bottomString m) := by
  cases s with
  | sortedPair => rfl
  | indexed => rfl

/-- The string for a bottom node is that of the leaf or the encoding itself. -/
theorem bottomString_mem (s : Scheme) (m : Message) :
    s.bottomString m ∈ m.encode :: s.leafInputs m.leaf := by
  cases s with
  | sortedPair => exact List.mem_cons_self
  | indexed => exact List.mem_cons_of_mem _ List.mem_cons_self

theorem bottomString_mem_messageStrings (hm : m ∈ ms) :
    s.bottomString m ∈ s.messageStrings ms := by
  rcases List.mem_cons.mp (s.bottomString_mem m) with heq | hleaf
  · rw [heq]
    exact List.mem_append_left _ (List.mem_map_of_mem hm)
  · apply List.mem_append_right
    exact leafInputs_subset_treeStrings (List.mem_map_of_mem hm) hleaf

/-- No pair is hashed as a string of the length of one for a bottom node. -/
theorem pairInput_ne_bottomString (hlong : 65 < m.encode.length) :
    s.pairInput a b ≠ s'.bottomString m := by
  intro heq
  have hlength := congrArg List.length heq
  have hpair := s.length_pairInput a b
  cases s' with
  | sortedPair =>
    simp only [bottomString] at hlength
    omega
  | indexed =>
    simp only [bottomString, Merkle.length_leafInput] at hlength
    omega

/-- The string for a bottom node tells the scheme and the leaf. -/
theorem bottomString_inj (hlong : 65 < m.encode.length) (hlong' : 65 < m'.encode.length)
    (h : s.bottomString m = s'.bottomString m') : s = s' ∧ m.leaf = m'.leaf := by
  have hlength := congrArg List.length h
  cases s with
  | sortedPair =>
    cases s' with
    | sortedPair => exact ⟨rfl, congrArg keccak256 h⟩
    | indexed =>
      simp only [bottomString, Merkle.length_leafInput] at hlength
      omega
  | indexed =>
    cases s' with
    | sortedPair =>
      simp only [bottomString, Merkle.length_leafInput] at hlength
      omega
    | indexed => exact ⟨rfl, Merkle.leafInput_inj h⟩

/-- The nodes at the bottom are the digests of the strings for the messages. -/
theorem exists_of_mem_bottom {node : Word256} (h : node ∈ s.bottom (ms.map Message.leaf)) :
    ∃ m ∈ ms, node = keccak256 (s.bottomString m) := by
  obtain ⟨leaf, hleaf, rfl⟩ := List.mem_map.mp h
  obtain ⟨m, hm, rfl⟩ := List.mem_map.mp hleaf
  exact ⟨m, hm, s.leafNode_leaf m⟩

/-- What is hashed to build a tree of messages and to check a path for another one. -/
def hashedStrings (s : Scheme) (ms : List Message) (s' : Scheme) (m : Message) (path : MerklePath) :
    List Bytes :=
  s.messageStrings ms ++ m.encode :: s'.pathStrings m.leaf path

section Accepted

variable {path : MerklePath}

theorem mem_hashedStrings_of_mem_messageStrings {x : Bytes} (hx : x ∈ s.messageStrings ms) :
    x ∈ s.hashedStrings ms s' m path :=
  List.mem_append_left _ hx

theorem bottomString_mem_hashedStrings {strings : List Bytes}
    (hpath : s'.pathStrings m.leaf path = s'.leafInputs m.leaf ++ strings) :
    s'.bottomString m ∈ s.hashedStrings ms s' m path := by
  apply List.mem_append_right
  rw [hpath]
  exact List.mem_append_left strings (s'.bottomString_mem m)

/-- Without a collision, a message whose node is in a tree of messages is one of them. -/
theorem mem_of_leafNode_mem_nodes (hlongs : ∀ m' ∈ ms, 65 < m'.encode.length)
    (hshorts : ∀ m' ∈ ms, m'.Short) (hlong : 65 < m.encode.length) (hshort : m.Short)
    (hfree : ¬Collision (s.hashedStrings ms s' m path))
    (hown : s'.bottomString m ∈ s.hashedStrings ms s' m path)
    (hnode : s'.leafNode m.leaf ∈ Merkle.nodes s.combine (s.bottom (ms.map Message.leaf))) :
    m ∈ ms ∧ s' = s := by
  rw [leafNode_leaf] at hnode
  rcases Merkle.mem_or_eq_of_mem_nodes hnode with hbottom | ⟨p, hp, heq⟩
  · obtain ⟨m', hm', heq⟩ := exists_of_mem_bottom hbottom
    have hstring := eq_of_not_collision hfree hown
      (mem_hashedStrings_of_mem_messageStrings (bottomString_mem_messageStrings hm')) heq
    obtain ⟨hscheme, hleaf⟩ := bottomString_inj hlong (hlongs m' hm') hstring
    have hencode : m.encode = m'.encode := by
      refine eq_of_not_collision hfree ?_ ?_ hleaf
      · exact List.mem_append_right _ List.mem_cons_self
      · exact List.mem_append_left _ (List.mem_append_left _ (List.mem_map_of_mem hm'))
    rw [Message.encode_inj hshort (hshorts m' hm') hencode]
    exact ⟨hm', hscheme⟩
  · have hpair : s.pairInput p.1 p.2 ∈ s.messageStrings ms :=
      List.mem_append_right _ (pairInput_mem_treeStrings hp)
    rw [combine_eq] at heq
    have hstring := eq_of_not_collision hfree hown
      (mem_hashedStrings_of_mem_messageStrings hpair) heq
    exact absurd hstring.symm (pairInput_ne_bottomString hlong)

/-- A message that is accepted under the root of a tree of messages is one of them, and the scheme
is that of the tree, unless two of the strings hashed collide. -/
theorem mem_of_verify {root : Word256} (hlongs : ∀ m' ∈ ms, 65 < m'.encode.length)
    (hshorts : ∀ m' ∈ ms, m'.Short) (hlong : 65 < m.encode.length) (hshort : m.Short)
    (hroot : s.root? (ms.map Message.leaf) = some root)
    (h : s'.verify root m.leaf path = true) :
    m ∈ ms ∧ s' = s ∨ Collision (s.hashedStrings ms s' m path) := by
  by_cases hfree : Collision (s.hashedStrings ms s' m path)
  · exact Or.inr hfree
  obtain ⟨strings, hpath, hascends⟩ := ascends_of_verify h
  have htree : ∀ x ∈ s.treeStrings (ms.map Message.leaf), x ∈ s.hashedStrings ms s' m path :=
    fun x hx => mem_hashedStrings_of_mem_messageStrings (List.mem_append_right _ hx)
  have hway : ∀ x ∈ strings, x ∈ s.hashedStrings ms s' m path := by
    intro x hx
    apply List.mem_append_right
    rw [hpath]
    exact List.mem_cons_of_mem _ (List.mem_append_right _ hx)
  have hown : s'.bottomString m ∈ s.hashedStrings ms s' m path :=
    bottomString_mem_hashedStrings hpath
  rcases hascends.mem_nodes hfree htree hway (Merkle.mem_nodes_of_root? hroot) with
    ⟨hnode, _⟩ | ⟨x, hx, hmem⟩
  · exact Or.inl (mem_of_leafNode_mem_nodes hlongs hshorts hlong hshort hfree hown hnode)
  · obtain ⟨m', hm', heq⟩ := exists_of_mem_bottom hmem
    obtain ⟨a, b, rfl⟩ := hascends.eq_pairInput hx
    have hstring := eq_of_not_collision hfree (hway _ hx)
      (mem_hashedStrings_of_mem_messageStrings (bottomString_mem_messageStrings hm')) heq
    exact absurd hstring (pairInput_ne_bottomString (hlongs m' hm'))

end Accepted

end Scheme

/-- Where the root of a tree of messages is committed, a withdrawal that succeeds is of one of these
messages and is checked under the scheme of the tree, unless two different strings hashed to build
the tree or to check the path have the same digest. -/
theorem mem_of_withdraw [AddressRules] {scheme : Scheme} {ms : List Message} {s t : Store}
    {c : Commitment} {env : Env} {sender : Address} {m : Message} {path : MerklePath}
    {height : UInt64} {receipt : Receipt} (hlongs : ∀ m' ∈ ms, 65 < m'.encode.length)
    (hshorts : ∀ m' ∈ ms, m'.Short) (hshort : m.Short)
    (hcommitted : s.commitments[height]? = some c)
    (hroot : scheme.root? (ms.map Message.leaf) = some c.root)
    (h : ((Request.command sender (.withdraw m path height)).run env).transact s =
      (.ok receipt, t)) :
    ∃ settings, s.settings = some settings ∧
      (m ∈ ms ∧ settings.scheme = scheme ∨
        Collision (scheme.hashedStrings ms settings.scheme m path)) := by
  have hstep := Step.of_yields rfl (Call.transact_eq_ok_iff.mp h)
  cases hstep with
  | withdraw _ hmessage hrelease =>
    obtain ⟨c', settings, hc', hsettings, _, hverify, _, _⟩ :=
      WithdrawalOrder.checkMessage_eq_ok_iff.mp hmessage
    obtain ⟨asset, _, hasset, _⟩ := WithdrawalOrder.checkRelease_eq_ok_iff.mp hrelease
    obtain rfl := Option.some.inj (hc'.symm.trans hcommitted)
    have hlong := Message.lt_length_encode hasset
    exact ⟨settings, hsettings, Scheme.mem_of_verify hlongs hshorts hlong hshort hroot hverify⟩

namespace Sample

def toBob : Message := { message with recipient := "bob", nonce := 8 }

def toCarol : Message := { message with recipient := "carol", nonce := 9 }

/-- Three messages, to three recipients. -/
def batch : List Message := [message, toBob, toCarol]

/-- The second message with another amount. -/
def forged : Message := { toBob with amount := ⟨91, by decide⟩ }

/-- The root of the indexed tree of the messages. -/
def batchRoot : Word256 := (Scheme.indexed.root? (batch.map Message.leaf)).getD .zero

/-- The path of the second message, between the first one and the third. -/
def batchPath : MerklePath where
  leafIndex := 1
  leafCount := 3
  siblings := [(Merkle.hashLeaf message.leaf).bytes, (Merkle.hashLeaf toCarol.leaf).bytes]

/-- A bridge under `indexed` in which a token is locked and the root is committed. -/
def batched : Store :=
  (((found { genesis with scheme := some .indexed }).transact .empty).2.play
    ([.command "root" (.bindAsset "cash" Word256.zero.bytes 6 6),
      .command "alice" (.deposit "cash" ⟨98, by decide⟩ Word256.zero.toHex),
      .command "root" (.commit 1 batchRoot.bytes 0)].map (env, ·))).2

/-- How it ends if a message is to be withdrawn on that path. -/
def withdrawn (m : Message) : Except Fault Receipt × Store :=
  ((Request.command "dave" (.withdraw m batchPath 1)).run env).transact batched

/-- The root is committed and the second message is paid out. Under neither scheme does anything
collide that is hashed for it or for the forged one. -/
theorem outcome_batched :
    Scheme.indexed.root? (batch.map Message.leaf) = some batchRoot ∧
      batched.commitments[(1 : UInt64)]? = some ⟨1, batchRoot, ⟨0⟩⟩ ∧
      (withdrawn toBob).1.isOk = true ∧
      ∀ m ∈ [toBob, forged], ∀ s ∈ Scheme.all,
        ¬Collision (Scheme.indexed.hashedStrings batch s m batchPath) := by
  unfold Collision
  decide +kernel

theorem short_batch : ∀ m ∈ forged :: batch, m.Short ∧ 65 < m.encode.length := by
  have hshort : ∀ m ∈ forged :: batch, (utf8 m.sender).length < UInt32.size ∧
      (utf8 m.recipient).length < UInt32.size ∧ m.data.length < UInt32.size ∧
      65 < m.encode.length := by
    decide +kernel
  intro m hm
  obtain ⟨hsender, hrecipient, hdata, hlong⟩ := hshort m hm
  exact ⟨⟨hsender, hrecipient, hdata⟩, hlong⟩

end Sample

/-- On the path of the second message that message is withdrawn, as one of the three and under the
scheme of their tree. The forged one is refused there. -/
theorem mem_of_withdraw_sample :
    (Sample.withdrawn Sample.toBob).1.isOk = true ∧
      (∃ settings, Sample.batched.settings = some settings ∧
        Sample.toBob ∈ Sample.batch ∧ settings.scheme = .indexed) ∧
      (Sample.withdrawn Sample.forged).1.isOk = false := by
  obtain ⟨hroot, hcommitted, hok, hfree⟩ := Sample.outcome_batched
  have hpaid : ∀ m ∈ [Sample.toBob, Sample.forged], (Sample.withdrawn m).1.isOk = true →
      ∃ settings, Sample.batched.settings = some settings ∧
        m ∈ Sample.batch ∧ settings.scheme = .indexed := by
    intro m hm hok
    have hshort : m ∈ Sample.forged :: Sample.batch := by
      simp only [List.mem_cons, List.not_mem_nil, or_false] at hm
      obtain rfl | rfl := hm
      · decide
      · exact List.mem_cons_self
    rcases h : Sample.withdrawn m with ⟨result, t⟩
    cases result with
    | error fault =>
      rw [h] at hok
      cases hok
    | ok receipt =>
      obtain ⟨settings, hsettings, hmem | hcollision⟩ := mem_of_withdraw
        (fun m' hm' => (Sample.short_batch m' (List.mem_cons_of_mem _ hm')).2)
        (fun m' hm' => (Sample.short_batch m' (List.mem_cons_of_mem _ hm')).1)
        (Sample.short_batch m hshort).1 hcommitted hroot h
      · exact ⟨settings, hsettings, hmem⟩
      · have hscheme : settings.scheme ∈ Scheme.all := by
          cases settings.scheme with
          | sortedPair => decide
          | indexed => decide
        exact absurd hcollision (hfree m hm settings.scheme hscheme)
  refine ⟨hok, hpaid _ List.mem_cons_self hok, ?_⟩
  rw [← Bool.not_eq_true]
  intro hforged
  obtain ⟨_, _, hmem, _⟩ := hpaid _ (List.mem_cons_of_mem _ List.mem_cons_self) hforged
  exact absurd hmem (by decide)

end TokenBridge
