import Mathlib.InformationTheory.Coding.UniquelyDecodable
import TokenBridge.Message

/-!
# Reading messages back

The canonical encoding of a message is decided by its bytes alone, also in front of other bytes:
every field but the last three has a fixed width, and those three stand behind their lengths. This
needs lengths that four bytes can hold; longer fields are encoded with their lengths cut. Where
messages are encoded in a row, the bytes tell where one ends and the next begins.
-/

namespace TokenBridge.Message

/-- The lengths of the three variable fields fit into four bytes. -/
structure Short (m : Message) : Prop where
  sender : (utf8 m.sender).length < UInt32.size
  recipient : (utf8 m.recipient).length < UInt32.size
  data : m.data.length < UInt32.size

/-- A number of fixed width can be told from what follows it. -/
theorem bigEndian_append_inj {width m n : Nat} {r r' : Bytes} (hm : m < Nat.pow 256 width)
    (hn : n < Nat.pow 256 width) (h : bigEndian width m ++ r = bigEndian width n ++ r') :
    m = n ∧ r = r' := by
  obtain ⟨hdigits, hrest⟩ := List.append_inj h (by simp)
  exact ⟨(bigEndian_inj hm hn).mp hdigits, hrest⟩

/-- Bytes behind their length can be told from what follows them. -/
theorem lengthPrefixed_append_inj {a b r r' : Bytes} (ha : a.length < UInt32.size)
    (hb : b.length < UInt32.size) (h : lengthPrefixed a ++ r = lengthPrefixed b ++ r') :
    a = b ∧ r = r' := by
  unfold lengthPrefixed at h
  rw [List.append_assoc, List.append_assoc] at h
  obtain ⟨hlength, h⟩ := bigEndian_append_inj ha hb h
  exact List.append_inj h hlength

/-- A message and what follows its encoding are decided by the bytes. -/
theorem encode_append_inj {m m' : Message} (hm : m.Short) (hm' : m'.Short) {r r' : Bytes}
    (h : m.encode ++ r = m'.encode ++ r') : m = m' ∧ r = r' := by
  simp only [encode, List.append_assoc] at h
  obtain ⟨hchain, h⟩ := bigEndian_append_inj m.sourceChain.toNat_lt m'.sourceChain.toNat_lt h
  obtain ⟨hnonce, h⟩ := bigEndian_append_inj m.nonce.toNat_lt m'.nonce.toNat_lt h
  obtain ⟨hamount, h⟩ := bigEndian_append_inj m.amount.toNat_lt m'.amount.toNat_lt h
  obtain ⟨hsender, h⟩ := lengthPrefixed_append_inj hm.sender hm'.sender h
  obtain ⟨hrecipient, h⟩ := lengthPrefixed_append_inj hm.recipient hm'.recipient h
  obtain ⟨hdata, h⟩ := lengthPrefixed_append_inj hm.data hm'.data h
  refine ⟨?_, h⟩
  cases m
  cases m'
  simp only [mk.injEq]
  exact ⟨utf8_inj.mp hsender, utf8_inj.mp hrecipient, Amount.ext hamount,
    UInt64.toNat_inj.mp hnonce, hdata, UInt64.toNat_inj.mp hchain⟩

/-- Messages are told apart by their encodings. -/
theorem encode_inj {m m' : Message} (hm : m.Short) (hm' : m'.Short) (h : m.encode = m'.encode) :
    m = m' :=
  (encode_append_inj hm hm' (congrArg (· ++ []) h)).1

/-- Forty-four bytes of the encoding do not depend on the message. -/
theorem length_encode (m : Message) :
    m.encode.length =
      44 + (utf8 m.sender).length + (utf8 m.recipient).length + m.data.length := by
  simp only [encode, lengthPrefixed, List.length_append, length_bigEndian]
  omega

/-- The encoding of a message that names an asset is longer than two words and a byte. -/
theorem lt_length_encode {m : Message} {asset : Word256} (h : m.assetId? = some asset) :
    65 < m.encode.length := by
  have hdata : m.data.length = 32 := by
    rw [← Word256.ofBytes?_eq_some_iff.mp h]
    exact asset.length_bytes
  rw [length_encode]
  omega

/-- No encoding is empty. -/
theorem encode_ne_nil (m : Message) : m.encode ≠ [] := by
  rw [← List.length_pos_iff, length_encode]
  omega

/-- A message whose encoding begins that of another one is that other one. -/
theorem eq_of_encode_prefix {m m' : Message} (hm : m.Short) (hm' : m'.Short)
    (h : m.encode <+: m'.encode) : m = m' := by
  obtain ⟨rest, hrest⟩ := h
  rw [← List.append_nil m'.encode] at hrest
  exact (encode_append_inj hm hm' hrest).1

/-- The byte strings that are encodings of short messages. -/
def codewords : Set Bytes := {bytes | ∃ m : Message, m.Short ∧ m.encode = bytes}

theorem ne_nil_of_mem_codewords {bytes : Bytes} (h : bytes ∈ codewords) : bytes ≠ [] := by
  obtain ⟨m, _, rfl⟩ := h
  exact m.encode_ne_nil

/-- Encodings in a row are told apart by the bytes that they make together. -/
theorem uniquelyDecodable_codewords : InformationTheory.UniquelyDecodable codewords := by
  intro codes codes' hcodes hcodes' h
  induction codes generalizing codes' with
  | nil =>
    cases codes' with
    | nil => rfl
    | cons code' rest' =>
      have hne := ne_nil_of_mem_codewords (hcodes' code' List.mem_cons_self)
      exact absurd (List.append_eq_nil_iff.mp h.symm).1 hne
  | cons code rest ih =>
    cases codes' with
    | nil =>
      have hne := ne_nil_of_mem_codewords (hcodes code List.mem_cons_self)
      exact absurd (List.append_eq_nil_iff.mp h).1 hne
    | cons code' rest' =>
      obtain ⟨m, hm, rfl⟩ := hcodes code List.mem_cons_self
      obtain ⟨m', hm', rfl⟩ := hcodes' code' List.mem_cons_self
      obtain ⟨rfl, hrest⟩ := encode_append_inj hm hm' h
      rw [ih rest' (fun c hc => hcodes c (List.mem_cons_of_mem _ hc))
        (fun c hc => hcodes' c (List.mem_cons_of_mem _ hc)) hrest]

/-- Short messages are decided by the bytes of their encodings, whatever follows them. So no two of
them have the same encoding, none is the beginning of another one, and encodings in a row can be
told apart. -/
theorem decided_by_bytes :
    (∀ m m' : Message, m.Short → m'.Short →
      (∀ r r' : Bytes, m.encode ++ r = m'.encode ++ r' → m = m' ∧ r = r') ∧
        (m.encode = m'.encode → m = m') ∧ (m.encode <+: m'.encode → m = m')) ∧
      InformationTheory.UniquelyDecodable codewords := by
  refine ⟨?_, uniquelyDecodable_codewords⟩
  intro m m' hm hm'
  exact ⟨fun _ _ => encode_append_inj hm hm', encode_inj hm hm', eq_of_encode_prefix hm hm'⟩

end TokenBridge.Message

namespace TokenBridge

namespace Sample

def letter : Message where
  sender := "ab"
  recipient := "c"
  amount := ⟨31, by decide⟩
  nonce := 7
  data := [1, 2]
  sourceChain := 2

/-- The same letters, the second one of which has gone over to the recipient. -/
def shifted : Message := { letter with sender := "a", recipient := "bc" }

end Sample

/-- Letters that go over from one field to the next give another encoding, whatever follows. -/
theorem Message.decided_by_bytes_sample :
    Sample.letter.Short ∧ Sample.shifted.Short ∧
      ∀ r r' : Bytes, Sample.letter.encode ++ r ≠ Sample.shifted.encode ++ r' := by
  have hletter : Sample.letter.Short := by
    constructor
    · decide +kernel
    · decide +kernel
    · decide +kernel
  have hshifted : Sample.shifted.Short := by
    constructor
    · decide +kernel
    · decide +kernel
    · decide +kernel
  have hne : Sample.letter ≠ Sample.shifted := by decide
  refine ⟨hletter, hshifted, ?_⟩
  intro r r' heq
  exact hne ((decided_by_bytes.1 _ _ hletter hshifted).1 r r' heq).1

end TokenBridge
