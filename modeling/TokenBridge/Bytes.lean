import Std.Data.ExtTreeMap

/-!
# Byte strings

Byte strings are lists of bytes. A number is written big-endian in a fixed width, and a text is
written as UTF-8; both writings lose nothing (`bigEndian_inj`, `utf8_inj`), the first one for
numbers that fit the width. In hexadecimal, bytes are two lower-case digits each and are read in
either case.

Hashes, asset identifiers, state roots and account keys of the second chain are all strings of
exactly thirty-two bytes. Such words are ordered as byte strings and written as `0x` with 64
lower-case digits.
-/

namespace TokenBridge

/-! ## Bytes -/

/-- A string of bytes. -/
abbrev Bytes := List UInt8

/-- The last `width` base-256 digits of a number, most significant first. -/
def bigEndian : (width : Nat) → Nat → Bytes
  | 0, _ => []
  | width + 1, n => bigEndian width (n / 256) ++ [UInt8.ofNat n]

@[simp] theorem length_bigEndian (width n : Nat) : (bigEndian width n).length = width := by
  induction width generalizing n with
  | zero => rfl
  | succ width ih => simp [bigEndian, ih]

/-- Numbers that fit the width are told apart by their digits. -/
theorem bigEndian_inj {width m n : Nat} (hm : m < Nat.pow 256 width) (hn : n < Nat.pow 256 width) :
    bigEndian width m = bigEndian width n ↔ m = n := by
  refine ⟨fun h => ?_, fun h => h ▸ rfl⟩
  induction width generalizing m n with
  | zero => exact (Nat.lt_one_iff.mp hm).trans (Nat.lt_one_iff.mp hn).symm
  | succ width ih =>
    simp only [bigEndian] at h
    obtain ⟨hinit, hlast⟩ := List.append_inj' h rfl
    have hquot := ih (Nat.div_lt_of_lt_mul (by rwa [Nat.mul_comm]))
      (Nat.div_lt_of_lt_mul (by rwa [Nat.mul_comm])) hinit
    have hrem : m % 256 = n % 256 := by
      simpa using congrArg UInt8.toNat (List.cons.inj hlast).1
    omega

/-- The UTF-8 bytes of a text. -/
def utf8 (text : String) : Bytes :=
  text.toByteArray.data.toList

/-- Texts are told apart by their bytes. -/
theorem utf8_inj {s t : String} : utf8 s = utf8 t ↔ s = t := by
  refine ⟨fun h => ?_, fun h => h ▸ rfl⟩
  rw [← String.toByteArray_inj]
  exact ByteArray.ext (Array.toList_inj.mp h)

/-! ## Hexadecimal digits -/

namespace Hex

/-- The lower-case digit of a number below sixteen. -/
def digit (n : Nat) : Char :=
  if n < 10 then Char.ofNat (48 + n) else Char.ofNat (87 + n)

/-- The value of a hexadecimal digit of either case. -/
def value? (c : Char) : Option Nat :=
  if '0' ≤ c ∧ c ≤ '9' then some (c.toNat - 48)
  else if 'a' ≤ c ∧ c ≤ 'f' then some (c.toNat - 87)
  else if 'A' ≤ c ∧ c ≤ 'F' then some (c.toNat - 55)
  else none

/-- A digit reads as its number. -/
theorem value?_digit : ∀ n < 16, value? (digit n) = some n := by decide

/-- Two digits for each byte. -/
def encode (bytes : Bytes) : List Char :=
  bytes.flatMap fun b => [digit (b.toNat / 16), digit (b.toNat % 16)]

/-- Reads pairs of digits; an odd digit out or any other character makes the text unreadable. -/
def decode? : List Char → Option Bytes
  | [] => some []
  | [_] => none
  | high :: low :: rest => do
    let h ← value? high
    let l ← value? low
    let tail ← decode? rest
    some (UInt8.ofNat (16 * h + l) :: tail)

theorem decode?_encode (bytes : Bytes) : decode? (encode bytes) = some bytes := by
  induction bytes with
  | nil => rfl
  | cons b rest ih =>
    have hb : b.toNat < 256 := b.toNat_lt
    have hhigh := value?_digit (b.toNat / 16) (by omega)
    have hlow := value?_digit (b.toNat % 16) (by omega)
    have hval : 16 * (b.toNat / 16) + b.toNat % 16 = b.toNat := by omega
    simp only [encode, List.flatMap_cons, List.cons_append, List.nil_append, decode?, hhigh, hlow,
      Option.bind_eq_bind, Option.bind_some, hval, UInt8.ofNat_toNat]
    rw [show decode? (List.flatMap _ rest) = some rest from ih]
    rfl

@[simp] theorem length_encode (bytes : Bytes) : (encode bytes).length = 2 * bytes.length := by
  induction bytes with
  | nil => rfl
  | cons b rest ih =>
    simp only [encode, List.flatMap_cons, List.length_append, List.length_cons, List.length_nil]
      at ih ⊢
    omega

end Hex

/-! ## Words of thirty-two bytes -/

/-- Exactly thirty-two bytes. -/
structure Word256 where
  bytes : Bytes
  length_bytes : bytes.length = 32
  deriving DecidableEq

namespace Word256

@[ext] theorem ext {a b : Word256} (h : a.bytes = b.bytes) : a = b := by
  cases a; cases b; simp_all

/-- Words are compared byte by byte from the left. -/
instance : Ord Word256 := ⟨compareOn bytes⟩

instance : Std.TransOrd Word256 :=
  inferInstanceAs (Std.TransCmp (compareOn bytes))

instance : Std.LawfulEqOrd Word256 where
  eq_of_compare h := ext (Std.LawfulEqOrd.eq_of_compare h)

/-- The word with the given bytes, if there are thirty-two of them. -/
def ofBytes? (bytes : Bytes) : Option Word256 :=
  if h : bytes.length = 32 then some ⟨bytes, h⟩ else none

theorem ofBytes?_eq_some_iff {bytes : Bytes} {w : Word256} :
    ofBytes? bytes = some w ↔ w.bytes = bytes := by
  unfold ofBytes?
  split
  · exact ⟨fun h => Option.some.inj h ▸ rfl, fun h => congrArg some (ext h.symm)⟩
  · next hlen => exact ⟨nofun, fun h => absurd (h ▸ w.length_bytes) hlen⟩

/-- The word all of whose bytes are zero. -/
def zero : Word256 := ⟨List.replicate 32 0, rfl⟩

/-- `0x` and 64 lower-case digits. -/
def toHex (w : Word256) : String :=
  String.ofList ('0' :: 'x' :: Hex.encode w.bytes)

/-- A text without its leading `0x` or `0X`, if it has one. -/
def stripMark : List Char → List Char
  | '0' :: 'x' :: rest => rest
  | '0' :: 'X' :: rest => rest
  | cs => cs

/-- Reads 64 digits of either case, with or without a leading `0x` or `0X`. -/
def ofHex? (text : String) : Option Word256 :=
  (Hex.decode? (stripMark text.toList)).bind ofBytes?

theorem ofHex?_toHex (w : Word256) : ofHex? w.toHex = some w := by
  simp [ofHex?, toHex, stripMark, Hex.decode?_encode, ofBytes?_eq_some_iff]

end Word256

end TokenBridge
