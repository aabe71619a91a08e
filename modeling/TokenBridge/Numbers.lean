/-!
# Numbers

Words are checked: a sum, a product or a number read as a word is given only if it fits the width,
and each operation is described by the number it yields (`add64?_eq_some_iff`). Times are words of
nanoseconds since the epoch; durations and the times that requests carry are in whole seconds. An
amount of a token is a natural number of at most 128 bits.

A number is written in decimal without leading zeros. Reading takes any non-empty run of the ten
ASCII digits, leading zeros included, and `unsigned?` also a plus sign in front; `ofDigits?` takes
the written form alone (`ofDigits?_eq_some_iff`). None of them has a bound of its own.
-/

namespace TokenBridge

/-! ## Words that refuse to overflow -/

/-- A number as a word of 64 bits. -/
def word64? (n : Nat) : Option UInt64 :=
  if n < UInt64.size then some (UInt64.ofNat n) else none

/-- A number as a word of 32 bits. -/
def word32? (n : Nat) : Option UInt32 :=
  if n < UInt32.size then some (UInt32.ofNat n) else none

/-- A number as a byte. -/
def byte? (n : Nat) : Option UInt8 :=
  if n < UInt8.size then some (UInt8.ofNat n) else none

theorem word64?_eq_some_iff {n : Nat} {w : UInt64} : word64? n = some w ↔ w.toNat = n := by
  have := w.toNat_lt
  simp only [word64?, UInt64.size, Option.ite_none_right_eq_some, Option.some.injEq,
    ← UInt64.toNat_inj, UInt64.toNat_ofNat']
  omega

theorem word32?_eq_some_iff {n : Nat} {w : UInt32} : word32? n = some w ↔ w.toNat = n := by
  have := w.toNat_lt
  simp only [word32?, UInt32.size, Option.ite_none_right_eq_some, Option.some.injEq,
    ← UInt32.toNat_inj, UInt32.toNat_ofNat']
  omega

theorem byte?_eq_some_iff {n : Nat} {w : UInt8} : byte? n = some w ↔ w.toNat = n := by
  have := w.toNat_lt
  simp only [byte?, UInt8.size, Option.ite_none_right_eq_some, Option.some.injEq, ← UInt8.toNat_inj,
    UInt8.toNat_ofNat']
  omega

/-- The sum of two words of 64 bits. -/
def add64? (a b : UInt64) : Option UInt64 := word64? (a.toNat + b.toNat)

/-- The product of two words of 64 bits. -/
def mul64? (a b : UInt64) : Option UInt64 := word64? (a.toNat * b.toNat)

/-- The sum of two words of 32 bits. -/
def add32? (a b : UInt32) : Option UInt32 := word32? (a.toNat + b.toNat)

theorem add64?_eq_some_iff {a b c : UInt64} :
    add64? a b = some c ↔ c.toNat = a.toNat + b.toNat :=
  word64?_eq_some_iff

theorem mul64?_eq_some_iff {a b c : UInt64} :
    mul64? a b = some c ↔ c.toNat = a.toNat * b.toNat :=
  word64?_eq_some_iff

theorem add32?_eq_some_iff {a b c : UInt32} :
    add32? a b = some c ↔ c.toNat = a.toNat + b.toNat :=
  word32?_eq_some_iff

/-! ## Decimal text -/

namespace Decimal

/-- The digits of a number, most significant first. -/
def digits (n : Nat) : List Char := Nat.toDigits 10 n

/-- The text of a number. -/
def text (n : Nat) : String := String.ofList (digits n)

/-- The number written by a non-empty run of digits. -/
def value? (cs : List Char) : Option Nat :=
  if cs ≠ [] ∧ cs.all Char.isDigit then some (Nat.ofDigitChars 10 cs 0) else none

/-- The number of which this is the way to write it, without leading zeros. -/
def ofDigits? (cs : List Char) : Option Nat := (value? cs).filter fun n => digits n = cs

/-- The number written by a run of digits with an optional plus sign in front. -/
def unsigned? : List Char → Option Nat
  | '+' :: cs => value? cs
  | cs => value? cs

theorem digits_ne_nil (n : Nat) : digits n ≠ [] := Nat.toDigits_ne_nil

theorem isDigit_of_mem_digits {n : Nat} {c : Char} (h : c ∈ digits n) : c.isDigit = true :=
  Nat.isDigit_of_mem_toDigits (by decide) (by decide) h

/-- A number is read back from its digits. -/
@[simp] theorem value?_digits (n : Nat) : value? (digits n) = some n := by
  rw [value?, if_pos ⟨digits_ne_nil n, List.all_eq_true.mpr fun _ => isDigit_of_mem_digits⟩]
  exact congrArg some (Nat.ofDigitChars_toDigits (by decide) (by decide))

theorem ofDigits?_eq_some_iff {cs : List Char} {n : Nat} :
    ofDigits? cs = some n ↔ cs = digits n := by
  simp only [ofDigits?, Option.filter_eq_some_iff, decide_eq_true_eq]
  refine ⟨fun h => h.2.symm, fun h => ?_⟩
  subst h
  exact ⟨value?_digits n, rfl⟩

/-- Numbers are told apart by their texts. -/
theorem text_inj {m n : Nat} : text m = text n ↔ m = n := by
  refine ⟨fun h => ?_, fun h => h ▸ rfl⟩
  have hdigits : digits m = digits n := String.ofList_injective h
  exact Option.some.inj (by rw [← value?_digits m, hdigits, value?_digits])

/-- The digits of a number carry no sign. -/
@[simp] theorem unsigned?_digits (n : Nat) : unsigned? (digits n) = some n := by
  unfold unsigned?
  split
  · next cs h =>
    have : ('+' : Char).isDigit = true := isDigit_of_mem_digits (h ▸ List.mem_cons_self)
    simp at this
  · exact value?_digits n

end Decimal

/-! ## Points in time -/

/-- A point in time, in nanoseconds since the epoch. -/
structure Timestamp where
  nanos : UInt64
  deriving DecidableEq

namespace Timestamp

/-- Nanoseconds in a second. -/
def perSecond : UInt64 := 1000000000

/-- The whole seconds that have passed. -/
def seconds (t : Timestamp) : UInt64 := t.nanos / perSecond

/-- The start of a second, if it can be counted in nanoseconds. -/
def ofSeconds? (seconds : UInt64) : Option Timestamp :=
  (mul64? seconds perSecond).map Timestamp.mk

theorem toNat_seconds (t : Timestamp) : t.seconds.toNat = t.nanos.toNat / 1000000000 := by
  simp [seconds, perSecond]

theorem ofSeconds?_eq_some_iff {s : UInt64} {t : Timestamp} :
    ofSeconds? s = some t ↔ t.nanos.toNat = s.toNat * 1000000000 := by
  cases t
  simp [ofSeconds?, mul64?_eq_some_iff, perSecond]

/-- The start of a second lies in that second. -/
theorem seconds_of_ofSeconds? {s : UInt64} {t : Timestamp} (h : ofSeconds? s = some t) :
    t.seconds = s := by
  rw [← UInt64.toNat_inj, toNat_seconds, ofSeconds?_eq_some_iff.mp h]
  omega

/-- Decimal text of the nanoseconds. -/
def text (t : Timestamp) : String := Decimal.text t.nanos.toNat

/-- Reads decimal text of nanoseconds, with an optional plus sign. -/
def ofText? (text : String) : Option Timestamp :=
  ((Decimal.unsigned? text.toList).bind word64?).map Timestamp.mk

theorem ofText?_text (t : Timestamp) : ofText? t.text = some t := by
  cases t
  simp [ofText?, text, Decimal.text, word64?_eq_some_iff]

end Timestamp

/-! ## Amounts of a token -/

/-- The number of amounts, two to the power of 128. -/
def Amount.size : Nat := 0x100000000000000000000000000000000

/-- A number of indivisible units of some token. -/
structure Amount where
  toNat : Nat
  toNat_lt : toNat < Amount.size
  deriving DecidableEq

namespace Amount

@[ext] theorem ext {a b : Amount} (h : a.toNat = b.toNat) : a = b := by
  cases a; cases b; simp_all

instance : LE Amount := ⟨fun a b => a.toNat ≤ b.toNat⟩

instance : LT Amount := ⟨fun a b => a.toNat < b.toNat⟩

instance (a b : Amount) : Decidable (a ≤ b) := inferInstanceAs (Decidable (a.toNat ≤ b.toNat))

instance (a b : Amount) : Decidable (a < b) := inferInstanceAs (Decidable (a.toNat < b.toNat))

theorem le_def {a b : Amount} : a ≤ b ↔ a.toNat ≤ b.toNat := Iff.rfl

/-- No units. -/
def zero : Amount := ⟨0, by decide⟩

@[simp] theorem toNat_zero : zero.toNat = 0 := rfl

/-- A number as an amount, if it has at most 128 bits. -/
def ofNat? (n : Nat) : Option Amount :=
  if h : n < size then some ⟨n, h⟩ else none

theorem ofNat?_eq_some_iff {n : Nat} {a : Amount} : ofNat? n = some a ↔ a.toNat = n := by
  unfold ofNat?
  split
  · exact ⟨fun h => Option.some.inj h ▸ rfl, fun h => congrArg some (ext h.symm)⟩
  · next hn => exact ⟨nofun, fun h => absurd (h ▸ a.toNat_lt) hn⟩

/-- The sum, if it is an amount. -/
def add? (a b : Amount) : Option Amount := ofNat? (a.toNat + b.toNat)

theorem add?_eq_some_iff {a b c : Amount} : a.add? b = some c ↔ c.toNat = a.toNat + b.toNat :=
  ofNat?_eq_some_iff

/-- The difference, or nothing where more is taken away than there is. -/
def truncSub (a b : Amount) : Amount :=
  ⟨a.toNat - b.toNat, Nat.lt_of_le_of_lt (Nat.sub_le ..) a.toNat_lt⟩

@[simp] theorem toNat_truncSub (a b : Amount) : (a.truncSub b).toNat = a.toNat - b.toNat := rfl

/-- Decimal text. -/
def text (a : Amount) : String := Decimal.text a.toNat

/-- Reads decimal text with an optional plus sign. -/
def ofText? (text : String) : Option Amount :=
  (Decimal.unsigned? text.toList).bind ofNat?

theorem ofText?_text (a : Amount) : ofText? a.text = some a := by
  simp [ofText?, text, Decimal.text, ofNat?_eq_some_iff]

end Amount

end TokenBridge
