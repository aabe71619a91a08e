import Mathlib.Data.List.Induction
import Mathlib.Tactic.SplitIfs
import TokenBridge.Bytes
import TokenBridge.Numbers
import TokenBridge.Proofs.CoreTypes

/-!
# Digits

The digits are listed here in the order of their values, apart from how a reader finds the value of
a character. A hexadecimal digit is one of sixteen in either case and is known by its lower case. A
decimal numeral is any run of the ten digits that is not empty, and what it is worth is counted from
its front: each further digit makes the number ten times as large and is added to it.
-/

namespace TokenBridge

/-- In a table whose characters are known by their codes, a character is found by its code. -/
theorem getElem?_eq_some_iff_code {table : List Char} {code : Nat → Nat} {size n : Nat} {c : Char}
    (hlength : table.length = size)
    (hcode : ∀ n < size, table[n]?.map Char.toNat = some (code n)) :
    table[n]? = some c ↔ n < size ∧ c.toNat = code n := by
  constructor
  · intro h
    have hn : n < size := hlength ▸ (List.getElem?_eq_some_iff.mp h).1
    have hc := hcode n hn
    rw [h] at hc
    exact ⟨hn, Option.some.inj hc⟩
  · rintro ⟨hn, hc⟩
    obtain ⟨c', hfound, hc'⟩ := Option.map_eq_some_iff.mp (hcode n hn)
    rw [hfound, Char.toNat_inj.mp (hc.trans hc'.symm)]

namespace Hex

variable {c : Char} {n : Nat}

/-- The digits in lower case, in the order of their values. -/
def lowerDigits : List Char :=
  ['0', '1', '2', '3', '4', '5', '6', '7', '8', '9', 'a', 'b', 'c', 'd', 'e', 'f']

/-- The digits in upper case, in the order of their values. -/
def upperDigits : List Char :=
  ['0', '1', '2', '3', '4', '5', '6', '7', '8', '9', 'A', 'B', 'C', 'D', 'E', 'F']

/-- The character is the digit of a value, in either case. -/
def IsDigit (c : Char) (n : Nat) : Prop := lowerDigits[n]? = some c ∨ upperDigits[n]? = some c

/-- A letter has one code in each case, a numeral has one code. -/
theorem isDigit_iff : IsDigit c n ↔
    n < 10 ∧ c.toNat = 48 + n ∨
      10 ≤ n ∧ n < 16 ∧ (c.toNat = 87 + n ∨ c.toNat = 55 + n) := by
  have hlower : lowerDigits[n]? = some c ↔
      n < 16 ∧ c.toNat = if n < 10 then 48 + n else 87 + n := by
    apply getElem?_eq_some_iff_code rfl
    decide
  have hupper : upperDigits[n]? = some c ↔
      n < 16 ∧ c.toNat = if n < 10 then 48 + n else 55 + n := by
    apply getElem?_eq_some_iff_code rfl
    decide
  rw [IsDigit, hlower, hupper]
  split
  all_goals omega

theorem lt_of_isDigit (h : IsDigit c n) : n < 16 := by
  rw [isDigit_iff] at h
  omega

/-- A digit is known by its lower case. -/
theorem isDigit_iff_toLower (hn : n < 16) : IsDigit c n ↔ c.toLower = digit n := by
  have hdigit : ∀ n < 16, (digit n).toNat = if n < 10 then 48 + n else 87 + n := by decide
  rw [isDigit_iff, ← Char.toNat_inj, Char.toNat_toLower, hdigit n hn]
  split
  all_goals split
  all_goals omega

/-- The digits, and only they, have a value. -/
theorem value?_eq_some_iff : value? c = some n ↔ IsDigit c n := by
  have hvalue : value? c =
      if 48 ≤ c.toNat ∧ c.toNat ≤ 57 then some (c.toNat - 48)
      else if 97 ≤ c.toNat ∧ c.toNat ≤ 102 then some (c.toNat - 87)
      else if 65 ≤ c.toNat ∧ c.toNat ≤ 70 then some (c.toNat - 55)
      else none := rfl
  rw [isDigit_iff, hvalue]
  split_ifs
  · rw [Option.some.injEq]
    omega
  · rw [Option.some.injEq]
    omega
  · rw [Option.some.injEq]
    omega
  · refine iff_of_false nofun ?_
    omega

end Hex

namespace Decimal

/-- The character is the digit of a number below ten. -/
def IsDigit (c : Char) (d : Nat) : Prop :=
  ['0', '1', '2', '3', '4', '5', '6', '7', '8', '9'][d]? = some c

/-- The characters are the digits of a number, the most significant first, with any zeros in
front. -/
inductive Numeral : List Char → Nat → Prop
  | digit {c d} (hc : IsDigit c d) : Numeral [c] d
  | snoc {cs n c d} (hcs : Numeral cs n) (hc : IsDigit c d) : Numeral (cs ++ [c]) (10 * n + d)

variable {c : Char} {cs : List Char} {d n : Nat}

theorem isDigit_iff : IsDigit c d ↔ d < 10 ∧ c.toNat = 48 + d := by
  apply getElem?_eq_some_iff_code rfl
  decide

/-- A digit is worth its distance from the digit of zero. -/
theorem isDigit_iff_sub : IsDigit c d ↔ c.isDigit = true ∧ c.toNat - '0'.toNat = d := by
  have hcodes : '0'.toNat = 48 ∧ '9'.toNat = 57 := ⟨rfl, rfl⟩
  rw [isDigit_iff, Char.isDigit_iff_toNat]
  omega

theorem value?_eq_some_iff_all : value? cs = some n ↔
    cs ≠ [] ∧ (∀ c ∈ cs, c.isDigit = true) ∧ Nat.ofDigitChars 10 cs 0 = n := by
  rw [value?, Option.ite_none_right_eq_some, Option.some.injEq, List.all_eq_true, and_assoc]

/-- Numbers are read from their numerals. -/
theorem value?_eq_some_iff : value? cs = some n ↔ Numeral cs n := by
  have hsingle : ∀ c : Char, Nat.ofDigitChars 10 [c] 0 = c.toNat - '0'.toNat :=
    fun _ => Nat.zero_add _
  rw [value?_eq_some_iff_all]
  constructor
  · rintro ⟨hne, hdigits, rfl⟩
    induction cs using List.reverseRecOn with
    | nil => exact absurd rfl hne
    | append_singleton cs c ih =>
      obtain ⟨hdigits, hc⟩ := List.forall_mem_append.mp hdigits
      have hlast : IsDigit c (c.toNat - '0'.toNat) :=
        isDigit_iff_sub.mpr ⟨hc c (List.mem_singleton_self c), rfl⟩
      by_cases hnil : cs = []
      · subst hnil
        rw [List.nil_append, hsingle]
        exact .digit hlast
      · rw [Nat.ofDigitChars_append]
        exact .snoc (ih hnil hdigits) hlast
  · intro h
    induction h with
    | @digit c d hc =>
      obtain ⟨hdigit, rfl⟩ := isDigit_iff_sub.mp hc
      exact ⟨List.cons_ne_nil c [], by simpa using hdigit, hsingle c⟩
    | @snoc cs n c d _ hc ih =>
      obtain ⟨hdigit, rfl⟩ := isDigit_iff_sub.mp hc
      obtain ⟨_, hdigits, rfl⟩ := ih
      refine ⟨List.append_ne_nil_of_right_ne_nil cs (List.cons_ne_nil c []), ?_, ?_⟩
      · exact List.forall_mem_append.mpr ⟨hdigits, by simpa using hdigit⟩
      · rw [Nat.ofDigitChars_append]
        rfl

theorem Numeral.isDigit (h : Numeral cs n) : ∀ c ∈ cs, c.isDigit = true :=
  (value?_eq_some_iff_all.mp (value?_eq_some_iff.mpr h)).2.1

theorem Numeral.not_mem (h : Numeral cs n) (hc : c.isDigit = false) : c ∉ cs := by
  intro hmem
  have hdigit := h.isDigit c hmem
  rw [hc] at hdigit
  cases hdigit

end Decimal

end TokenBridge
