import TokenBridge.Bytes

/-!
# Base64 text

The alphabet ends in `+` and `/`. Written text is always padded with `=` to a multiple of four
characters; in text that is read the padding may be shorter than that or absent, but not longer, and
the bits that belong to no byte are zero. Reading gives back what was written (`decode?_encode`).
-/

namespace TokenBridge.Base64

/-- The character of a number below sixty-four. -/
def digit (n : Nat) : Char :=
  if n < 26 then Char.ofNat (65 + n)
  else if n < 52 then Char.ofNat (71 + n)
  else if n < 62 then Char.ofNat (n - 4)
  else if n = 62 then '+'
  else '/'

/-- The number of a character of the alphabet. -/
def value? (c : Char) : Option Nat :=
  if 'A' ≤ c ∧ c ≤ 'Z' then some (c.toNat - 65)
  else if 'a' ≤ c ∧ c ≤ 'z' then some (c.toNat - 71)
  else if '0' ≤ c ∧ c ≤ '9' then some (c.toNat + 4)
  else if c = '+' then some 62
  else if c = '/' then some 63
  else none

theorem value?_digit : ∀ n < 64, value? (digit n) = some n := by decide

theorem digit_ne_pad : ∀ n < 64, digit n ≠ '=' := by decide

/-- Four characters for three bytes, three for two and two for one. -/
def encodeDigits : Bytes → List Char
  | a :: b :: c :: rest =>
    let n := 65536 * a.toNat + 256 * b.toNat + c.toNat
    digit (n / 262144) :: digit (n / 4096 % 64) :: digit (n / 64 % 64) :: digit (n % 64)
      :: encodeDigits rest
  | [a, b] =>
    let n := 4 * (256 * a.toNat + b.toNat)
    [digit (n / 4096), digit (n / 64 % 64), digit (n % 64)]
  | [a] =>
    let n := 16 * a.toNat
    [digit (n / 64), digit (n % 64)]
  | [] => []

/-- The bytes of text without padding. -/
def decodeDigits? : List Char → Option Bytes
  | a :: b :: c :: d :: rest => do
    let n := 262144 * (← value? a) + 4096 * (← value? b) + 64 * (← value? c) + (← value? d)
    let tail ← decodeDigits? rest
    some (UInt8.ofNat (n / 65536) :: UInt8.ofNat (n / 256) :: UInt8.ofNat n :: tail)
  | [a, b, c] => do
    let n := 4096 * (← value? a) + 64 * (← value? b) + (← value? c)
    if n % 4 = 0 then some [UInt8.ofNat (n / 1024), UInt8.ofNat (n / 4)] else none
  | [a, b] => do
    let n := 64 * (← value? a) + (← value? b)
    if n % 16 = 0 then some [UInt8.ofNat (n / 16)] else none
  | [_] => none
  | [] => some []

/-- The padding that makes this many characters a multiple of four. -/
def padding (size : Nat) : Nat := (4 - size % 4) % 4

/-- Padded text. -/
def encode (bytes : Bytes) : List Char :=
  let body := encodeDigits bytes
  body ++ List.replicate (padding body.length) '='

/-- Reads text whose padding is whole, shortened or absent. -/
def decode? (cs : List Char) : Option Bytes :=
  let body := cs.takeWhile (· ≠ '=')
  let rest := cs.dropWhile (· ≠ '=')
  if rest.all (· = '=') ∧ rest.length ≤ padding body.length then decodeDigits? body else none

theorem decodeDigits?_encodeDigits (bytes : Bytes) :
    decodeDigits? (encodeDigits bytes) = some bytes := by
  fun_induction encodeDigits bytes with
  | case1 a b c rest n ih =>
    have ha := a.toNat_lt
    have hb := b.toNat_lt
    have hc := c.toNat_lt
    simp only [decodeDigits?, value?_digit _ (show n / 262144 < 64 by omega),
      value?_digit _ (show n / 4096 % 64 < 64 by omega),
      value?_digit _ (show n / 64 % 64 < 64 by omega), value?_digit _ (show n % 64 < 64 by omega),
      ih, Option.bind_eq_bind, Option.bind_some, Option.some.injEq, List.cons.injEq, and_true,
      ← UInt8.toNat_inj, UInt8.toNat_ofNat']
    omega
  | case2 a b n =>
    have ha := a.toNat_lt
    have hb := b.toNat_lt
    have hsum : 4096 * (n / 4096) + 64 * (n / 64 % 64) + n % 64 = n := by omega
    simp only [decodeDigits?, value?_digit _ (show n / 4096 < 64 by omega),
      value?_digit _ (show n / 64 % 64 < 64 by omega), value?_digit _ (show n % 64 < 64 by omega),
      Option.bind_eq_bind, Option.bind_some, hsum, if_pos (show n % 4 = 0 by omega),
      Option.some.injEq, List.cons.injEq, and_true, ← UInt8.toNat_inj, UInt8.toNat_ofNat']
    omega
  | case3 a n =>
    have ha := a.toNat_lt
    have hsum : 64 * (n / 64) + n % 64 = n := by omega
    simp only [decodeDigits?, value?_digit _ (show n / 64 < 64 by omega),
      value?_digit _ (show n % 64 < 64 by omega), Option.bind_eq_bind, Option.bind_some, hsum,
      if_pos (show n % 16 = 0 by omega), Option.some.injEq, List.cons.injEq, and_true,
      ← UInt8.toNat_inj, UInt8.toNat_ofNat']
    omega
  | case4 => rfl

theorem ne_pad_of_mem_encodeDigits {bytes : Bytes} {c : Char} (h : c ∈ encodeDigits bytes) :
    c ≠ '=' := by
  fun_induction encodeDigits bytes with
  | case1 x y z rest n ih =>
    have hx := x.toNat_lt
    have hy := y.toNat_lt
    have hz := z.toNat_lt
    simp only [List.mem_cons] at h
    rcases h with rfl | rfl | rfl | rfl | h
    · exact digit_ne_pad _ (by omega)
    · exact digit_ne_pad _ (by omega)
    · exact digit_ne_pad _ (by omega)
    · exact digit_ne_pad _ (by omega)
    · exact ih h
  | case2 x y n =>
    have hx := x.toNat_lt
    have hy := y.toNat_lt
    simp only [List.mem_cons, List.not_mem_nil, or_false] at h
    rcases h with rfl | rfl | rfl <;> exact digit_ne_pad _ (by omega)
  | case3 x n =>
    have hx := x.toNat_lt
    simp only [List.mem_cons, List.not_mem_nil, or_false] at h
    rcases h with rfl | rfl <;> exact digit_ne_pad _ (by omega)
  | case4 => exact absurd h List.not_mem_nil

theorem decode?_encode (bytes : Bytes) : decode? (encode bytes) = some bytes := by
  have hbody : ∀ c ∈ encodeDigits bytes, decide (c ≠ '=') = true :=
    fun c hc => decide_eq_true (ne_pad_of_mem_encodeDigits hc)
  have htake : (encode bytes).takeWhile (· ≠ '=') = encodeDigits bytes := by
    rw [encode, List.takeWhile_append_of_pos hbody, List.takeWhile_replicate]
    simp
  have hdrop : (encode bytes).dropWhile (· ≠ '=') =
      List.replicate (padding (encodeDigits bytes).length) '=' := by
    rw [encode, List.dropWhile_append_of_pos hbody, List.dropWhile_replicate]
    simp
  rw [decode?, htake, hdrop, decodeDigits?_encodeDigits]
  simp

end TokenBridge.Base64
