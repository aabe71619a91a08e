import TokenBridge.Bytes
import TokenBridge.Numbers

/-!
# Tokens of JSON text

A JSON text is a sequence of tokens with blanks between them. Besides punctuation there are strings
between quotes and bare words; a number, `true`, `false` and `null` are bare words, and so is
anything else that stands where a value may start and reaches to the next comma or closing bracket.

Strings are written with as few escapes as possible. A string that is read may hold any character as
it is if it has no escape at all; next to an escape, control characters have to be escaped too. Two
`\u` escapes stand for one character beyond the basic plane if they form a surrogate pair: the first
of them waits for the second, over further escapes but not over a plain character.
-/

namespace TokenBridge.Json

/-- The smallest parts of a JSON text. -/
inductive Token where
  | openBrace
  | closeBrace
  | openBracket
  | closeBracket
  | comma
  | colon
  | bare (word : String)
  | text (value : String)
  deriving DecidableEq

/-! ## Writing -/

/-- The upper-case digit of a number below sixteen. -/
def upperDigit (n : Nat) : Char := (Hex.digit n).toUpper

/-- A character that stands inside quotes as it is only where nothing is escaped. -/
def isControl (c : Char) : Bool := c.toNat < 32

/-- How a character stands inside quotes. Only what cannot stand there itself is escaped. -/
def escape (c : Char) : List Char :=
  if c = '"' then ['\\', '"']
  else if c = '\\' then ['\\', '\\']
  else if c = '\x08' then ['\\', 'b']
  else if c = '\t' then ['\\', 't']
  else if c = '\n' then ['\\', 'n']
  else if c = '\x0c' then ['\\', 'f']
  else if c = '\r' then ['\\', 'r']
  else if isControl c then
    ['\\', 'u', '0', '0', upperDigit (c.toNat / 16), upperDigit (c.toNat % 16)]
  else [c]

/-- A string between quotes. -/
def quote (cs : List Char) : List Char :=
  '"' :: (cs.flatMap escape ++ ['"'])

/-- The text of a token. -/
def Token.chars : Token → List Char
  | openBrace => ['\x7b']
  | closeBrace => ['\x7d']
  | openBracket => ['[']
  | closeBracket => [']']
  | comma => [',']
  | colon => [':']
  | bare w => w.toList
  | text s => quote s.toList

/-! ## Strings -/

/-- What stands in front of the closing quote, and what follows it. A quote behind a backslash does
not close. -/
def enclosed? : List Char → Option (List Char × List Char)
  | '"' :: rest => some ([], rest)
  | '\\' :: c :: rest => (enclosed? rest).map fun (body, after) => ('\\' :: c :: body, after)
  | c :: rest => (enclosed? rest).map fun (body, after) => (c :: body, after)
  | [] => none

/-- The character of an escape of two characters, given the second one. -/
def shortEscape? : Char → Option Char
  | '"' => some '"'
  | '\\' => some '\\'
  | '/' => some '/'
  | 'b' => some '\x08'
  | 't' => some '\t'
  | 'n' => some '\n'
  | 'f' => some '\x0c'
  | 'r' => some '\r'
  | _ => none

/-- The number of four hexadecimal digits. -/
def unit? (a b c d : Char) : Option Nat := do
  some (4096 * (← Hex.value? a) + 256 * (← Hex.value? b) + 16 * (← Hex.value? c) + (← Hex.value? d))

/-- The character of a surrogate pair. -/
def pair (first second : Nat) : Char :=
  Char.ofNat (0x10000 + 0x400 * (first - 0xD800) + (second - 0xDC00))

/-- What a `\u` escape of a number adds to the text, and the first surrogate that waits behind it,
given the one that waits in front of it. -/
def place? (waiting : Option Nat) (n : Nat) : Option (List Char × Option Nat) :=
  if n < 0xD800 ∨ 0xE000 ≤ n then some ([Char.ofNat n], waiting)
  else match waiting with
    | none => if n < 0xDC00 then some ([], some n) else none
    | some first => if n < 0xDC00 then none else some ([pair first n], none)

/-- The text of a string with escapes, given the first surrogate that waits for its second one. -/
def unescape? (waiting : Option Nat) : List Char → Option (List Char)
  | '\\' :: 'u' :: a :: b :: c :: d :: rest => do
    let (placed, waiting) ← place? waiting (← unit? a b c d)
    (unescape? waiting rest).map (placed ++ ·)
  | '\\' :: c :: rest => do
    let placed ← shortEscape? c
    (unescape? waiting rest).map (placed :: ·)
  | c :: rest =>
    if waiting = none ∧ c ≠ '\\' ∧ isControl c = false then (unescape? none rest).map (c :: ·)
    else none
  | [] => if waiting = none then some [] else none

/-- The text of a string, given what stands between its quotes. -/
def unquote? (body : List Char) : Option (List Char) :=
  if '\\' ∈ body then unescape? none body else some body

theorem length_of_enclosed? {cs body rest : List Char} (h : enclosed? cs = some (body, rest)) :
    rest.length < cs.length := by
  fun_induction enclosed? cs generalizing body with
  | case1 => simp_all
  | case2 c tail ih =>
    simp only [Option.map_eq_some_iff, Prod.mk.injEq] at h
    obtain ⟨⟨_, _⟩, htail, -, rfl⟩ := h
    exact Nat.lt_succ_of_lt (Nat.lt_succ_of_lt (ih htail))
  | case3 c tail _ _ ih =>
    simp only [Option.map_eq_some_iff, Prod.mk.injEq] at h
    obtain ⟨⟨_, _⟩, htail, -, rfl⟩ := h
    exact Nat.lt_succ_of_lt (ih htail)
  | case4 => exact absurd h nofun

/-! ## Tokens in front of a text -/

/-- The characters that may stand between tokens. -/
def isBlank (c : Char) : Bool := c = ' ' ∨ c = '\t' ∨ c = '\n' ∨ c = '\r'

/-- The characters at which a bare word ends. -/
def isDelimiter (c : Char) : Bool := c = ',' ∨ c = ']' ∨ c = '\x7d'

/-- The characters up to the next delimiter, without the blanks in front of it. -/
def bareWord (cs : List Char) : List Char :=
  ((cs.takeWhile (! isDelimiter ·)).reverse.dropWhile isBlank).reverse

/-- The token in front of a text that starts with no blank, and what follows it. Whether it may be a
bare word depends on the place: elsewhere a colon is a token, and what is none is refused. -/
def next? (atValue : Bool) : List Char → Option (Token × List Char)
  | '\x7b' :: rest => some (.openBrace, rest)
  | '\x7d' :: rest => some (.closeBrace, rest)
  | '[' :: rest => some (.openBracket, rest)
  | ']' :: rest => some (.closeBracket, rest)
  | ',' :: rest => some (.comma, rest)
  | '"' :: rest => do
    let (body, after) ← enclosed? rest
    let cs ← unquote? body
    some (.text (String.ofList cs), after)
  | c :: rest =>
    if atValue then
      some (.bare (String.ofList (bareWord (c :: rest))), rest.dropWhile (! isDelimiter ·))
    else if c = ':' then some (.colon, rest)
    else none
  | [] => none

theorem length_of_next? {atValue : Bool} {cs rest : List Char} {t : Token}
    (h : next? atValue cs = some (t, rest)) : rest.length < cs.length := by
  unfold next? at h
  split at h
  case h_6 =>
    simp only [Option.bind_eq_bind, Option.bind_eq_some_iff, Option.some.injEq,
      Prod.mk.injEq] at h
    obtain ⟨⟨_, _⟩, hbody, _, -, -, rfl⟩ := h
    exact Nat.lt_succ_of_lt (length_of_enclosed? hbody)
  case h_7 c tail _ _ _ _ _ _ =>
    split at h
    · simp only [Option.some.injEq, Prod.mk.injEq] at h
      have := (List.dropWhile_suffix (! isDelimiter ·) (l := tail)).length_le
      simp only [← h.2, List.length_cons]
      omega
    · simp only [Option.ite_none_right_eq_some, Option.some.injEq, Prod.mk.injEq] at h
      simp [← h.2.2]
  case h_8 => exact absurd h nofun
  all_goals
    simp only [Option.some.injEq, Prod.mk.injEq] at h
    simp [← h.2]

end TokenBridge.Json
