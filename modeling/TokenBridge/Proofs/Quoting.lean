import TokenBridge.Json.Token

/-!
# Tokens read back

The text of a token is read back in front of whatever follows it. A string is found again between
its quotes, since no quote and no backslash inside stands alone, and what its escapes stand for are
the characters that were escaped. A bare word is read back only in front of its end: nothing inside
tells where it stops.
-/

namespace TokenBridge.Json

variable {c : Char} {cs rest : List Char} {atValue : Bool} {t : Token} {w : String}

/-! ### Strings -/

/-- A character is escaped by a letter behind a backslash, by four digits, or not at all. -/
theorem escape_cases (c : Char) :
    (∃ short, escape c = ['\\', short] ∧ shortEscape? short = some c ∧ short ≠ 'u') ∨
      (c.toNat < 32 ∧
        escape c = ['\\', 'u', '0', '0', upperDigit (c.toNat / 16), upperDigit (c.toNat % 16)]) ∨
      (escape c = [c] ∧ c ≠ '"' ∧ c ≠ '\\' ∧ isControl c = false) := by
  unfold escape
  by_cases hquote : c = '"'
  · subst hquote
    exact Or.inl ⟨'"', by simp [shortEscape?]⟩
  by_cases hslash : c = '\\'
  · subst hslash
    exact Or.inl ⟨'\\', by simp [shortEscape?]⟩
  by_cases hback : c = '\x08'
  · subst hback
    exact Or.inl ⟨'b', by simp [shortEscape?]⟩
  by_cases htab : c = '\t'
  · subst htab
    exact Or.inl ⟨'t', by simp [shortEscape?]⟩
  by_cases hline : c = '\n'
  · subst hline
    exact Or.inl ⟨'n', by simp [shortEscape?]⟩
  by_cases hpage : c = '\x0c'
  · subst hpage
    exact Or.inl ⟨'f', by simp [shortEscape?]⟩
  by_cases hreturn : c = '\r'
  · subst hreturn
    exact Or.inl ⟨'r', by simp [shortEscape?]⟩
  rw [if_neg hquote, if_neg hslash, if_neg hback, if_neg htab, if_neg hline, if_neg hpage,
    if_neg hreturn]
  by_cases hcontrol : isControl c = true
  · rw [if_pos hcontrol]
    exact Or.inr (Or.inl ⟨of_decide_eq_true hcontrol, rfl⟩)
  · rw [if_neg hcontrol]
    exact Or.inr (Or.inr ⟨rfl, hquote, hslash, eq_false_of_ne_true hcontrol⟩)

theorem upperDigit_plain : ∀ n < 16, upperDigit n ≠ '"' ∧ upperDigit n ≠ '\\' := by decide

/-- Four digits are read as the number that they write. -/
theorem unit?_upperDigit :
    ∀ n < 32, unit? '0' '0' (upperDigit (n / 16)) (upperDigit (n % 16)) = some n := by decide

theorem enclosed?_cons (hquote : c ≠ '"') (hslash : c ≠ '\\') (rest : List Char) :
    enclosed? (c :: rest) = (enclosed? rest).map fun (body, after) => (c :: body, after) := by
  rw [enclosed?]
  · exact hquote
  · intro _ _ hc
    exact absurd hc hslash

/-- An escaped character does not close a string. -/
theorem enclosed?_escape (c : Char) (rest : List Char) :
    enclosed? (escape c ++ rest) =
      (enclosed? rest).map fun (body, after) => (escape c ++ body, after) := by
  rcases escape_cases c with
    ⟨short, hescape, _⟩ | ⟨hcontrol, hescape⟩ | ⟨hescape, hquote, hslash, _⟩
  · rw [hescape]
    rfl
  · have hhigh := upperDigit_plain (c.toNat / 16) (by omega)
    have hlow := upperDigit_plain (c.toNat % 16) (by omega)
    rw [hescape]
    simp only [List.cons_append, List.nil_append, enclosed?, enclosed?_cons hhigh.1 hhigh.2,
      enclosed?_cons hlow.1 hlow.2, enclosed?_cons (show '0' ≠ '"' by decide) (by decide),
      Option.map_map]
    rfl
  · rw [hescape]
    exact enclosed?_cons hquote hslash rest

/-- The escaped characters of a string end at its closing quote. -/
theorem enclosed?_escapes (cs rest : List Char) :
    enclosed? (cs.flatMap escape ++ '"' :: rest) = some (cs.flatMap escape, rest) := by
  induction cs with
  | nil => rfl
  | cons c cs ih =>
    rw [List.flatMap_cons, List.append_assoc, enclosed?_escape, ih]
    rfl

/-- An escaped character stands for itself. -/
theorem unescape?_escape (c : Char) (rest : List Char) :
    unescape? none (escape c ++ rest) = (unescape? none rest).map (c :: ·) := by
  rcases escape_cases c with ⟨short, hescape, hshort, hother⟩ | ⟨hcontrol, hescape⟩ |
    ⟨hescape, _, hslash, hplain⟩
  · rw [hescape, List.cons_append, List.cons_append, List.nil_append, unescape?, hshort]
    · rfl
    · rintro _ _ _ _ _ rfl
      exact absurd rfl hother
  · have hplace : place? none c.toNat = some ([c], none) := by
      rw [place?, if_pos (Or.inl (by omega)), Char.ofNat_toNat]
    rw [hescape]
    simp only [List.cons_append, List.nil_append, unescape?, unit?_upperDigit c.toNat hcontrol,
      hplace, Option.bind_eq_bind, Option.bind_some]
  · rw [hescape, List.cons_append, List.nil_append, unescape?, if_pos ⟨rfl, hslash, hplain⟩]
    · rintro _ _ _ _ _ rfl
      exact absurd rfl hslash
    · rintro _ _ rfl
      exact absurd rfl hslash

theorem unescape?_escapes (cs : List Char) : unescape? none (cs.flatMap escape) = some cs := by
  induction cs with
  | nil => rfl
  | cons c cs ih =>
    rw [List.flatMap_cons, unescape?_escape, ih]
    rfl

/-- Where no backslash stands, nothing was escaped. -/
theorem escapes_eq_self (h : '\\' ∉ cs.flatMap escape) : cs.flatMap escape = cs := by
  induction cs with
  | nil => rfl
  | cons c cs ih =>
    rw [List.flatMap_cons, List.mem_append, not_or] at h
    rw [List.flatMap_cons, ih h.2]
    rcases escape_cases c with ⟨short, hescape, _⟩ | ⟨_, hescape⟩ | ⟨hescape, _⟩
    · rw [hescape] at h
      exact absurd List.mem_cons_self h.1
    · rw [hescape] at h
      exact absurd List.mem_cons_self h.1
    · rw [hescape]
      rfl

/-- A string is read back from what stands between its quotes. -/
theorem unquote?_escapes (cs : List Char) : unquote? (cs.flatMap escape) = some cs := by
  unfold unquote?
  by_cases hescaped : '\\' ∈ cs.flatMap escape
  · rw [if_pos hescaped]
    exact unescape?_escapes cs
  · rw [if_neg hescaped, escapes_eq_self hescaped]

/-! ### Bare words -/

/-- A character that stands in a bare word wherever a value may start. -/
def isWordChar (c : Char) : Bool :=
  isBlank c = false ∧ isDelimiter c = false ∧ c ≠ '\x7b' ∧ c ≠ '[' ∧ c ≠ '"'

/-- A bare word that is read as it stands. -/
def IsWord (w : String) : Prop := w.toList ≠ [] ∧ ∀ c ∈ w.toList, isWordChar c = true

/-- A bare word in front of the text ends there. -/
def EndsWord (rest : List Char) : Prop := ∀ c ∈ rest.head?, isDelimiter c = true

theorem endsWord_nil : EndsWord [] := nofun

theorem endsWord_cons (h : isDelimiter c = true) (rest : List Char) : EndsWord (c :: rest) := by
  intro c' hc'
  rw [← Option.some.inj hc']
  exact h

theorem isWordChar_of_isDigit (h : c.isDigit = true) : isWordChar c = true := by
  have hne : ∀ other : Char, other.isDigit = false → c ≠ other := by
    rintro other hother rfl
    rw [h] at hother
    cases hother
  simp [isWordChar, isBlank, isDelimiter, hne]

/-- A number is written as a bare word. -/
theorem isWord_text (n : Nat) : IsWord (Decimal.text n) := by
  have hdigits : (Decimal.text n).toList = Decimal.digits n := String.toList_ofList
  unfold IsWord
  rw [hdigits]
  constructor
  · exact Decimal.digits_ne_nil n
  · intro c hc
    exact isWordChar_of_isDigit (Decimal.isDigit_of_mem_digits hc)

namespace EndsWord

theorem takeWhile_eq_nil (h : EndsWord rest) : rest.takeWhile (! isDelimiter ·) = [] := by
  cases rest with
  | nil => rfl
  | cons c tail =>
    have hc := h c rfl
    simp [hc]

theorem dropWhile_eq_self (h : EndsWord rest) : rest.dropWhile (! isDelimiter ·) = rest := by
  cases rest with
  | nil => rfl
  | cons c tail =>
    have hc := h c rfl
    simp [hc]

end EndsWord

namespace IsWord

theorem not_delimiter (h : IsWord w) : ∀ c ∈ w.toList, (! isDelimiter c) = true := by
  intro c hc
  obtain ⟨_, hinside, _⟩ := of_decide_eq_true (h.2 c hc)
  rw [hinside]
  rfl

/-- No blanks are cut off behind a word. -/
theorem dropWhile_reverse (h : IsWord w) :
    w.toList.reverse.dropWhile isBlank = w.toList.reverse := by
  cases hback : w.toList.reverse with
  | nil => rfl
  | cons c tail =>
    have hc : c ∈ w.toList := by
      rw [← List.mem_reverse, hback]
      exact List.mem_cons_self
    obtain ⟨hplain, _⟩ := of_decide_eq_true (h.2 c hc)
    simp [hplain]

/-- A word in front of its end is all of the bare word there. -/
theorem bareWord_append (h : IsWord w) (hrest : EndsWord rest) :
    bareWord (w.toList ++ rest) = w.toList := by
  rw [bareWord, List.takeWhile_append_of_pos h.not_delimiter, hrest.takeWhile_eq_nil,
    List.append_nil, h.dropWhile_reverse, List.reverse_reverse]

/-- A word is read where a value may start, up to its end. -/
theorem next?_append (h : IsWord w) (hrest : EndsWord rest) :
    next? true (w.toList ++ rest) = some (.bare w, rest) := by
  have hword := h.bareWord_append hrest
  have hinside := h.not_delimiter
  cases hchars : w.toList with
  | nil => exact absurd hchars h.1
  | cons c tail =>
    have hchar := of_decide_eq_true (h.2 c (hchars ▸ List.mem_cons_self))
    rw [hchars] at hword hinside
    have hafter : (tail ++ rest).dropWhile (! isDelimiter ·) = rest := by
      rw [List.dropWhile_append_of_pos fun c hc => hinside c (List.mem_cons_of_mem _ hc),
        hrest.dropWhile_eq_self]
    have hw : String.ofList (bareWord (c :: (tail ++ rest))) = w := by
      rw [← List.cons_append, hword, ← hchars, String.ofList_toList]
    obtain ⟨_, hdelimiter, hbrace, hbracket, hquote⟩ := hchar
    have hends : ∀ other, isDelimiter other = true → c ≠ other := by
      rintro other hother rfl
      rw [hdelimiter] at hother
      cases hother
    -- The first character neither opens nor closes anything, so it starts a bare word.
    rw [List.cons_append, next?, if_pos rfl, hw, hafter]
    · exact hbrace
    · exact hends '\x7d' rfl
    · exact hbracket
    · exact hends ']' rfl
    · exact hends ',' rfl
    · exact hquote

end IsWord

/-- The text of a token can be read where the token may stand: a bare word in the place of a value
and in front of its end, a colon elsewhere. -/
def Token.Reads (atValue : Bool) (rest : List Char) : Token → Prop
  | bare w => atValue = true ∧ IsWord w ∧ EndsWord rest
  | colon => atValue = false
  | _ => True

/-- A token is read back from its text. -/
theorem next?_chars (h : t.Reads atValue rest) :
    next? atValue (t.chars ++ rest) = some (t, rest) := by
  cases t with
  | bare w =>
    obtain ⟨rfl, hw, hrest⟩ := h
    exact hw.next?_append hrest
  | text s =>
    have henclosed := enclosed?_escapes s.toList rest
    simp only [Token.chars, quote, List.cons_append, List.append_assoc, List.nil_append, next?,
      henclosed, unquote?_escapes, Option.bind_eq_bind, Option.bind_some, String.ofList_toList]
  | colon =>
    obtain rfl := h
    rfl
  | _ => rfl

/-- The text of a token does not start with a blank. -/
theorem Token.exists_chars_append (h : t.Reads atValue rest) :
    ∃ c cs, t.chars ++ rest = c :: cs ∧ isBlank c = false := by
  cases t with
  | bare w =>
    obtain ⟨_, hw, _⟩ := h
    cases hchars : w.toList with
    | nil => exact absurd hchars hw.1
    | cons c tail =>
      have hchar := of_decide_eq_true (hw.2 c (hchars ▸ List.mem_cons_self))
      exact ⟨c, tail ++ rest, by rw [chars, hchars, List.cons_append], hchar.1⟩
  | _ => exact ⟨_, _, rfl, rfl⟩

end TokenBridge.Json
