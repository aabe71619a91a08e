import TokenBridge.Json.Value
import TokenBridge.Proofs.Quoting

/-!
# Values read back

The text of a value is read back as that value, if its bare words can be told from what surrounds
them and its arrays and objects do not lie too deep in one another. The reader is followed through
the text token by token: wherever a value may start, it comes out behind that value, with the same
arrays and objects open around it.
-/

namespace TokenBridge.Json

/-- Arrays and objects lie at most so deep in one another, and bare words are read as they stand. -/
inductive Fits : Nat → Json → Prop
  | bare {depth w} (hw : IsWord w) : Fits depth (.bare w)
  | text {depth} (s) : Fits depth (.text s)
  | array {depth items} (h : ∀ item ∈ items, Fits depth item) : Fits (depth + 1) (.array items)
  | object {depth members} (h : ∀ member ∈ members, Fits depth member.2) :
      Fits (depth + 1) (.object members)

/-- The characters of a sequence of tokens. -/
def charsOf (tokens : List Token) : List Char := tokens.flatMap Token.chars

theorem charsOf_cons_append (t : Token) (tokens : List Token) (rest : List Char) :
    charsOf (t :: tokens) ++ rest = t.chars ++ (charsOf tokens ++ rest) := by
  rw [charsOf, List.flatMap_cons, List.append_assoc]
  rfl

theorem charsOf_append_append (tokens more : List Token) (rest : List Char) :
    charsOf (tokens ++ more) ++ rest = charsOf tokens ++ (charsOf more ++ rest) := by
  rw [charsOf, List.flatMap_append, List.append_assoc]
  rfl

namespace Reader

variable {reader later : Reader} {frames : List Frame} {t : Token} {rest : List Char}

/-- The reader takes a token where it can be read. -/
theorem read_chars (hreads : t.Reads reader.atValue rest) (hstep : reader.step t = some later) :
    reader.read (t.chars ++ rest) = later.read rest := by
  have hnext := next?_chars hreads
  obtain ⟨c, cs, hchars, hblank⟩ := Token.exists_chars_append hreads
  rw [hchars] at hnext ⊢
  rw [read, if_neg (ne_true_of_eq_false hblank)]
  split
  · next hnone =>
    rw [hnext] at hnone
    cases hnone
  · next t' after hsome =>
    rw [hnext] at hsome
    cases hsome
    rw [hstep]

/-- The reader takes what may start here as what starts a value inside the frames. -/
structure Opens (reader : Reader) (frames : List Frame) : Prop where
  atValue : reader.atValue = true
  step_eq : ∀ t, t ≠ .comma → t ≠ .closeBracket → reader.step t = start frames t

theorem opens_value (frames : List Frame) : (Reader.value frames).Opens frames where
  atValue := rfl
  step_eq _ _ _ := rfl

/-- The first item of an array needs no comma in front of it. -/
theorem opens_item (frames : List Frame) (before : List Json) :
    (Reader.item frames before true).Opens (.items before false :: frames) where
  atValue := rfl
  step_eq t hcomma hbracket := by
    cases t with
    | comma => exact absurd rfl hcomma
    | closeBracket => exact absurd rfl hbracket
    | _ => rfl

/-- Wherever the value may start, the reader comes out behind it. -/
def Passes (depth : Nat) (v : Json) : Prop :=
  ∀ (reader : Reader) (frames : List Frame) (rest : List Char), reader.Opens frames →
    frames.length + depth ≤ maxDepth → EndsWord rest →
      reader.read (charsOf v.tokens ++ rest) = (behind frames v).read rest

variable {depth : Nat} {items : List Json} {members : List (String × Json)}

theorem endsWord_moreItems (items : List Json) (rest : List Char) :
    EndsWord (charsOf (moreItems items) ++ rest) := by
  cases items with
  | nil => exact endsWord_cons rfl _
  | cons item items => exact endsWord_cons rfl _

theorem endsWord_moreMembers (members : List (String × Json)) (rest : List Char) :
    EndsWord (charsOf (moreMembers members) ++ rest) := by
  cases members with
  | nil => exact endsWord_cons rfl _
  | cons member members => exact endsWord_cons rfl _

/-- The items behind the first one of an array are read up to its end. -/
theorem read_moreItems (h : ∀ item ∈ items, Passes depth item) (before : List Json)
    (hroom : frames.length + 1 + depth ≤ maxDepth) (rest : List Char) :
    (Reader.item frames before false).read (charsOf (moreItems items) ++ rest) =
      (behind frames (.array (before.reverse ++ items))).read rest := by
  induction items generalizing before with
  | nil =>
    rw [List.append_nil]
    exact read_chars (t := .closeBracket) trivial rfl
  | cons item items ih =>
    have hcomma : (Reader.item frames before false).read
        (charsOf (moreItems (item :: items)) ++ rest) =
          (Reader.value (.items before false :: frames)).read
            (charsOf item.tokens ++ (charsOf (moreItems items) ++ rest)) := by
      rw [moreItems, charsOf_cons_append, charsOf_append_append]
      exact read_chars trivial rfl
    have hitem := h item List.mem_cons_self _ _ _ (opens_value (.items before false :: frames))
      hroom (endsWord_moreItems items rest)
    have hmore := ih (fun item hitem => h item (List.mem_cons_of_mem _ hitem)) (item :: before)
    rw [hcomma, hitem, behind, hmore, List.reverse_cons, List.append_assoc, List.singleton_append]

/-- A member of an object is read where its key may stand. -/
theorem read_member {key : String} {value : Json} {before : List (String × Json)}
    (h : Passes depth value) (hkey : reader.step (.text key) = some (.colon frames before key))
    (hroom : frames.length + 1 + depth ≤ maxDepth) (rest : List Char) :
    reader.read (charsOf (.text key :: .colon :: (value.tokens ++ moreMembers members)) ++ rest) =
      (Reader.member frames ((key, value) :: before)).read
        (charsOf (moreMembers members) ++ rest) := by
  have hvalue := h _ _ _ (opens_value (.members before key :: frames)) hroom
    (endsWord_moreMembers members rest)
  have hcolon : (Reader.colon frames before key).read
      (Token.colon.chars ++ (charsOf value.tokens ++ (charsOf (moreMembers members) ++ rest))) =
        (Reader.value (.members before key :: frames)).read
          (charsOf value.tokens ++ (charsOf (moreMembers members) ++ rest)) :=
    read_chars rfl rfl
  rw [charsOf_cons_append, charsOf_cons_append, charsOf_append_append,
    read_chars (t := .text key) trivial hkey, hcolon, hvalue, behind]

/-- The members behind the first one of an object are read up to its end. -/
theorem read_moreMembers (h : ∀ member ∈ members, Passes depth member.2)
    (before : List (String × Json)) (hroom : frames.length + 1 + depth ≤ maxDepth)
    (rest : List Char) :
    (Reader.member frames before).read (charsOf (moreMembers members) ++ rest) =
      (behind frames (.object (before.reverse ++ members))).read rest := by
  induction members generalizing before with
  | nil =>
    rw [List.append_nil]
    exact read_chars (t := .closeBrace) trivial rfl
  | cons member members ih =>
    obtain ⟨key, value⟩ := member
    have hcomma : (Reader.member frames before).read
        (charsOf (moreMembers ((key, value) :: members)) ++ rest) =
          (Reader.nextKey frames before).read
            (charsOf (.text key :: .colon :: (value.tokens ++ moreMembers members)) ++ rest) := by
      rw [moreMembers, charsOf_cons_append]
      exact read_chars trivial rfl
    have hmember : (Reader.nextKey frames before).read
        (charsOf (.text key :: .colon :: (value.tokens ++ moreMembers members)) ++ rest) =
          (Reader.member frames ((key, value) :: before)).read
            (charsOf (moreMembers members) ++ rest) :=
      read_member (h _ List.mem_cons_self) rfl hroom rest
    have hmore := ih (fun member hmember => h member (List.mem_cons_of_mem _ hmember))
      ((key, value) :: before)
    rw [hcomma, hmember, hmore, List.reverse_cons, List.append_assoc, List.singleton_append]

theorem passes_bare {w : String} (hw : IsWord w) : Passes depth (.bare w) := by
  intro reader frames rest hopens _ hrest
  have hstep : reader.step (.bare w) = some (behind frames (.bare w)) :=
    hopens.step_eq (.bare w) nofun nofun
  have hreads : (Token.bare w).Reads reader.atValue rest := ⟨hopens.atValue, hw, hrest⟩
  rw [tokens, charsOf_cons_append]
  exact read_chars hreads hstep

theorem passes_text (s : String) : Passes depth (.text s) := by
  intro reader frames rest hopens _ _
  have hstep : reader.step (.text s) = some (behind frames (.text s)) :=
    hopens.step_eq (.text s) nofun nofun
  rw [tokens, charsOf_cons_append]
  exact read_chars (t := .text s) trivial hstep

theorem passes_array (h : ∀ item ∈ items, Passes depth item) :
    Passes (depth + 1) (.array items) := by
  intro reader frames rest hopens hroom _
  have hinside : frames.length + 1 + depth ≤ maxDepth := by omega
  have hstep : reader.step .openBracket = some (.item frames [] true) := by
    rw [hopens.step_eq .openBracket nofun nofun, start, if_pos (by omega)]
  cases items with
  | nil =>
    rw [tokens, charsOf_cons_append, read_chars (t := .openBracket) trivial hstep]
    exact read_chars (t := .closeBracket) trivial rfl
  | cons item items =>
    have hitem := h item List.mem_cons_self _ _ _ (opens_item frames []) hinside
      (endsWord_moreItems items rest)
    have hmore := read_moreItems (fun item hitem => h item (List.mem_cons_of_mem _ hitem)) [item]
      hinside rest
    rw [tokens, charsOf_cons_append, charsOf_append_append,
      read_chars (t := .openBracket) trivial hstep, hitem, behind, hmore]
    rfl

theorem passes_object (h : ∀ member ∈ members, Passes depth member.2) :
    Passes (depth + 1) (.object members) := by
  intro reader frames rest hopens hroom _
  have hinside : frames.length + 1 + depth ≤ maxDepth := by omega
  have hstep : reader.step .openBrace = some (.firstKey frames) := by
    rw [hopens.step_eq .openBrace nofun nofun, start, if_pos (by omega)]
  cases members with
  | nil =>
    rw [tokens, charsOf_cons_append, read_chars (t := .openBrace) trivial hstep]
    exact read_chars (t := .closeBrace) trivial rfl
  | cons member members =>
    obtain ⟨key, value⟩ := member
    have hmember : (Reader.firstKey frames).read
        (charsOf (.text key :: .colon :: (value.tokens ++ moreMembers members)) ++ rest) =
          (Reader.member frames [(key, value)]).read (charsOf (moreMembers members) ++ rest) :=
      read_member (h _ List.mem_cons_self) rfl hinside rest
    have hmore := read_moreMembers
      (fun member hmember => h member (List.mem_cons_of_mem _ hmember)) [(key, value)] hinside rest
    rw [tokens, charsOf_cons_append, read_chars (t := .openBrace) trivial hstep, hmember, hmore]
    rfl

/-- The reader comes out behind every value that fits. -/
theorem passes_of_fits {v : Json} (h : Fits depth v) : Passes depth v := by
  induction h with
  | bare hw => exact passes_bare hw
  | text s => exact passes_text s
  | array _ ih => exact passes_array ih
  | object _ ih => exact passes_object ih

end Reader

/-- A value that fits is read back from its text. -/
theorem parse?_render {v : Json} (h : Fits maxDepth v) : parse? v.render = some v := by
  have hpasses := Reader.passes_of_fits h (.value []) [] [] (Reader.opens_value [])
    (Nat.le_of_eq (Nat.zero_add maxDepth)) endsWord_nil
  rw [List.append_nil] at hpasses
  rw [parse?, render, String.toList_ofList, ← charsOf, hpasses, Reader.read]
  rfl

end TokenBridge.Json
