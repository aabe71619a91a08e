import TokenBridge.Json.Token

/-!
# JSON values

A value is written without blanks, its members in the order in which the value holds them. A text is
read by a machine that takes one token at a time and remembers the open arrays and objects around
its place; nesting beyond `maxDepth` is refused.

The machine does not look into bare words: what they say is decided by whoever reads the value.
Between the items of an array stand commas. One item of an array needs no comma in front of it;
by custom that is the first one, but it may be another, and then the first one has one.
-/

namespace TokenBridge

/-- A JSON value. An object keeps its members in order, repeated keys included. -/
inductive Json where
  /-- What stands without quotes or brackets, such as a number. -/
  | bare (word : String)
  | text (value : String)
  | array (items : List Json)
  | object (members : List (String × Json))

namespace Json

/-- The value that stands for nothing. -/
@[match_pattern] def null : Json := bare "null"

/-- A truth value. -/
def bool (value : Bool) : Json := bare (if value then "true" else "false")

/-- A number. -/
def nat (n : Nat) : Json := bare (Decimal.text n)

mutual

/-- The tokens of a value. -/
def tokens : Json → List Token
  | bare w => [.bare w]
  | text s => [.text s]
  | array [] => [.openBracket, .closeBracket]
  | array (item :: items) => .openBracket :: (item.tokens ++ moreItems items)
  | object [] => [.openBrace, .closeBrace]
  | object ((key, value) :: members) =>
    .openBrace :: .text key :: .colon :: (value.tokens ++ moreMembers members)

/-- The tokens of an array after one of its items. -/
def moreItems : List Json → List Token
  | [] => [.closeBracket]
  | item :: items => .comma :: (item.tokens ++ moreItems items)

/-- The tokens of an object after one of its members. -/
def moreMembers : List (String × Json) → List Token
  | [] => [.closeBrace]
  | (key, value) :: members =>
    .comma :: .text key :: .colon :: (value.tokens ++ moreMembers members)

end

/-- The text of a value, without blanks. -/
def render (value : Json) : String :=
  String.ofList (value.tokens.flatMap Token.chars)

/-- How deep arrays and objects may lie in one another. -/
def maxDepth : Nat := 127

/-- An array or object that is still open around a value, with what it holds in front of the value,
last first. -/
inductive Frame where
  /-- An array. `spare` tells whether the item without a comma in front of it is still to come. -/
  | items (before : List Json) (spare : Bool)
  /-- An object, at the value of a key. -/
  | members (before : List (String × Json)) (key : String)

/-- What the reader has seen, by what may come next. -/
inductive Reader where
  /-- A value has to start. -/
  | value (frames : List Frame)
  /-- An array was opened, or an item of it has ended. -/
  | item (frames : List Frame) (before : List Json) (spare : Bool)
  /-- An object was opened. -/
  | firstKey (frames : List Frame)
  /-- A key has to follow the comma behind a member. -/
  | nextKey (frames : List Frame) (before : List (String × Json))
  /-- A colon has to follow the key. -/
  | colon (frames : List Frame) (before : List (String × Json)) (key : String)
  /-- A member of an object has ended. -/
  | member (frames : List Frame) (before : List (String × Json))
  /-- The outermost value has ended. -/
  | done (value : Json)

namespace Reader

/-- The reader behind a value. -/
def behind : List Frame → Json → Reader
  | [], v => .done v
  | .items before spare :: frames, v => .item frames (v :: before) spare
  | .members before key :: frames, v => .member frames ((key, v) :: before)

/-- The reader after the first token of a value. -/
def start (frames : List Frame) : Token → Option Reader
  | .bare w => some (behind frames (.bare w))
  | .text s => some (behind frames (.text s))
  | .openBracket => if frames.length < maxDepth then some (.item frames [] true) else none
  | .openBrace => if frames.length < maxDepth then some (.firstKey frames) else none
  | _ => none

/-- The reader after one more token. -/
def step : Reader → Token → Option Reader
  | .value frames, t => start frames t
  | .item frames before _, .closeBracket => some (behind frames (.array before.reverse))
  | .item frames before spare, .comma => some (.value (.items before spare :: frames))
  | .item frames before true, t => start (.items before false :: frames) t
  | .firstKey frames, .closeBrace => some (behind frames (.object []))
  | .firstKey frames, .text key => some (.colon frames [] key)
  | .nextKey frames before, .text key => some (.colon frames before key)
  | .colon frames before key, .colon => some (.value (.members before key :: frames))
  | .member frames before, .comma => some (.nextKey frames before)
  | .member frames before, .closeBrace => some (behind frames (.object before.reverse))
  | _, _ => none

/-- May a value start here? -/
def atValue : Reader → Bool
  | .value _ => true
  | .item .. => true
  | _ => false

/-- The value that has ended with nothing left open. -/
def result? : Reader → Option Json
  | .done v => some v
  | _ => none

/-- The value that a text completes. -/
def read (reader : Reader) (cs : List Char) : Option Json :=
  match cs with
  | [] => reader.result?
  | c :: rest =>
    if isBlank c then read reader rest
    else match _h : next? reader.atValue (c :: rest) with
      | none => none
      | some (t, after) =>
        match reader.step t with
        | none => none
        | some later => read later after
termination_by cs.length
decreasing_by
  · simp
  · exact length_of_next? _h

end Reader

/-- Reads one value from a text that holds nothing else. -/
def parse? (input : String) : Option Json :=
  Reader.read (.value []) input.toList

end Json

end TokenBridge
