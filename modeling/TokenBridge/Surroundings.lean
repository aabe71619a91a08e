import TokenBridge.Error.Rejection
import TokenBridge.Json.Fields

/-!
# Surroundings of a call

A call knows the block it runs in, the bridge's own address, and what token contracts reply to it: a
token answers with JSON text what an account holds and how much of it a spender may move, and until
when. Replies may be anything, and the one about an allowance may say more than that.

A call reports events and attributes for observers, and orders to tokens, which are carried out
after the call: take an amount from an owner who allowed it, or pay one out.
-/

namespace TokenBridge

/-! ## Orders to token contracts -/

/-- What a token is told to do. -/
inductive TokenOrder where
  /-- Move an amount out of an owner's allowance. -/
  | take (owner recipient : Address) (amount : Amount)
  /-- Pay an amount out of the bridge's own balance. -/
  | pay (recipient : Address) (amount : Amount)
  deriving DecidableEq

namespace TokenOrder

/-- The written form. -/
def toJson : TokenOrder → Json
  | take owner recipient amount =>
    .object [("transfer_from", .object [
      ("owner", .text owner),
      ("recipient", .text recipient),
      ("amount", .ofAmount amount)])]
  | pay recipient amount =>
    .object [("transfer", .object [
      ("recipient", .text recipient),
      ("amount", .ofAmount amount)])]

end TokenOrder

/-- An order and the token that it goes to. -/
structure TokenCall where
  token : Address
  order : TokenOrder
  deriving DecidableEq

/-! ## Replies of token contracts -/

/-- When something ends. -/
inductive Expiry where
  | never
  | atHeight (height : UInt64)
  | atTime (time : Timestamp)
  deriving DecidableEq

namespace Expiry

/-- Is the end reached at a height and time? -/
def isReached (e : Expiry) (height : UInt64) (now : Timestamp) : Bool :=
  match e with
  | never => false
  | atHeight limit => limit ≤ height
  | atTime limit => limit.nanos ≤ now.nanos

/-- The written form. -/
def toJson : Expiry → Json
  | never => .object [("never", .object [])]
  | atHeight height => .object [("at_height", .ofWord64 height)]
  | atTime time => .object [("at_time", .ofTimestamp time)]

/-- Reads the written form. -/
def ofJson? (value : Json) : Option Expiry := do
  let (name, content) ← value.choice?
  match name with
  | "never" => (content.record? []).map fun _ => never
  | "at_height" => content.word64?.map atHeight
  | "at_time" => content.timestamp?.map atTime
  | _ => none

end Expiry

/-- How much a spender may move, and until when. -/
structure Allowance where
  amount : Amount
  expiry : Expiry
  deriving DecidableEq

namespace Allowance

/-- No allowance. -/
def none : Allowance := ⟨.zero, .never⟩

/-- What may be moved at a height and time. -/
def usable (a : Allowance) (height : UInt64) (now : Timestamp) : Amount :=
  if a.expiry.isReached height now then .zero else a.amount

/-- The written form. -/
def toJson (a : Allowance) : Json :=
  .object [("allowance", .ofAmount a.amount), ("expires", a.expiry.toJson)]

/-- Reads a reply. Further members are passed over; the two that count come once each. -/
def ofJson? : Json → Option Allowance
  | .object members => do
    let known := members.map Prod.fst |>.filter (["allowance", "expires"].contains ·)
    if ¬known.Nodup then Option.none
    some {
      amount := ← Json.required members "allowance" Json.amount?
      expiry := ← Json.required members "expires" Expiry.ofJson? }
  | _ => Option.none

end Allowance

/-- The reply that tells a balance. -/
def balanceToJson (balance : Amount) : Json := .object [("balance", .ofAmount balance)]

/-- Reads a reply that tells a balance. -/
def balanceOfJson? (value : Json) : Option Amount := do
  let members ← value.record? ["balance"]
  Json.required members "balance" Json.amount?

/-- Reads the text of a document. -/
def Document.read (document : Document) (ofJson? : Json → Option α) (input : String) :
    Except HostError α :=
  match (Json.parse? input).bind ofJson? with
  | some a => .ok a
  | none => .error (.unreadable document)

/-! ## What a call sees -/

/-- What token contracts reply, as text. -/
structure Tokens where
  /-- The reply of a token about the balance of an account. -/
  balance : (token account : Address) → Except HostError String
  /-- The reply of a token about what an owner allows a spender. -/
  allowance : (token owner spender : Address) → Except HostError String

/-- What a call sees around it. -/
structure Env where
  /-- The time of the block. -/
  now : Timestamp
  /-- The height of the block. -/
  height : UInt64
  /-- The address of the bridge. -/
  self : Address
  tokens : Tokens

namespace Env

/-- What an account holds of a token. -/
def balanceOf (env : Env) (token account : Address) : Except HostError Amount := do
  let reply ← env.tokens.balance token account
  Document.balance.read balanceOfJson? reply

/-- What the bridge may take from an owner. -/
def allowanceOf (env : Env) (token owner : Address) : Except HostError Allowance := do
  let reply ← env.tokens.allowance token owner env.self
  Document.allowance.read Allowance.ofJson? reply

end Env

/-! ## Receipts -/

/-- A name and what is told under it. -/
abbrev Attribute := String × String

/-- Something that happened. -/
structure Event where
  kind : String
  attributes : List Attribute
  deriving DecidableEq

/-- What a successful call reports. -/
structure Receipt where
  calls : List TokenCall
  events : List Event
  attributes : List Attribute
  deriving DecidableEq

/-- An attribute that tells a number. -/
def numberAttribute (key : String) (n : Nat) : Attribute := (key, Decimal.text n)

/-- An attribute that tells whether something is so. -/
def flagAttribute (key : String) (flag : Bool) : Attribute :=
  (key, if flag then "true" else "false")

namespace Receipt

/-- The written form of attributes. -/
def attributesToJson (attributes : List Attribute) : Json :=
  .ofList (fun (key, value) => .object [("key", .text key), ("value", .text value)]) attributes

/-- The written form of an event. -/
def eventToJson (event : Event) : Json :=
  .object [("type", .text event.kind), ("attributes", attributesToJson event.attributes)]

/-- The written form of an order, which no reply is awaited to. -/
def callToJson (call : TokenCall) : Json :=
  .object [
    ("id", .nat 0),
    ("msg", .object [("wasm", .object [("execute", .object [
      ("contract_addr", .text call.token),
      ("msg", .ofBytes (utf8 call.order.toJson.render)),
      ("funds", .array [])])])]),
    ("gas_limit", .null),
    ("reply_on", .text "never")]

/-- The written form. -/
def toJson (r : Receipt) : Json :=
  .object [
    ("messages", .ofList callToJson r.calls),
    ("attributes", attributesToJson r.attributes),
    ("events", .ofList eventToJson r.events),
    ("data", .null)]

end Receipt

end TokenBridge
