import TokenBridge.Message

/-!
# Questions

The requests that only look at a bridge. In JSON a question is an object with one member, whose key
names the question and whose content holds its arguments, be it none.
-/

namespace TokenBridge

/-- A place in an enumeration: what it comes after, and how much is wanted. -/
structure Page where
  start : Option Address
  limit : Option UInt32
  deriving DecidableEq

/-- A request that only looks at the bridge. -/
inductive Question where
  | settings
  | status
  | commitment (height : UInt64)
  | latestCommitment
  | isFinalized (height : UInt64)
  | isIncluded (height : UInt64) (leaf : Bytes) (path : MerklePath)
  | messageLeaf (message : Message)
  | binding (token : Address)
  | bindingOfAsset (asset : Bytes)
  | bindings (page : Page)
  | quota (token : Address) (flow : Flow)
  | isRedeemed (sourceChain nonce : UInt64)
  | holdsRole (role : Role) (account : Address)
  | members (role : Role) (page : Page)
  | locked (token : Address)
  | nextNonce
  deriving DecidableEq

namespace Page

/-- The written members. -/
def toMembers (page : Page) : List (String × Json) :=
  [("start_after", .ofOption .text page.start), ("limit", .ofOption .ofWord32 page.limit)]

/-- Reads the written members. -/
def ofMembers? (members : List (String × Json)) : Option Page := do
  some {
    start := ← Json.optional members "start_after" Json.text?
    limit := ← Json.optional members "limit" Json.word32? }

theorem ofMembers?_toMembers (page : Page) : ofMembers? page.toMembers = some page := by
  have hstart : Json.optional page.toMembers "start_after" Json.text? = some page.start :=
    Json.optional_cons_self Json.text?_text rfl page.start
  have hlimit : Json.optional page.toMembers "limit" Json.word32? = some page.limit := by
    rw [toMembers, Json.optional_cons_of_ne (by decide)]
    exact Json.optional_cons_self Json.word32?_ofWord32 rfl page.limit
  simp [ofMembers?, hstart, hlimit]

/-- A page is read past the members that belong to something else. -/
theorem ofMembers?_cons {key : String} (hstart : key ≠ "start_after") (hlimit : key ≠ "limit")
    (value : Json) (members : List (String × Json)) :
    ofMembers? ((key, value) :: members) = ofMembers? members := by
  rw [ofMembers?, Json.optional_cons_of_ne hstart.symm, Json.optional_cons_of_ne hlimit.symm,
    ofMembers?]

end Page

namespace Question

/-- The written form. -/
def toJson : Question → Json
  | settings => .object [("config", .object [])]
  | status => .object [("status", .object [])]
  | commitment height => .object [("commitment", .object [("height", .ofWord64 height)])]
  | latestCommitment => .object [("latest_commitment", .object [])]
  | isFinalized height => .object [("is_finalized", .object [("height", .ofWord64 height)])]
  | isIncluded height leaf path =>
    .object [("verify_inclusion", .object [
      ("height", .ofWord64 height),
      ("leaf", .ofBytes leaf),
      ("proof", path.toJson)])]
  | messageLeaf message => .object [("message_leaf", .object [("message", message.toJson)])]
  | binding token => .object [("asset_binding", .object [("l1_token", .text token)])]
  | bindingOfAsset asset =>
    .object [("asset_by_l2_id", .object [("l2_asset_id", .ofBytes asset)])]
  | bindings page => .object [("asset_bindings", .object page.toMembers)]
  | quota token flow =>
    .object [("rate_limit", .object [("l1_token", .text token), ("flow", .ofFlow flow)])]
  | isRedeemed sourceChain nonce =>
    .object [("nonce_consumed", .object [
      ("source_chain", .ofWord64 sourceChain),
      ("nonce", .ofWord64 nonce)])]
  | holdsRole role account =>
    .object [("has_role", .object [("role", .ofRole role), ("address", .text account)])]
  | members role page =>
    .object [("role_members", .object (("role", .ofRole role) :: page.toMembers))]
  | locked token => .object [("locked_balance", .object [("l1_token", .text token)])]
  | nextNonce => .object [("current_nonce", .object [])]

/-- Reads arguments of which there are none. -/
def withoutArguments? (question : Question) (arguments : Json) : Option Question :=
  (arguments.record? []).map fun _ => question

/-- Reads the arguments of the question of a name. -/
def ofArguments? (name : String) (arguments : Json) : Option Question :=
  match name with
  | "config" => withoutArguments? settings arguments
  | "status" => withoutArguments? status arguments
  | "commitment" => do
    let members ← arguments.record? ["height"]
    some (commitment (← Json.required members "height" Json.word64?))
  | "latest_commitment" => withoutArguments? latestCommitment arguments
  | "is_finalized" => do
    let members ← arguments.record? ["height"]
    some (isFinalized (← Json.required members "height" Json.word64?))
  | "verify_inclusion" => do
    let members ← arguments.record? ["height", "leaf", "proof"]
    some (isIncluded (← Json.required members "height" Json.word64?)
      (← Json.required members "leaf" Json.bytes?)
      (← Json.required members "proof" MerklePath.ofJson?))
  | "message_leaf" => do
    let members ← arguments.record? ["message"]
    some (messageLeaf (← Json.required members "message" Message.ofJson?))
  | "asset_binding" => do
    let members ← arguments.record? ["l1_token"]
    some (binding (← Json.required members "l1_token" Json.text?))
  | "asset_by_l2_id" => do
    let members ← arguments.record? ["l2_asset_id"]
    some (bindingOfAsset (← Json.required members "l2_asset_id" Json.bytes?))
  | "asset_bindings" => do
    let members ← arguments.record? ["start_after", "limit"]
    some (bindings (← Page.ofMembers? members))
  | "rate_limit" => do
    let members ← arguments.record? ["l1_token", "flow"]
    some (quota (← Json.required members "l1_token" Json.text?)
      (← Json.required members "flow" Json.flow?))
  | "nonce_consumed" => do
    let members ← arguments.record? ["source_chain", "nonce"]
    some (isRedeemed (← Json.required members "source_chain" Json.word64?)
      (← Json.required members "nonce" Json.word64?))
  | "has_role" => do
    let members ← arguments.record? ["role", "address"]
    some (holdsRole (← Json.required members "role" Json.role?)
      (← Json.required members "address" Json.text?))
  | "role_members" => do
    let fields ← arguments.record? ["role", "start_after", "limit"]
    some (members (← Json.required fields "role" Json.role?) (← Page.ofMembers? fields))
  | "locked_balance" => do
    let members ← arguments.record? ["l1_token"]
    some (locked (← Json.required members "l1_token" Json.text?))
  | "current_nonce" => withoutArguments? nextNonce arguments
  | _ => none

/-- Reads the written form. -/
def ofJson? (value : Json) : Option Question := do
  let (name, arguments) ← value.choice?
  ofArguments? name arguments

theorem ofJson?_toJson (question : Question) : ofJson? question.toJson = some question := by
  cases question with
  | bindings page =>
    have hrecord : (Json.object page.toMembers).record? ["start_after", "limit"] =
        some page.toMembers :=
      Json.record?_object rfl (by decide)
    simp [ofJson?, toJson, Json.choice?, ofArguments?, hrecord, page.ofMembers?_toMembers]
  | members role page =>
    have hrecord : (Json.object (("role", Json.ofRole role) :: page.toMembers)).record?
        ["role", "start_after", "limit"] = some (("role", Json.ofRole role) :: page.toMembers) :=
      Json.record?_object rfl (by decide)
    simp [ofJson?, toJson, Json.choice?, ofArguments?, hrecord, Page.ofMembers?_cons,
      page.ofMembers?_toMembers]
  | _ =>
    simp [ofJson?, toJson, Json.choice?, ofArguments?, Json.record?_object,
      Json.required_cons_of_ne, withoutArguments?]

end Question

end TokenBridge
