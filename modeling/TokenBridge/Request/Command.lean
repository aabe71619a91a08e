import TokenBridge.Message

/-!
# Commands

The requests that change a bridge. In JSON a command is an object with one member, whose key names
the command and whose content holds its arguments.
-/

namespace TokenBridge

/-- A request that changes the bridge. Words of thirty-two bytes come as bytes of any length. -/
inductive Command where
  /-- Lock an amount taken from the caller's allowance. -/
  | deposit (token : Address) (amount : Amount) (recipient : String)
  /-- Lock an amount that the calling token has already moved here. -/
  | receive (sender : Address) (amount : Amount) (notice : Bytes)
  /-- Redeem a committed message. -/
  | withdraw (message : Message) (path : MerklePath) (height : UInt64)
  /-- Accept the state root of the next block; the time is in seconds. -/
  | commit (height : UInt64) (root : Bytes) (time : UInt64)
  | grantRole (role : Role) (account : Address)
  | revokeRole (role : Role) (account : Address)
  | pause (subsystem : Subsystem)
  | unpause (subsystem : Subsystem)
  | bindAsset (token : Address) (asset : Bytes) (tokenDecimals assetDecimals : UInt8)
  | setTerms (token : Address) (flow : Flow) (terms : Terms)
  | setFinalityDelay (seconds : UInt64)
  | setScheme (scheme : Scheme)
  deriving DecidableEq

namespace Command

/-- The written form. -/
def toJson : Command → Json
  | deposit token amount recipient =>
    .object [("deposit", .object [
      ("l1_token", .text token),
      ("amount", .ofAmount amount),
      ("l2_recipient", .text recipient)])]
  | receive sender amount notice =>
    .object [("receive", .object [
      ("sender", .text sender),
      ("amount", .ofAmount amount),
      ("msg", .ofBytes notice)])]
  | withdraw message path height =>
    .object [("withdraw", .object [
      ("message", message.toJson),
      ("proof", path.toJson),
      ("height", .ofWord64 height)])]
  | commit height root time =>
    .object [("commit", .object [
      ("height", .ofWord64 height),
      ("state_root", .ofBytes root),
      ("timestamp", .ofWord64 time)])]
  | grantRole role account =>
    .object [("grant_role", .object [("role", .ofRole role), ("address", .text account)])]
  | revokeRole role account =>
    .object [("revoke_role", .object [("role", .ofRole role), ("address", .text account)])]
  | pause subsystem => .object [("pause", .object [("subsystem", .ofSubsystem subsystem)])]
  | unpause subsystem => .object [("unpause", .object [("subsystem", .ofSubsystem subsystem)])]
  | bindAsset token asset tokenDecimals assetDecimals =>
    .object [("bind_asset", .object [
      ("l1_token", .text token),
      ("l2_asset_id", .ofBytes asset),
      ("l1_decimals", .ofByte tokenDecimals),
      ("l2_decimals", .ofByte assetDecimals)])]
  | setTerms token flow terms =>
    .object [("set_rate_limit", .object [
      ("l1_token", .text token),
      ("flow", .ofFlow flow),
      ("limit", .ofAmount terms.limit),
      ("epoch_duration", .ofWord64 terms.duration)])]
  | setFinalityDelay seconds =>
    .object [("set_finality_delay", .object [("seconds", .ofWord64 seconds)])]
  | setScheme scheme => .object [("set_proof_scheme", .object [("scheme", .ofScheme scheme)])]

/-- Reads the arguments of the command of a name. -/
def ofArguments? (name : String) (arguments : Json) : Option Command :=
  match name with
  | "deposit" => do
    let members ← arguments.record? ["l1_token", "amount", "l2_recipient"]
    some (deposit (← Json.required members "l1_token" Json.text?)
      (← Json.required members "amount" Json.amount?)
      (← Json.required members "l2_recipient" Json.text?))
  | "receive" => do
    let members ← arguments.record? ["sender", "amount", "msg"]
    some (receive (← Json.required members "sender" Json.text?)
      (← Json.required members "amount" Json.amount?)
      (← Json.required members "msg" Json.bytes?))
  | "withdraw" => do
    let members ← arguments.record? ["message", "proof", "height"]
    some (withdraw (← Json.required members "message" Message.ofJson?)
      (← Json.required members "proof" MerklePath.ofJson?)
      (← Json.required members "height" Json.word64?))
  | "commit" => do
    let members ← arguments.record? ["height", "state_root", "timestamp"]
    some (commit (← Json.required members "height" Json.word64?)
      (← Json.required members "state_root" Json.bytes?)
      (← Json.required members "timestamp" Json.word64?))
  | "grant_role" => do
    let members ← arguments.record? ["role", "address"]
    some (grantRole (← Json.required members "role" Json.role?)
      (← Json.required members "address" Json.text?))
  | "revoke_role" => do
    let members ← arguments.record? ["role", "address"]
    some (revokeRole (← Json.required members "role" Json.role?)
      (← Json.required members "address" Json.text?))
  | "pause" => do
    let members ← arguments.record? ["subsystem"]
    some (pause (← Json.required members "subsystem" Json.subsystem?))
  | "unpause" => do
    let members ← arguments.record? ["subsystem"]
    some (unpause (← Json.required members "subsystem" Json.subsystem?))
  | "bind_asset" => do
    let members ← arguments.record? ["l1_token", "l2_asset_id", "l1_decimals", "l2_decimals"]
    some (bindAsset (← Json.required members "l1_token" Json.text?)
      (← Json.required members "l2_asset_id" Json.bytes?)
      (← Json.required members "l1_decimals" Json.byte?)
      (← Json.required members "l2_decimals" Json.byte?))
  | "set_rate_limit" => do
    let members ← arguments.record? ["l1_token", "flow", "limit", "epoch_duration"]
    some (setTerms (← Json.required members "l1_token" Json.text?)
      (← Json.required members "flow" Json.flow?)
      { limit := ← Json.required members "limit" Json.amount?
        duration := ← Json.required members "epoch_duration" Json.word64? })
  | "set_finality_delay" => do
    let members ← arguments.record? ["seconds"]
    some (setFinalityDelay (← Json.required members "seconds" Json.word64?))
  | "set_proof_scheme" => do
    let members ← arguments.record? ["scheme"]
    some (setScheme (← Json.required members "scheme" Json.scheme?))
  | _ => none

/-- Reads the written form. -/
def ofJson? (value : Json) : Option Command := do
  let (name, arguments) ← value.choice?
  ofArguments? name arguments

theorem ofJson?_toJson (command : Command) : ofJson? command.toJson = some command := by
  cases command <;>
    simp [ofJson?, toJson, Json.choice?, ofArguments?, Json.record?_object,
      Json.required_cons_of_ne]

end Command

/-- What a token says about an amount that it has moved here. -/
inductive Notice where
  | deposit (recipient : String)
  deriving DecidableEq

namespace Notice

/-- The written form. -/
def toJson : Notice → Json
  | deposit recipient => .object [("deposit", .object [("l2_recipient", .text recipient)])]

/-- Reads the written form. -/
def ofJson? (value : Json) : Option Notice := do
  let (name, arguments) ← value.choice?
  if name = "deposit" then
    let members ← arguments.record? ["l2_recipient"]
    some (deposit (← Json.required members "l2_recipient" Json.text?))
  else none

theorem ofJson?_toJson (notice : Notice) : ofJson? notice.toJson = some notice := by
  cases notice with
  | deposit recipient => simp [ofJson?, toJson, Json.choice?, Json.record?_object]

end Notice

end TokenBridge
