import TokenBridge.Action.Found
import TokenBridge.Action.Govern
import TokenBridge.Action.Withdrawal
import TokenBridge.Request.Question

/-!
# The bridge

There are four ways to address a bridge: set it up, give it a command, ask it a question, upgrade
it. A question is answered from the store and the clock, and changes nothing. Enumerations come in
pages of at most `maxPage` entries.
-/

namespace TokenBridge

/-! ## Answers -/

variable [AddressRules]

/-- What a question is answered with. -/
inductive Answer where
  | settings (settings : Settings)
  | status (pauses : Pauses) (lastHeight : Option UInt64) (nextNonce : UInt64)
  | commitment (c : Commitment) (final : Bool)
  | noCommitment
  | isFinalized (final : Bool)
  | isIncluded (included : Bool)
  | messageLeaf (leaf : Word256)
  | binding (b : Binding)
  | bindings (bs : List Binding)
  | quota (q : Option Quota)
  | isRedeemed (redeemed : Bool)
  | holdsRole (holds : Bool)
  | members (accounts : List Address)
  | locked (token : Address) (amount : Amount)
  | nextNonce (nonce : UInt64)
  deriving DecidableEq

namespace Answer

/-- The written form of a binding. -/
def bindingToJson (b : Binding) : Json :=
  .object [
    ("l1_token", .text b.token),
    ("l2_asset_id", .ofBytes b.asset.bytes),
    ("l1_decimals", .ofByte b.tokenDecimals),
    ("l2_decimals", .ofByte b.assetDecimals)]

/-- The written form of a quota. -/
def quotaToJson (q : Quota) : Json :=
  .object [
    ("epoch", .ofWord64 q.epoch),
    ("epoch_start", .ofTimestamp q.start),
    ("epoch_duration", .ofWord64 q.terms.duration),
    ("limit", .ofAmount q.terms.limit),
    ("consumed", .ofAmount q.used),
    ("remaining", .ofAmount q.remaining),
    ("pending_limit", .ofOption (fun terms => .ofAmount terms.limit) q.pending),
    ("pending_epoch_duration", .ofOption (fun terms => .ofWord64 terms.duration) q.pending)]

/-- The written form. -/
def toJson : Answer → Json
  | settings s =>
    .object [
      ("l2_chain_id", .ofWord64 s.remoteChain),
      ("l1_chain_id", .ofWord64 s.homeChain),
      ("finality_delay", .ofWord64 s.finalityDelay),
      ("proof_scheme", .ofScheme s.scheme),
      ("start_height", .ofWord64 s.startHeight)]
  | status pauses lastHeight nonce =>
    .object [
      ("deposits_paused", .bool pauses.deposits),
      ("withdrawals_paused", .bool pauses.withdrawals),
      ("last_height", .ofOption .ofWord64 lastHeight),
      ("next_nonce", .ofWord64 nonce)]
  | commitment c final =>
    .object [
      ("block_height", .ofWord64 c.height),
      ("state_root", .ofBytes c.root.bytes),
      ("timestamp", .ofTimestamp c.time),
      ("finalized", .bool final)]
  | noCommitment => .null
  | isFinalized final => .object [("finalized", .bool final)]
  | isIncluded included => .object [("valid", .bool included)]
  | messageLeaf leaf => .object [("leaf", .ofBytes leaf.bytes)]
  | binding b => bindingToJson b
  | bindings bs => .object [("bindings", .ofList bindingToJson bs)]
  | quota q => .ofOption quotaToJson q
  | isRedeemed redeemed => .object [("consumed", .bool redeemed)]
  | holdsRole holds => .object [("has_role", .bool holds)]
  | members accounts => .object [("members", .ofList .text accounts)]
  | locked token amount => .object [("l1_token", .text token), ("amount", .ofAmount amount)]
  | nextNonce nonce => .object [("nonce", .ofWord64 nonce)]

end Answer

/-- The most entries of a page. -/
def maxPage : Nat := 50

/-- The entries of a page for which no limit is given. -/
def usualPage : Nat := 10

namespace Page

/-- How many entries a page has at most. -/
def size (page : Page) : Nat :=
  match page.limit with
  | none => usualPage
  | some limit => min limit.toNat maxPage

/-- The address that a page comes after; it has to be valid. -/
def after (page : Page) : Except HostError (Option Address) :=
  match page.start with
  | none => .ok none
  | some start => some <$> start.validate

end Page

namespace Question

/-- The word in a question. -/
def requireWord (bytes : Bytes) : Except HostError Word256 :=
  match Word256.ofBytes? bytes with
  | some w => .ok w
  | none => .error (.badWord bytes.length)

/-- A commitment with whether it is final. -/
def describe (now : Timestamp) (height : UInt64) (s : Store) : Except Fault Answer := do
  let c ← s.getCommitment height
  let final ← s.isFinalized now c.height
  return .commitment c final

/-- The answer to a question at a time. -/
def answer (now : Timestamp) (question : Question) (s : Store) : Except Fault Answer :=
  match question with
  | settings => return .settings (← s.getSettings)
  | status => do
    let pauses ← s.getPauses
    let nonce ← s.getNextNonce
    return .status pauses s.lastHeight nonce
  | commitment height => describe now height s
  | latestCommitment =>
    match s.lastHeight with
    | none => return .noCommitment
    | some height => describe now height s
  | isFinalized height => return .isFinalized (← s.isFinalized now height)
  | isIncluded height leaf path => do
    let leaf ← (requireWord leaf).mapError .host
    return .isIncluded (← s.includes height leaf path)
  | messageLeaf message => return .messageLeaf message.leaf
  | binding token => do
    let token ← token.validate.mapError .host
    match s.bindings[token]? with
    | some b => return .binding b
    | none => .error (.host (.noBinding token))
  | bindingOfAsset asset => do
    let asset ← (requireWord asset).mapError .host
    match s.bindingOfAsset? asset with
    | some b => return .binding b
    | none => .error (.host (.noAsset asset.toHex))
  | bindings page => do
    let start ← page.after.mapError .host
    return .bindings (s.bindingsFrom start page.size)
  | quota token flow => do
    let token ← token.validate.mapError .host
    return .quota (← s.quotaAt flow token now)
  | isRedeemed sourceChain nonce =>
    return .isRedeemed (s.redeemed.contains ⟨sourceChain, nonce⟩)
  | holdsRole role account => do
    let account ← account.validate.mapError .host
    return .holdsRole (s.holdsRole role account)
  | members role page => do
    let start ← page.after.mapError .host
    return .members (s.members role start page.size)
  | locked token => do
    let token ← token.validate.mapError .host
    return .locked token (s.lockedOf token)
  | nextNonce => return .nextNonce (← s.getNextNonce)

end Question

/-! ## Requests -/

/-- Carries out a command of a caller. -/
def Command.run (env : Env) (sender : Address) : Command → Call Receipt
  | deposit token amount recipient => TokenBridge.deposit env sender token amount recipient
  | receive owner amount notice => TokenBridge.receive env sender owner amount notice
  | withdraw message path height => TokenBridge.withdraw env message path height
  | commit height root time => TokenBridge.commit env sender height root time
  | grantRole role account => TokenBridge.grantRole sender role account
  | revokeRole role account => TokenBridge.revokeRole sender role account
  | pause subsystem => TokenBridge.pause sender subsystem
  | unpause subsystem => TokenBridge.unpause sender subsystem
  | bindAsset token asset tokenDecimals assetDecimals =>
    TokenBridge.bindAsset sender token asset tokenDecimals assetDecimals
  | setTerms token flow terms => TokenBridge.setTerms env sender token flow terms
  | setFinalityDelay seconds => TokenBridge.setFinalityDelay sender seconds
  | setScheme scheme => TokenBridge.setScheme sender scheme

/-- A request to a bridge that changes its store. -/
inductive Request where
  | found (genesis : Genesis)
  | command (sender : Address) (command : Command)
  | upgrade (upgrade : Upgrade)
  deriving DecidableEq

/-- Carries out a request. -/
def Request.run (env : Env) : Request → Call Receipt
  | found genesis => TokenBridge.found genesis
  | command sender order => order.run env sender
  | upgrade _ => TokenBridge.upgrade

/-- Reads a request to set a bridge up. -/
def Request.readGenesis (input : String) : Except HostError Request :=
  found <$> Document.genesis.read Genesis.ofJson? input

/-- Reads a command of a caller. -/
def Request.readCommand (sender : Address) (input : String) : Except HostError Request :=
  command sender <$> Document.command.read Command.ofJson? input

/-- Reads a request to upgrade. -/
def Request.readUpgrade (input : String) : Except HostError Request :=
  upgrade <$> Document.upgrade.read Upgrade.ofJson? input

/-- Reads a question and gives the text of its answer. -/
def askText (now : Timestamp) (input : String) (s : Store) : Except Fault String := do
  let question ← (Document.question.read Question.ofJson? input).mapError .host
  let answer ← question.answer now s
  return answer.toJson.render

end TokenBridge
