import TokenBridge.Request.Command
import TokenBridge.Store.Bindings
import TokenBridge.Store.Governance
import TokenBridge.Store.Quotas
import TokenBridge.Surroundings

/-!
# Deposits

A deposit locks an amount of a bound token and announces a message to the second chain. The amount
either is taken from the caller's allowance, or has already been moved here by the token that calls.
All checks of the request come before the first write.
-/

namespace TokenBridge

variable [AddressRules]

/-- A deposit that has passed the checks common to both ways. -/
structure DepositOrder where
  /-- The token whose quota was looked at. -/
  token : Address
  binding : Binding
  amount : Amount
  /-- The amount in the decimals of the asset. -/
  remoteAmount : Amount
  recipient : Word256
  /-- The quota after the deposit, if deposits of the token are capped. -/
  quota : Option Quota
  deriving DecidableEq

namespace DepositOrder

/-- Refuses an amount of zero, then a recipient that is no account of the second chain, an unbound
token, an amount that the asset cannot express, and one beyond the quota. -/
def check (now : Timestamp) (token : Address) (amount : Amount) (recipient : String) (s : Store) :
    Except Fault DepositOrder := do
  demand (amount ≠ .zero) (.badAmount .zero)
  let account ← match Word256.ofHex? recipient with
    | some account => .ok account
    | none => .error (.rejected (.badAccount (.notHex recipient)))
  let binding ← s.resolve token
  let remoteAmount ← (binding.toAsset amount).mapError (.rejected <| .badAmount ·)
  let quota ← s.reserved .deposit token amount now
  return { token, binding, amount, remoteAmount, recipient := account, quota }

/-- The message that a deposit announces. -/
def message (order : DepositOrder) (sender : Address) (nonce homeChain : UInt64) : Message where
  sender
  recipient := order.recipient.toHex
  amount := order.remoteAmount
  nonce
  data := order.binding.asset.bytes
  sourceChain := homeChain

/-- The event that tells a message to the second chain. -/
def announce (order : DepositOrder) (m : Message) : Event where
  kind := "bridge_message"
  attributes := [
    ("sender", m.sender),
    ("recipient", m.recipient),
    ("amount", m.amount.text),
    numberAttribute "nonce" m.nonce.toNat,
    ("data", order.binding.asset.toHex),
    numberAttribute "source_chain" m.sourceChain.toNat,
    ("leaf", m.leaf.toHex)]

/-- The receipt of a deposit. -/
def receipt (order : DepositOrder) (m : Message) (calls : List TokenCall) : Receipt where
  calls
  events := [order.announce m]
  attributes := [
    ("action", "deposit"),
    ("l1_token", order.binding.token),
    ("amount", order.amount.text),
    ("l2_amount", order.remoteAmount.text),
    numberAttribute "nonce" m.nonce.toNat]

/-- Stores a deposit: its quota, the amount locked, the next number. -/
def record (order : DepositOrder) (sender : Address) (calls : List TokenCall) : Call Receipt := do
  let settings ← Call.check (·.getSettings)
  Call.putReserved .deposit order.token order.quota
  let token := order.binding.token
  let locked ← Call.check fun s => orAbort ((s.lockedOf token).add? order.amount)
  Call.write fun s => { s with locked := s.locked.insert token locked }
  let nonce ← Call.check (·.getNextNonce)
  let next ← Call.lift <| orAbort (add64? nonce 1)
  Call.write fun s => { s with nextNonce := some next }
  return order.receipt (order.message sender nonce settings.homeChain) calls

end DepositOrder

namespace Env

/-- Refuses an owner who does not hold an amount, or does not allow the bridge to take it. -/
def requireFunds (env : Env) (token owner : Address) (amount : Amount) : Except Fault Unit := do
  let balance ← (env.balanceOf token owner).mapError unanswered
  demand (amount ≤ balance) (.transferFailed (.balanceBelow balance amount))
  let allowance ← (env.allowanceOf token owner).mapError unanswered
  let usable := allowance.usable env.height env.now
  demand (amount ≤ usable) (.transferFailed (.allowanceBelow usable amount))
where
  /-- The token did not answer. -/
  unanswered (cause : HostError) : Fault := .rejected (.transferFailed (.unanswered cause))

end Env

/-- Refuses an address that is not valid. -/
def requireValid (address : Address) : Except Fault Address :=
  address.validate.mapError .host

/-- Locks an amount that is taken from the caller's allowance. -/
def deposit (env : Env) (sender token : Address) (amount : Amount) (recipient : String) :
    Call Receipt := do
  Call.check (·.requireActive .deposits)
  let token ← Call.lift <| requireValid token
  let order ← Call.check (DepositOrder.check env.now token amount recipient)
  Call.lift <| env.requireFunds token sender amount
  order.record sender [⟨token, .take sender env.self amount⟩]

/-- Locks an amount that the calling token has already moved here on behalf of a sender. -/
def receive (env : Env) (token sender : Address) (amount : Amount) (notice : Bytes) :
    Call Receipt := do
  Call.check (·.requireActive .deposits)
  let sender ← Call.lift <| requireValid sender
  let .deposit recipient ← Call.lift <| (readNotice notice).mapError .host
  let order ← Call.check (DepositOrder.check env.now token amount recipient)
  order.record sender []
where
  /-- Reads a notice from the bytes of its text. -/
  readNotice (bytes : Bytes) : Except HostError Notice :=
    match String.fromUTF8? ⟨bytes.toArray⟩ with
    | some input => Document.notice.read Notice.ofJson? input
    | none => .error (.unreadable .notice)

end TokenBridge
