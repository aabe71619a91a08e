import TokenBridge.Action.Deposit
import TokenBridge.Store.History

/-!
# Withdrawals

A withdrawal redeems a message that is committed under a final root, once, and pays out what it
announces. Anyone may ask for it; the money goes to the recipient of the message. All checks come
before the first write, in a fixed order, so that the first reason against it is the one reported.
-/

namespace TokenBridge

variable [AddressRules]

/-- A withdrawal that has passed all checks. -/
structure WithdrawalOrder where
  id : MessageId
  token : Address
  recipient : Address
  /-- The amount in the decimals of the token. -/
  amount : Amount
  /-- The quota after the withdrawal, if withdrawals of the token are capped. -/
  quota : Option Quota
  deriving DecidableEq

namespace WithdrawalOrder

/-- Refuses a height that is not final, then a path that does not lead to its root, a message from
another chain, and one that has been redeemed. -/
def checkMessage (now : Timestamp) (m : Message) (path : MerklePath) (height : UInt64) (s : Store) :
    Except Fault Unit := do
  let final ← s.isFinalized now height
  demand (final = true) (.notFinalized height)
  s.requireIncluded height m.leaf path
  let settings ← s.getSettings
  demand (m.sourceChain = settings.remoteChain)
    (.foreignChain settings.remoteChain m.sourceChain)
  demand (s.redeemed.contains ⟨m.sourceChain, m.nonce⟩ = false)
    (.replayed m.sourceChain m.nonce)

/-- Refuses a message whose data is no asset, then an unbound asset, a recipient that is not valid,
an amount that the token cannot express or that is zero, one beyond the quota, and one beyond what
is locked. -/
def checkRelease (now : Timestamp) (m : Message) (s : Store) : Except Fault WithdrawalOrder := do
  let asset ← match m.assetId? with
    | some asset => .ok asset
    | none =>
      .error (.rejected (.unbound (String.ofList ('0' :: 'x' :: Hex.encode m.data))))
  let binding ← s.resolveAsset asset
  let recipient ← (Address.validate m.recipient).mapError (.rejected <| .badAccount <| .invalid ·)
  let amount ← (binding.toToken m.amount).mapError (.rejected <| .badAmount ·)
  demand (amount ≠ .zero) (.badAmount .zero)
  let quota ← s.reserved .withdrawal binding.token amount now
  let locked := s.lockedOf binding.token
  demand (amount ≤ locked) (.transferFailed (.lockedBelow locked amount))
  return { id := ⟨m.sourceChain, m.nonce⟩, token := binding.token, recipient, amount, quota }

/-- Stores a withdrawal: the message as redeemed, its quota, what remains locked. -/
def record (order : WithdrawalOrder) : Call Unit := do
  Call.write fun s => { s with redeemed := s.redeemed.insert order.id }
  Call.putReserved .withdrawal order.token order.quota
  Call.write fun s => { s with
    locked := s.locked.insert order.token ((s.lockedOf order.token).truncSub order.amount) }

/-- The receipt of a withdrawal. -/
def receipt (order : WithdrawalOrder) (leaf : Word256) (height : UInt64) : Receipt where
  calls := [⟨order.token, .pay order.recipient order.amount⟩]
  events := []
  attributes := [
    ("action", "withdraw"),
    ("leaf", leaf.toHex),
    numberAttribute "height" height.toNat,
    numberAttribute "source_chain" order.id.sourceChain.toNat,
    numberAttribute "nonce" order.id.nonce.toNat,
    ("recipient", order.recipient),
    ("l1_token", order.token),
    ("amount", order.amount.text)]

end WithdrawalOrder

/-- Redeems a message. -/
def withdraw (env : Env) (m : Message) (path : MerklePath) (height : UInt64) : Call Receipt := do
  Call.check (·.requireActive .withdrawals)
  Call.check (WithdrawalOrder.checkMessage env.now m path height)
  let order ← Call.check (WithdrawalOrder.checkRelease env.now m)
  order.record
  return order.receipt m.leaf height

end TokenBridge
