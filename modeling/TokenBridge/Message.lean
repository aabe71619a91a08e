import TokenBridge.Json.Fields

/-!
# Messages between the chains

A message has one canonical encoding: source chain, nonce and amount in 8, 8 and 16 bytes, then
sender, recipient and data, each behind its length in 4 bytes. The digest of the encoding is the
leaf under which the message is committed. A request to withdraw holds a message and the path of its
leaf, both in JSON.
-/

namespace TokenBridge

/-! ## The canonical encoding -/

/-- A transfer announced on one chain and redeemed on the other. -/
structure Message where
  /-- The account on the source chain. -/
  sender : String
  /-- The account on the destination chain. -/
  recipient : String
  /-- The amount in the decimals of the source chain. -/
  amount : Amount
  /-- The number of the message on its source chain. -/
  nonce : UInt64
  /-- The asset, if there are thirty-two bytes. -/
  data : Bytes
  sourceChain : UInt64
  deriving DecidableEq

namespace Message

/-- Bytes behind their length; of the length the last four base-256 digits are written. -/
def lengthPrefixed (bytes : Bytes) : Bytes :=
  bigEndian 4 bytes.length ++ bytes

/-- The canonical encoding. -/
def encode (m : Message) : Bytes :=
  bigEndian 8 m.sourceChain.toNat ++ bigEndian 8 m.nonce.toNat ++ bigEndian 16 m.amount.toNat ++
    lengthPrefixed (utf8 m.sender) ++ lengthPrefixed (utf8 m.recipient) ++ lengthPrefixed m.data

/-- The digest under which the message is committed. -/
def leaf (m : Message) : Word256 := keccak256 m.encode

/-- The asset that the message moves. -/
def assetId? (m : Message) : Option Word256 := Word256.ofBytes? m.data

end Message

/-! ## The JSON form of messages and paths -/

/-- The written form of a message. -/
def Message.toJson (m : Message) : Json :=
  .object [
    ("sender", .text m.sender),
    ("recipient", .text m.recipient),
    ("amount", .ofAmount m.amount),
    ("nonce", .ofWord64 m.nonce),
    ("data", .ofBytes m.data),
    ("source_chain", .ofWord64 m.sourceChain)]

/-- Reads a message. -/
def Message.ofJson? (value : Json) : Option Message := do
  let members ← value.record? ["sender", "recipient", "amount", "nonce", "data", "source_chain"]
  some {
    sender := ← Json.required members "sender" Json.text?
    recipient := ← Json.required members "recipient" Json.text?
    amount := ← Json.required members "amount" Json.amount?
    nonce := ← Json.required members "nonce" Json.word64?
    data := ← Json.required members "data" Json.bytes?
    sourceChain := ← Json.required members "source_chain" Json.word64? }

@[simp] theorem Message.ofJson?_toJson (m : Message) : ofJson? m.toJson = some m := by
  simp [ofJson?, toJson, Json.record?_object, Json.required_cons_of_ne]

/-- The written form of a path. -/
def MerklePath.toJson (path : MerklePath) : Json :=
  .object [
    ("leaf_index", .ofWord64 path.leafIndex),
    ("leaf_count", .ofWord64 path.leafCount),
    ("siblings", .ofList .ofBytes path.siblings)]

/-- Reads a path. -/
def MerklePath.ofJson? (value : Json) : Option MerklePath := do
  let members ← value.record? ["leaf_index", "leaf_count", "siblings"]
  some {
    leafIndex := ← Json.required members "leaf_index" Json.word64?
    leafCount := ← Json.required members "leaf_count" Json.word64?
    siblings := ← Json.required members "siblings" (Json.list? Json.bytes?) }

@[simp] theorem MerklePath.ofJson?_toJson (path : MerklePath) :
    ofJson? path.toJson = some path := by
  have hsiblings := Json.list?_ofList Json.bytes?_ofBytes path.siblings
  simp [ofJson?, toJson, Json.record?_object, Json.required_cons_of_ne, hsiblings]

end TokenBridge
