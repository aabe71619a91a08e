import TokenBridge.Accounts

/-!
# Errors of the surroundings

Reading an input, looking up a stored item, checking an address or asking another contract can fail
outside the rules of the bridge. Such an error is one of three kinds, `generic`, `notFound` and
`unreadable`, which show in its wording.
-/

namespace TokenBridge

/-- The documents that are read from JSON text. -/
inductive Document where
  | genesis
  | command
  | question
  | upgrade
  | notice
  | message
  | path
  | balance
  | allowance
  deriving DecidableEq

/-- The name under which a document is reported. -/
def Document.label : Document → String
  | genesis => "fuel_bridge::msg::InstantiateMsg"
  | command => "fuel_bridge::msg::ExecuteMsg"
  | question => "fuel_bridge::msg::QueryMsg"
  | upgrade => "fuel_bridge::msg::MigrateMsg"
  | notice => "fuel_bridge::msg::ReceiveMsg"
  | message => "common::message::Message"
  | path => "common::merkle::MerkleProof"
  | balance => "cw20::query::BalanceResponse"
  | allowance => "cw20::query::AllowanceResponse"

/-- The stored items that a call can find missing. -/
inductive StoredItem where
  | settings
  | pauses
  | adminCount
  | nextNonce
  | version
  | commitment (height : UInt64)
  deriving DecidableEq

namespace StoredItem

/-- The name under which the kind of an item is reported. -/
def label : StoredItem → String
  | settings => "fuel_bridge::state::Config"
  | pauses => "fuel_bridge::state::GovernanceState"
  | adminCount => "u32"
  | nextNonce => "u64"
  | version => "cw2::ContractVersion"
  | commitment _ => "fuel_bridge::state::BlockCommitment"

/-- The key of an item. A table's name stands behind its length in two bytes. -/
def key : StoredItem → Bytes
  | settings => utf8 "config"
  | pauses => utf8 "governance"
  | adminCount => utf8 "admin_count"
  | nextNonce => utf8 "outgoing_nonce"
  | version => utf8 "contract_info"
  | commitment height =>
    let table := utf8 "commitments"
    bigEndian 2 table.length ++ table ++ bigEndian 8 height.toNat

/-- Two upper-case digits for each byte of the key. -/
def keyText (item : StoredItem) : String :=
  let byteText (b : UInt8) := (String.ofList (Hex.encode [b])).toUpper
  String.intercalate ", " (item.key.map byteText)

end StoredItem

/-- An error of the surroundings. -/
inductive HostError where
  /-- The host objects to an address in a request. -/
  | badAddress (objection : String)
  /-- A question holds a word of another length than thirty-two bytes. -/
  | badWord (size : Nat)
  /-- A contract answered a question with an error. -/
  | refused (reason : String)
  /-- There is no contract to ask. -/
  | noContract (address : Address)
  /-- An item is not in the store. -/
  | missing (item : StoredItem)
  /-- A question asks for the binding of a token that has none. -/
  | noBinding (token : Address)
  /-- A question asks for the binding of an asset that has none. -/
  | noAsset (asset : String)
  /-- A text is not the JSON form of the document. -/
  | unreadable (document : Document)
  deriving DecidableEq

namespace HostError

/-- The kinds of errors of the surroundings. -/
inductive Kind where
  | generic
  | notFound
  | unreadable
  deriving DecidableEq

/-- The kind of an error. -/
def kind : HostError → Kind
  | badAddress _ | badWord _ | refused _ | noContract _ => .generic
  | missing _ | noBinding _ | noAsset _ => .notFound
  | unreadable _ => .unreadable

/-- The wording of a word of the wrong length. -/
def wordSizeText (size : Nat) : String :=
  s!"Invalid hash length: expected 32 bytes, got {size}"

/-- The wording of an asset without a binding. -/
def unboundText (asset : String) : String := s!"Unbound asset: {asset}"

/-- What the error is about. -/
def detail : HostError → String
  | badAddress objection => objection
  | badWord size => wordSizeText size
  | refused reason => s!"Querier contract error: {reason}"
  | noContract address => s!"Querier system error: No such contract: {address}"
  | missing item => s!"type: {item.label}; key: [{item.keyText}]"
  | noBinding token => s!"binding for {token}"
  | noAsset asset => unboundText asset
  | unreadable document => document.label

/-- The wording of an error. -/
def message (e : HostError) : String :=
  match e.kind with
  | .generic => s!"Generic error: {e.detail}"
  | .notFound => s!"{e.detail} not found"
  | .unreadable => s!"Error parsing into type {e.detail}"

end HostError

/-- The address itself, if it is valid. -/
def Address.validate [AddressRules] (address : Address) : Except HostError Address :=
  match address.fault? with
  | none => .ok address
  | some objection => .error (.badAddress objection)

end TokenBridge
