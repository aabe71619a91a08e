import TokenBridge.Bridge

/-!
# The chain around a bridge

A chain keeps the store of its bridge, the current block and what token contracts reply. Requests
are carried out whole or not at all. Token contracts stand on their own: what they reply is no part
of the store, and is not changed by what the bridge tells them to do.

The chain is also the host that validates addresses. Its rules are those of the runs on it and are
no part of the bridge: what holds of the bridge holds whatever the host takes for an address.
-/

namespace TokenBridge

/-! ## Token contracts -/

/-- What a token contract replies with. -/
structure TokenContract where
  /-- What accounts hold; others hold nothing. -/
  balances : List (Address × Amount)
  /-- What owners allow spenders; others are allowed nothing. -/
  allowances : List ((Address × Address) × Allowance)
  /-- Why every question is refused. -/
  refusal : Option String
  /-- Why questions about allowances are refused. -/
  allowanceRefusal : Option String
  /-- The text of every reply about a balance. -/
  balanceText : Option String
  /-- The text of every reply about an allowance. -/
  allowanceText : Option String

namespace TokenContract

/-- The reply about the balance of an account. -/
def balance (token : TokenContract) (account : Address) : Except HostError String :=
  match token.refusal, token.balanceText with
  | some reason, _ => .error (.refused reason)
  | none, some reply => .ok reply
  | none, none => .ok (balanceToJson ((token.balances.lookup account).getD .zero)).render

/-- The reply about what an owner allows a spender. -/
def allowance (token : TokenContract) (owner spender : Address) : Except HostError String :=
  match token.refusal <|> token.allowanceRefusal, token.allowanceText with
  | some reason, _ => .error (.refused reason)
  | none, some reply => .ok reply
  | none, none => .ok ((token.allowances.lookup (owner, spender)).getD .none).toJson.render

end TokenContract

/-! ## The addresses of the chain -/

namespace Chain

/-- The characters outside ASCII that have a lower-case form other than themselves, as of Unicode
15. They stand in runs: the first and the last code, and the distance between neighbours. -/
def foreignCapitals : List (Nat × Nat × Nat) :=
  [(0xC0, 0xD6, 1), (0xD8, 0xDE, 1), (0x100, 0x136, 2), (0x139, 0x147, 2), (0x14A, 0x178, 2),
   (0x179, 0x17D, 2), (0x181, 0x182, 1), (0x184, 0x186, 2), (0x187, 0x189, 2), (0x18A, 0x18B, 1),
   (0x18E, 0x191, 1), (0x193, 0x194, 1), (0x196, 0x198, 1), (0x19C, 0x19D, 1), (0x19F, 0x1A0, 1),
   (0x1A2, 0x1A6, 2), (0x1A7, 0x1A9, 2), (0x1AC, 0x1AE, 2), (0x1AF, 0x1B1, 2), (0x1B2, 0x1B3, 1),
   (0x1B5, 0x1B7, 2), (0x1B8, 0x1B8, 1), (0x1BC, 0x1BC, 1), (0x1C4, 0x1C5, 1), (0x1C7, 0x1C8, 1),
   (0x1CA, 0x1CB, 1), (0x1CD, 0x1DB, 2), (0x1DE, 0x1EE, 2), (0x1F1, 0x1F2, 1), (0x1F4, 0x1F6, 2),
   (0x1F7, 0x1F8, 1), (0x1FA, 0x232, 2), (0x23A, 0x23B, 1), (0x23D, 0x23E, 1), (0x241, 0x243, 2),
   (0x244, 0x246, 1), (0x248, 0x24E, 2), (0x370, 0x372, 2), (0x376, 0x376, 1), (0x37F, 0x37F, 1),
   (0x386, 0x388, 2), (0x389, 0x38A, 1), (0x38C, 0x38E, 2), (0x38F, 0x391, 2), (0x392, 0x3A1, 1),
   (0x3A3, 0x3AB, 1), (0x3CF, 0x3CF, 1), (0x3D8, 0x3EE, 2), (0x3F4, 0x3F4, 1), (0x3F7, 0x3F9, 2),
   (0x3FA, 0x3FA, 1), (0x3FD, 0x42F, 1), (0x460, 0x480, 2), (0x48A, 0x4C0, 2), (0x4C1, 0x4CD, 2),
   (0x4D0, 0x52E, 2), (0x531, 0x556, 1), (0x10A0, 0x10C5, 1), (0x10C7, 0x10C7, 1),
   (0x10CD, 0x10CD, 1), (0x13A0, 0x13F5, 1), (0x1C90, 0x1CBA, 1), (0x1CBD, 0x1CBF, 1),
   (0x1E00, 0x1E94, 2), (0x1E9E, 0x1EFE, 2), (0x1F08, 0x1F0F, 1), (0x1F18, 0x1F1D, 1),
   (0x1F28, 0x1F2F, 1), (0x1F38, 0x1F3F, 1), (0x1F48, 0x1F4D, 1), (0x1F59, 0x1F5F, 2),
   (0x1F68, 0x1F6F, 1), (0x1F88, 0x1F8F, 1), (0x1F98, 0x1F9F, 1), (0x1FA8, 0x1FAF, 1),
   (0x1FB8, 0x1FBC, 1), (0x1FC8, 0x1FCC, 1), (0x1FD8, 0x1FDB, 1), (0x1FE8, 0x1FEC, 1),
   (0x1FF8, 0x1FFC, 1), (0x2126, 0x2126, 1), (0x212A, 0x212B, 1), (0x2132, 0x2132, 1),
   (0x2160, 0x216F, 1), (0x2183, 0x2183, 1), (0x24B6, 0x24CF, 1), (0x2C00, 0x2C2F, 1),
   (0x2C60, 0x2C62, 2), (0x2C63, 0x2C64, 1), (0x2C67, 0x2C6D, 2), (0x2C6E, 0x2C70, 1),
   (0x2C72, 0x2C72, 1), (0x2C75, 0x2C75, 1), (0x2C7E, 0x2C80, 1), (0x2C82, 0x2CE2, 2),
   (0x2CEB, 0x2CED, 2), (0x2CF2, 0x2CF2, 1), (0xA640, 0xA66C, 2), (0xA680, 0xA69A, 2),
   (0xA722, 0xA72E, 2), (0xA732, 0xA76E, 2), (0xA779, 0xA77D, 2), (0xA77E, 0xA786, 2),
   (0xA78B, 0xA78D, 2), (0xA790, 0xA792, 2), (0xA796, 0xA7AA, 2), (0xA7AB, 0xA7AE, 1),
   (0xA7B0, 0xA7B4, 1), (0xA7B6, 0xA7C4, 2), (0xA7C5, 0xA7C7, 1), (0xA7C9, 0xA7C9, 1),
   (0xA7D0, 0xA7D0, 1), (0xA7D6, 0xA7D8, 2), (0xA7F5, 0xA7F5, 1), (0xFF21, 0xFF3A, 1),
   (0x10400, 0x10427, 1), (0x104B0, 0x104D3, 1), (0x10570, 0x1057A, 1), (0x1057C, 0x1058A, 1),
   (0x1058C, 0x10592, 1), (0x10594, 0x10595, 1), (0x10C80, 0x10CB2, 1), (0x118A0, 0x118BF, 1),
   (0x16E40, 0x16E5F, 1), (0x1E900, 0x1E921, 1)]

/-- Does a character keep an address from being in normal form? An upper-case letter does, and NUL,
with which addresses are padded. -/
def isDenormal (c : Char) : Bool :=
  c.isUpper || c = '\x00' || (0x80 ≤ c.toNat && foreignCapitals.any (holds c.toNat))
where
  /-- Is a code in a run? -/
  holds (code : Nat) : Nat × Nat × Nat → Bool
    | (first, last, step) => first ≤ code ∧ code ≤ last ∧ (code - first) % step = 0

/-- The fewest bytes of an address. -/
def minAddressSize : Nat := 3

/-- The most bytes of an address. -/
def maxAddressSize : Nat := 90

/-- What is wrong with the form of an address. -/
def addressFault? (address : Address) : Option String :=
  if (utf8 address).length < minAddressSize then
    some s!"human address too short for this mock implementation (must be >= {minAddressSize})."
  else if maxAddressSize < (utf8 address).length then
    some s!"human address too long for this mock implementation (must be <= {maxAddressSize})."
  else if address.toList.any isDenormal then some "address not normalized"
  else none

end Chain

/-- An address is a text of three to ninety bytes without upper-case letters and NUL. -/
instance : AddressRules where
  fault? address := (Chain.addressFault? address).map ("Invalid input: " ++ ·)

/-! ## The chain -/

/-- A chain with a bridge on it. -/
structure Chain where
  time : Timestamp
  height : UInt64
  /-- The token contracts by their addresses, the latest first. -/
  contracts : List (Address × TokenContract)
  store : Store

namespace Chain

/-- The address of the bridge. -/
def bridgeAddress : Address := "cosmos2contract"

/-- A chain on which nothing has happened. -/
def start : Chain where
  time := ⟨1571797419879305533⟩
  height := 12345
  contracts := []
  store := .empty

/-- What the contract at an address replies; there may be none. -/
def ask (chain : Chain) (address : Address)
    (question : TokenContract → Except HostError String) : Except HostError String :=
  match chain.contracts.lookup address with
  | some contract => question contract
  | none => .error (.noContract address)

/-- The surroundings of a call in the current block. -/
def env (chain : Chain) : Env where
  now := chain.time
  height := chain.height
  self := bridgeAddress
  tokens := {
    balance := fun token account => chain.ask token (·.balance account)
    allowance := fun token owner spender => chain.ask token (·.allowance owner spender) }

/-- The chain with another contract at an address. -/
def putContract (chain : Chain) (address : Address) (contract : TokenContract) : Chain :=
  { chain with contracts := (address, contract) :: chain.contracts }

/-- Runs a call whole or not at all. -/
def transact (chain : Chain) (call : Env → Call α) : Except Fault α × Chain :=
  let (result, store) := (call chain.env).transact chain.store
  (result, { chain with store })

/-- Runs a call and keeps what it wrote before a rejection. -/
def attempt (chain : Chain) (call : Env → Call α) : Except Fault α × Chain :=
  let (result, store) := (call chain.env).attempt chain.store
  (result, { chain with store })

/-- Carries out a request, if it could be read. -/
def submit (chain : Chain) (request : Except HostError Request) : Except Fault Receipt × Chain :=
  chain.transact fun env => do
    let request ← Call.lift <| request.mapError .host
    request.run env

/-- The text of the answer to a question. -/
def query (chain : Chain) (input : String) : Except Fault String :=
  askText chain.time input chain.store

end Chain

end TokenBridge
