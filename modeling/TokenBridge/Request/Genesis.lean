import TokenBridge.Json.Fields

/-!
# Setting up and upgrading a bridge

The requests that are made once in the life of a bridge, and once for each new version of it.
-/

namespace TokenBridge

/-- What a bridge starts with. -/
structure Genesis where
  admins : List Address
  committers : List Address
  pausers : List Address
  remoteChain : UInt64
  homeChain : UInt64
  startHeight : UInt64
  finalityDelay : UInt64
  /-- The scheme, if it is not the usual one. -/
  scheme : Option Scheme
  deriving DecidableEq

namespace Genesis

/-- The written form. -/
def toJson (g : Genesis) : Json :=
  .object [
    ("admins", .ofList .text g.admins),
    ("committers", .ofList .text g.committers),
    ("pausers", .ofList .text g.pausers),
    ("l2_chain_id", .ofWord64 g.remoteChain),
    ("l1_chain_id", .ofWord64 g.homeChain),
    ("start_height", .ofWord64 g.startHeight),
    ("finality_delay", .ofWord64 g.finalityDelay),
    ("proof_scheme", .ofOption .ofScheme g.scheme)]

/-- Reads the written form. -/
def ofJson? (value : Json) : Option Genesis := do
  let members ← value.record? ["admins", "committers", "pausers", "l2_chain_id", "l1_chain_id",
    "start_height", "finality_delay", "proof_scheme"]
  some {
    admins := ← Json.required members "admins" (Json.list? Json.text?)
    committers := ← Json.required members "committers" (Json.list? Json.text?)
    pausers := ← Json.required members "pausers" (Json.list? Json.text?)
    remoteChain := ← Json.required members "l2_chain_id" Json.word64?
    homeChain := ← Json.required members "l1_chain_id" Json.word64?
    startHeight := ← Json.required members "start_height" Json.word64?
    finalityDelay := ← Json.required members "finality_delay" Json.word64?
    scheme := ← Json.optional members "proof_scheme" Json.scheme? }

theorem ofJson?_toJson (g : Genesis) : ofJson? g.toJson = some g := by
  have haccounts := Json.list?_ofList Json.text?_text
  have hscheme : Json.optional [("proof_scheme", Json.ofOption Json.ofScheme g.scheme)]
      "proof_scheme" Json.scheme? = some g.scheme :=
    Json.optional_cons_self Json.scheme?_ofScheme rfl g.scheme
  simp [ofJson?, toJson, Json.record?_object, Json.required_cons_of_ne, Json.optional_cons_of_ne,
    haccounts, hscheme]

end Genesis

/-- A request to go on with the store of an earlier version. It says nothing else. -/
structure Upgrade where
  deriving DecidableEq

namespace Upgrade

/-- The written form. -/
def toJson (_ : Upgrade) : Json := .object []

/-- Reads the written form. -/
def ofJson? (value : Json) : Option Upgrade := do
  let _ ← value.record? []
  some {}

theorem ofJson?_toJson (u : Upgrade) : ofJson? u.toJson = some u := rfl

end Upgrade

end TokenBridge
