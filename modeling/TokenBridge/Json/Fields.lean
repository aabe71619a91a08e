import TokenBridge.Accounts
import TokenBridge.Base64
import TokenBridge.Json.Value
import TokenBridge.Quota
import TokenBridge.Settings

/-!
# Strict reading of JSON values

A record is an object with exactly the known keys, each at most once; a member that may be absent
may also be `null`. A choice between records is an object with one member, whose key names the
alternative. A number is a bare word of digits without a leading zero; wide numbers and byte strings
travel as text. Roles, subsystems, flows and schemes are written by their names.
-/

namespace TokenBridge

/-! ## Records and their members -/

namespace Json

/-- The members of an object whose keys are all known and all different. -/
def record? (known : List String) : Json → Option (List (String × Json))
  | object members =>
    let keys := members.map Prod.fst
    if keys.Nodup ∧ keys.all known.contains then some members else none
  | _ => none

/-- The name and content of the chosen alternative. -/
def choice? : Json → Option (String × Json)
  | object [(key, content)] => some (key, content)
  | _ => none

/-- A member that has to be there. -/
def required (members : List (String × Json)) (key : String) (read : Json → Option α) : Option α :=
  (members.lookup key).bind read

/-- A member that may be absent or `null`. -/
def optional (members : List (String × Json)) (key : String) (read : Json → Option α) :
    Option (Option α) :=
  match members.lookup key with
  | none => some none
  | some null => some none
  | some value => (read value).map some

/-- Any text. -/
def text? : Json → Option String
  | text s => some s
  | _ => none

/-- A whole number without a sign. -/
def nat? : Json → Option Nat
  | bare w => Decimal.ofDigits? w.toList
  | _ => none

/-- A number of 64 bits. -/
def word64? (value : Json) : Option UInt64 := value.nat?.bind TokenBridge.word64?

/-- A number of 32 bits. -/
def word32? (value : Json) : Option UInt32 := value.nat?.bind TokenBridge.word32?

/-- A number of eight bits. -/
def byte? (value : Json) : Option UInt8 := value.nat?.bind TokenBridge.byte?

/-- An amount as decimal text. -/
def amount? (value : Json) : Option Amount :=
  value.text?.bind Amount.ofText?

/-- A point in time as decimal text of its nanoseconds. -/
def timestamp? (value : Json) : Option Timestamp :=
  value.text?.bind Timestamp.ofText?

/-- Bytes as base64 text. -/
def bytes? (value : Json) : Option Bytes :=
  value.text?.bind fun s => Base64.decode? s.toList

/-- An array whose items are all read. -/
def list? (read : Json → Option α) : Json → Option (List α)
  | array items => items.mapM read
  | _ => none

/-- The written form of a number of 64 bits. -/
def ofWord64 (w : UInt64) : Json := nat w.toNat

/-- The written form of a number of 32 bits. -/
def ofWord32 (w : UInt32) : Json := nat w.toNat

/-- The written form of a number of eight bits. -/
def ofByte (b : UInt8) : Json := nat b.toNat

/-- The written form of an amount. -/
def ofAmount (a : Amount) : Json := text a.text

/-- The written form of a point in time. -/
def ofTimestamp (t : Timestamp) : Json := text t.text

/-- The written form of bytes. -/
def ofBytes (bytes : Bytes) : Json := text (String.ofList (Base64.encode bytes))

/-- The written form of a list. -/
def ofList (write : α → Json) (items : List α) : Json := array (items.map write)

/-- The written form of what may be absent: `null` stands for it. -/
def ofOption (write : α → Json) : Option α → Json
  | none => null
  | some a => write a

/-! ## Reading what was written -/

section

variable {read : Json → Option α} {write : α → Json} {known : List String}
  {members : List (String × Json)} {key other : String}

@[simp] theorem text?_text (s : String) : text? (text s) = some s := rfl

@[simp] theorem nat?_nat (n : Nat) : nat? (nat n) = some n := by
  simp [nat?, nat, Decimal.text, Decimal.ofDigits?_eq_some_iff]

@[simp] theorem word64?_ofWord64 (w : UInt64) : word64? (ofWord64 w) = some w := by
  simp [word64?, ofWord64, word64?_eq_some_iff]

@[simp] theorem word32?_ofWord32 (w : UInt32) : word32? (ofWord32 w) = some w := by
  simp [word32?, ofWord32, word32?_eq_some_iff]

@[simp] theorem byte?_ofByte (b : UInt8) : byte? (ofByte b) = some b := by
  simp [byte?, ofByte, byte?_eq_some_iff]

@[simp] theorem amount?_ofAmount (a : Amount) : amount? (ofAmount a) = some a :=
  Amount.ofText?_text a

@[simp] theorem bytes?_ofBytes (bytes : Bytes) : bytes? (ofBytes bytes) = some bytes := by
  simp [bytes?, ofBytes, Base64.decode?_encode]

/-- A list is read back if its items are. -/
theorem list?_ofList (hread : ∀ a, read (write a) = some a) (items : List α) :
    list? read (ofList write items) = some items := by
  unfold ofList list?
  induction items with
  | nil => rfl
  | cons a items ih => simp [List.mapM_cons, hread, ih]

/-- An object with exactly the known keys is read as a record. -/
theorem record?_object (hkeys : members.map Prod.fst = known) (hdifferent : known.Nodup) :
    record? known (object members) = some members := by
  rw [record?, hkeys]
  exact if_pos ⟨hdifferent, by simp⟩

@[simp] theorem required_cons_self (value : Json) :
    required ((key, value) :: members) key read = read value := by
  simp [required]

theorem lookup_cons_of_ne (h : key ≠ other) (value : Json) :
    ((other, value) :: members).lookup key = members.lookup key := by
  rw [List.lookup_cons, beq_eq_false_iff_ne.mpr h]

theorem required_cons_of_ne (h : key ≠ other) (value : Json) :
    required ((other, value) :: members) key read = required members key read := by
  rw [required, lookup_cons_of_ne h, required]

/-- A member that may be absent is read back. -/
theorem optional_cons_self (hread : ∀ a, read (write a) = some a) (hnull : read null = none)
    (value : Option α) :
    optional ((key, ofOption write value) :: members) key read = some value := by
  rw [optional, List.lookup_cons_self]
  cases value with
  | none => rfl
  | some a =>
    have hpresent : write a ≠ null := by
      intro h
      have ha := hread a
      rw [h, hnull] at ha
      cases ha
    split
    · next h => cases h
    · next h => exact absurd (Option.some.inj h) hpresent
    · next value _ h =>
      cases h
      rw [ofOption, hread]
      rfl

theorem optional_cons_of_ne (h : key ≠ other) (value : Json) :
    optional ((other, value) :: members) key read = optional members key read := by
  rw [optional, lookup_cons_of_ne h, optional]

end

end Json

/-! ## Names -/

namespace Json

/-- The written form of a role. -/
def ofRole (role : Role) : Json := text role.tag

/-- The written form of a subsystem. -/
def ofSubsystem (subsystem : Subsystem) : Json := text subsystem.tag

/-- The written form of a flow. -/
def ofFlow (flow : Flow) : Json := text flow.tag

/-- The written form of a scheme. -/
def ofScheme (scheme : Scheme) : Json := text scheme.tag

/-- A role by its name. -/
def role? (value : Json) : Option Role := value.text?.bind Role.ofTag?

/-- A subsystem by its name. -/
def subsystem? (value : Json) : Option Subsystem := value.text?.bind Subsystem.ofTag?

/-- A flow by its name. -/
def flow? (value : Json) : Option Flow := value.text?.bind Flow.ofTag?

/-- A scheme by its name. -/
def scheme? (value : Json) : Option Scheme := value.text?.bind Scheme.ofTag?

@[simp] theorem role?_ofRole (role : Role) : role? (ofRole role) = some role := by
  cases role <;> decide +kernel

@[simp] theorem subsystem?_ofSubsystem (subsystem : Subsystem) :
    subsystem? (ofSubsystem subsystem) = some subsystem := by
  cases subsystem <;> decide +kernel

@[simp] theorem flow?_ofFlow (flow : Flow) : flow? (ofFlow flow) = some flow := by
  cases flow <;> decide +kernel

@[simp] theorem scheme?_ofScheme (scheme : Scheme) : scheme? (ofScheme scheme) = some scheme := by
  cases scheme <;> decide +kernel

end Json

end TokenBridge
