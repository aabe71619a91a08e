import TokenBridge.Bridge
import TokenBridge.Proofs.Rendering

/-!
# Documents read back

What is written for a request, a message or a path is read back as the same, whatever texts, bytes,
numbers and lists it holds. Reading takes more than what is written: blanks, other escapes, members
in any order, absent ones. A text that was read and written once says the same as before, and does
not change when it is read and written again.
-/

namespace TokenBridge

namespace Json

variable {α : Type} {depth : Nat} {write : α → Json} {members : List (String × Json)}

/-! ### What fits -/

theorem fits_nat (n : Nat) : Fits depth (nat n) := .bare (isWord_text n)

theorem fits_null : Fits depth null :=
  .bare (by simp [IsWord, isWordChar, isBlank, isDelimiter])

@[simp] theorem fits_text (s : String) : Fits depth (text s) := .text s

@[simp] theorem fits_ofWord64 (w : UInt64) : Fits depth (ofWord64 w) := fits_nat w.toNat

@[simp] theorem fits_ofWord32 (w : UInt32) : Fits depth (ofWord32 w) := fits_nat w.toNat

@[simp] theorem fits_ofByte (b : UInt8) : Fits depth (ofByte b) := fits_nat b.toNat

@[simp] theorem fits_ofAmount (a : Amount) : Fits depth (ofAmount a) := .text a.text

@[simp] theorem fits_ofBytes (bytes : Bytes) : Fits depth (ofBytes bytes) := .text _

@[simp] theorem fits_ofRole (role : Role) : Fits depth (ofRole role) := .text role.tag

@[simp] theorem fits_ofSubsystem (subsystem : Subsystem) : Fits depth (ofSubsystem subsystem) :=
  .text subsystem.tag

@[simp] theorem fits_ofFlow (flow : Flow) : Fits depth (ofFlow flow) := .text flow.tag

@[simp] theorem fits_ofScheme (scheme : Scheme) : Fits depth (ofScheme scheme) := .text scheme.tag

theorem fits_ofOption (h : ∀ a, Fits depth (write a)) (value : Option α) :
    Fits depth (ofOption write value) := by
  cases value with
  | none => exact fits_null
  | some a => exact h a

theorem fits_ofList (h : ∀ a, Fits depth (write a)) (items : List α) :
    Fits (depth + 1) (ofList write items) := by
  apply Fits.array
  intro item hitem
  obtain ⟨a, _, rfl⟩ := List.mem_map.mp hitem
  exact h a

/-- An object fits if the values of its members do, one level deeper. -/
@[simp] theorem fits_object_iff :
    Fits (depth + 1) (object members) ↔ ∀ member ∈ members, Fits depth member.2 := by
  constructor
  · intro h
    cases h with
    | object hmembers => exact hmembers
  · exact Fits.object

end Json

variable {α : Type} {depth : Nat}

@[simp] theorem Message.fits_toJson (m : Message) : Json.Fits (depth + 1) m.toJson := by
  simp [toJson]

@[simp] theorem MerklePath.fits_toJson (path : MerklePath) : Json.Fits (depth + 2) path.toJson := by
  simp [toJson, Json.fits_ofList]

theorem Genesis.fits_toJson (g : Genesis) : Json.Fits (depth + 2) g.toJson := by
  simp [toJson, Json.fits_ofList, Json.fits_ofOption]

theorem Upgrade.fits_toJson (u : Upgrade) : Json.Fits (depth + 1) u.toJson := by
  simp [toJson]

theorem Command.fits_toJson (command : Command) : Json.Fits (depth + 4) command.toJson := by
  cases command <;> simp [toJson]

theorem Notice.fits_toJson (notice : Notice) : Json.Fits (depth + 2) notice.toJson := by
  cases notice with
  | deposit recipient => simp [toJson]

theorem Page.fits_toMembers (page : Page) :
    ∀ member ∈ page.toMembers, Json.Fits depth member.2 := by
  simp [toMembers, Json.fits_ofOption]

theorem Question.fits_toJson (question : Question) : Json.Fits (depth + 4) question.toJson := by
  cases question with
  | bindings page => simpa [toJson] using page.fits_toMembers
  | members role page => simpa [toJson] using page.fits_toMembers
  | _ => simp [toJson]

/-! ### Documents -/

namespace Document

variable {document : Document} {ofJson? : Json → Option α} {toJson : α → Json} {a : α}
  {input output : String}

/-- The text that is written for what a text says. -/
def recode (document : Document) (ofJson? : Json → Option α) (toJson : α → Json) (input : String) :
    Except HostError String :=
  (document.read ofJson? input).map fun a => (toJson a).render

theorem recode_eq_ok_iff :
    document.recode ofJson? toJson input = .ok output ↔
      ∃ a, document.read ofJson? input = .ok a ∧ (toJson a).render = output := by
  unfold recode
  cases document.read ofJson? input with
  | error cause => simp [Except.map]
  | ok a => simp [Except.map]

/-- A document says the same after it was written. -/
structure RoundTrips (document : Document) (ofJson? : Json → Option α) (toJson : α → Json) :
    Prop where
  /-- What is written is read back. -/
  read_render (a : α) : document.read ofJson? (toJson a).render = .ok a
  /-- What a text says is also said by the text that is written for it. -/
  read_again (input : String) (a : α) (h : document.read ofJson? input = .ok a) :
    ∃ output, document.recode ofJson? toJson input = .ok output ∧
      document.read ofJson? output = .ok a
  /-- A text that was written is written the same again. -/
  recode_again (input output : String) (h : document.recode ofJson? toJson input = .ok output) :
    document.recode ofJson? toJson output = .ok output

/-- It is enough that values are read back, and that what is written can be told apart. -/
theorem RoundTrips.of_fits (hfits : ∀ a, Json.Fits Json.maxDepth (toJson a))
    (hvalue : ∀ a, ofJson? (toJson a) = some a) : document.RoundTrips ofJson? toJson := by
  have hread : ∀ a, document.read ofJson? (toJson a).render = .ok a := by
    intro a
    rw [read, Json.parse?_render (hfits a), Option.bind_some, hvalue]
  constructor
  · exact hread
  · intro input a h
    exact ⟨(toJson a).render, recode_eq_ok_iff.mpr ⟨a, h, rfl⟩, hread a⟩
  · intro input output h
    obtain ⟨a, _, rfl⟩ := recode_eq_ok_iff.mp h
    exact recode_eq_ok_iff.mpr ⟨a, hread a, rfl⟩

/-- What a token says about an amount is read back from its text. -/
theorem roundTrips_notice : notice.RoundTrips Notice.ofJson? Notice.toJson :=
  .of_fits (fun _ => Notice.fits_toJson _) Notice.ofJson?_toJson

/-- Everything that a bridge is asked or told is read back from its text. -/
theorem round_trips :
    genesis.RoundTrips Genesis.ofJson? Genesis.toJson ∧
      command.RoundTrips Command.ofJson? Command.toJson ∧
      question.RoundTrips Question.ofJson? Question.toJson ∧
      upgrade.RoundTrips Upgrade.ofJson? Upgrade.toJson ∧
      notice.RoundTrips Notice.ofJson? Notice.toJson ∧
      message.RoundTrips Message.ofJson? Message.toJson ∧
      path.RoundTrips MerklePath.ofJson? MerklePath.toJson :=
  ⟨.of_fits (fun _ => Genesis.fits_toJson _) Genesis.ofJson?_toJson,
    .of_fits (fun _ => Command.fits_toJson _) Command.ofJson?_toJson,
    .of_fits (fun _ => Question.fits_toJson _) Question.ofJson?_toJson,
    .of_fits (fun _ => Upgrade.fits_toJson _) Upgrade.ofJson?_toJson,
    roundTrips_notice,
    .of_fits (fun _ => Message.fits_toJson _) Message.ofJson?_toJson,
    .of_fits (fun _ => MerklePath.fits_toJson _) MerklePath.ofJson?_toJson⟩

/-- Blanks are left out, and what was absent is written as `null`. -/
example :
    (question.recode Question.ofJson? Question.toJson
      " \x7b\"asset_bindings\": \x7b\"limit\": 7\x7d\x7d").toOption =
        some "\x7b\"asset_bindings\":\x7b\"start_after\":null,\"limit\":7\x7d\x7d" := by
  decide +kernel

end Document

end TokenBridge
