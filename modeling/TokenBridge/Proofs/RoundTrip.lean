import TokenBridge.Proofs.Atomicity
import TokenBridge.Proofs.Backing
import TokenBridge.Proofs.Refusals

/-!
# A deposit can be paid back

The message that a deposit announces stands for the amount that was deposited whenever the token is
bound as it was then, however it was bound in between. A withdrawal of such a message is refused for
many reasons, but neither for its asset nor for its amount, and what it pays is what was deposited.
-/

namespace TokenBridge

variable {α β : Type} {g : Genesis} {log : List Entry} {e : Entry} {env : Env} {s t : Store}
  {receipt : Receipt} {token sender : Address} {amount remote : Amount} {b : Binding} {m : Message}
  {path : MerklePath} {height : UInt64} {now : Timestamp}

/-- A reason that lies in the asset or in the amount of a message. -/
def Rejection.blamesValue : Rejection → Bool
  | unbound _ => true
  | badAmount _ => true
  | _ => false

/-- The checks of a message look neither at its asset nor at its amount. -/
theorem WithdrawalOrder.sparesValue_checkMessage (now : Timestamp) (m : Message)
    (path : MerklePath) (height : UInt64) (s : Store) :
    Spares Rejection.blamesValue (checkMessage now m path height s) := by
  have hsettings : Spares Rejection.blamesValue s.getSettings := .present rfl s.settings
  have hfinal : Spares Rejection.blamesValue (s.isFinalized now height) := by
    unfold Store.isFinalized
    split
    · exact .ok _
    · exact hsettings.bind fun _ _ => .ok _
  have hincludes : Spares Rejection.blamesValue (s.includes height m.leaf path) := by
    unfold Store.includes
    split
    · exact .ok _
    · exact hsettings.bind fun _ _ => .ok _
  have hincluded : Spares Rejection.blamesValue (s.requireIncluded height m.leaf path) :=
    hincludes.bind fun _ _ => .demand rfl
  refine hfinal.bind fun _ _ => ?_
  refine (Spares.demand rfl).bind fun _ _ => ?_
  refine hincluded.bind fun _ _ => ?_
  refine hsettings.bind fun _ _ => ?_
  exact (Spares.demand rfl).bind fun _ _ => .demand rfl

namespace Store.BoundBothWays

variable [AddressRules]

/-- The checks of what is paid out pass the asset that a token is bound to, and every amount that a
deposit of the token announces. -/
theorem sparesValue_checkRelease (h : s.BoundBothWays) (hbound : s.bindings[token]? = some b)
    (hscaled : b.toAsset amount = .ok m.amount) (hamount : amount ≠ .zero)
    (hdata : m.data = b.asset.bytes) :
    Spares Rejection.blamesValue (WithdrawalOrder.checkRelease now m s) := by
  have htoken := h.token_eq token b hbound
  have hasset : m.assetId? = some b.asset := Word256.ofBytes?_eq_some_iff.mpr hdata.symm
  have hresolved : s.resolveAsset b.asset = .ok b :=
    resolveAsset_eq_ok_iff.mpr (h.bindingOfAsset?_eq_some_iff.mpr ⟨htoken ▸ hbound, rfl⟩)
  have hexpressed : b.toToken m.amount = .ok amount := Binding.toToken_eq_ok_iff.mpr hscaled
  have hpositive : demand (amount ≠ .zero) (.badAmount .zero) = .ok () :=
    demand_eq_ok_iff.mpr hamount
  unfold WithdrawalOrder.checkRelease
  rw [hasset]
  refine Spares.ok_bind rfl ?_
  refine Spares.ok_bind hresolved ?_
  refine (Spares.mapError fun _ => rfl).bind fun recipient _ => ?_
  refine Spares.ok_bind (Except.mapError_eq_ok_iff.mpr hexpressed) ?_
  refine Spares.ok_bind hpositive ?_
  refine (Spares.reserved (fun _ _ _ => rfl) .withdrawal b.token amount now s).bind fun _ _ => ?_
  exact (Spares.demand rfl).bind fun _ _ => .ok _

/-- A message about the asset of a token, with an amount that a deposit of the token announces, is
not refused for its asset or its amount. -/
theorem blamesValue_of_withdraw (h : s.BoundBothWays) (hbound : s.bindings[token]? = some b)
    (hscaled : b.toAsset amount = .ok m.amount) (hamount : amount ≠ .zero)
    (hdata : m.data = b.asset.bytes) {why : Rejection}
    (hstop : (withdraw env m path height).Faults s (.rejected why) t) :
    why.blamesValue = false := by
  simp only [withdraw, Call.faults_check_bind_iff] at hstop
  obtain ⟨hactive, _⟩ | ⟨_, _, ⟨hmessage, _⟩ | ⟨_, _, ⟨hrelease, _⟩ | ⟨order, _, hrecord⟩⟩⟩ := hstop
  · exact Spares.requireActive rfl rfl s why hactive
  · exact WithdrawalOrder.sparesValue_checkMessage _ _ _ _ _ why hmessage
  · exact h.sparesValue_checkRelease hbound hscaled hamount hdata why hrelease
  · exact (WithdrawalOrder.not_faults_record hrecord).elim

end Store.BoundBothWays

/-- A message about an asset with the right amount of it pays an amount of a token, and no other
message about the asset does. -/
structure PaysBack [AddressRules] (s : Store) (token : Address) (amount : Amount) (data : Bytes)
    (remote : Amount) : Prop where
  /-- A withdrawal of the message is not refused for its asset or its amount. -/
  spares : ∀ env sender m path height why t, m.data = data → m.amount = remote →
    ((Request.command sender (.withdraw m path height)).run env).transact s =
        (.error (.rejected why), t) →
      (∀ asset, why ≠ .unbound asset) ∧ ∀ fault, why ≠ .badAmount fault
  /-- If it succeeds, it gives one order, to pay the amount. -/
  pays : ∀ env sender m path height receipt t, m.data = data → m.amount = remote →
    ((Request.command sender (.withdraw m path height)).run env).transact s = (.ok receipt, t) →
      ∃ recipient, receipt.calls = [⟨token, .pay recipient amount⟩]
  /-- A withdrawal about the asset that pays the amount is one of the message. -/
  only : ∀ env sender m path height receipt t account recipient, m.data = data →
    ((Request.command sender (.withdraw m path height)).run env).transact s = (.ok receipt, t) →
    ⟨account, .pay recipient amount⟩ ∈ receipt.calls → account = token ∧ m.amount = remote

/-- A withdrawal of a message about the asset that a token is bound to pays what the message stands
for under the binding. -/
theorem Store.BoundBothWays.pays [AddressRules] (h : s.BoundBothWays)
    (hbound : s.bindings[token]? = some b) (hdata : m.data = b.asset.bytes)
    (hended : ((Request.command sender (.withdraw m path height)).run env).transact s =
      (.ok receipt, t)) :
    ∃ paid recipient, b.toAsset paid = .ok m.amount ∧
      receipt.calls = [⟨token, .pay recipient paid⟩] := by
  cases Step.of_yields rfl (Call.transact_eq_ok_iff.mp hended) with
  | @withdraw _ _ _ _ order _ _ hrelease =>
    obtain ⟨⟨b', hbound', hscaled, hasset⟩, recipient, hcalls⟩ := order.released h hrelease height
    have hsame : b'.asset = b.asset := Word256.ext (hasset.trans hdata)
    obtain rfl := h.token_inj hbound' hbound hsame
    obtain rfl := Option.some.inj (hbound'.symm.trans hbound)
    exact ⟨order.amount, recipient, Binding.toToken_eq_ok_iff.mp hscaled, hcalls⟩

/-- While a token is bound, a message pays back what it stands for under the binding. -/
theorem Store.BoundBothWays.paysBack [AddressRules] (h : s.BoundBothWays)
    (hbound : s.bindings[token]? = some b) (hscaled : b.toAsset amount = .ok remote)
    (hamount : amount ≠ .zero) :
    PaysBack s token amount b.asset.bytes remote := by
  constructor
  case spares =>
    rintro env sender m path height why t hdata rfl hended
    obtain ⟨⟨_, hstop⟩, _⟩ := Call.transact_eq_error_iff.mp hended
    have hother := h.blamesValue_of_withdraw hbound hscaled hamount hdata hstop
    constructor
    · rintro asset rfl
      cases hother
    · rintro fault rfl
      cases hother
  case pays =>
    rintro env sender m path height receipt t hdata rfl hended
    obtain ⟨paid, recipient, hpaid, hcalls⟩ := h.pays hbound hdata hended
    have hback := Binding.toToken_eq_ok_iff.mpr hscaled
    obtain rfl := Except.ok.inj ((Binding.toToken_eq_ok_iff.mpr hpaid).symm.trans hback)
    exact ⟨recipient, hcalls⟩
  case only =>
    rintro env sender m path height receipt t account recipient hdata hended hmem
    obtain ⟨paid, recipient', hpaid, hcalls⟩ := h.pays hbound hdata hended
    rw [hcalls, List.mem_singleton] at hmem
    cases hmem
    exact ⟨rfl, Except.ok.inj (hpaid.symm.trans hscaled)⟩

/-- In every run in which an amount of a token was deposited, the message that was announced pays
that amount back whenever the token has the same asset and the same decimals again. -/
theorem Run.pays_back [AddressRules] (h : Run g log s) (he : e ∈ log)
    (hmoved : e.moved? .deposit token = some amount) :
    ∃ m b, e.announced = [m] ∧ e.after.bindings[token]? = some b ∧ m.data = b.asset.bytes ∧
      ∀ b', s.bindings[token]? = some b' → b'.asset = b.asset →
        b'.tokenDecimals = b.tokenDecimals → b'.assetDecimals = b.assetDecimals →
        PaysBack s token amount m.data m.amount := by
  obtain ⟨env, request, result, after⟩ := e
  cases result with
  | error reason =>
    rw [Entry.moved?_error] at hmoved
    cases hmoved
  | ok receipt =>
    obtain ⟨earlier, later, hlog⟩ := List.append_of_mem he
    obtain ⟨before, _, hstep⟩ := h.step_of_eq_append hlog rfl
    obtain ⟨m, htold, hbindings, _⟩ := hstep.exists_told hmoved
    obtain ⟨b, hbound, hscaled, hdata⟩ := htold.bound
    refine ⟨m, b, htold.messages_eq, hbindings ▸ hbound, hdata.symm, ?_⟩
    intro b' hagain hasset htokenDecimals hassetDecimals
    have hscaled' : b'.toAsset amount = .ok m.amount := by
      rw [Binding.toAsset, htokenDecimals, hassetDecimals]
      exact hscaled
    rw [← hdata, ← hasset]
    exact h.boundBothWays.paysBack hagain hscaled' htold.amount_ne

/-! A run in which the token is bound to another asset after a deposit, and back to the first. -/

namespace Sample

/-- An amount of the token, and the amount of the asset that is announced for it. -/
def sentAmount : Amount := ⟨80, by decide⟩

def toldAmount : Amount := ⟨8000, by decide⟩

/-- The message by which the other chain sends the amount back. -/
def returnMessage : Message := { message with amount := toldAmount, nonce := 9 }

def detour : List Request := [
  .command "root" (.bindAsset "cash" Word256.zero.bytes 6 8),
  .command "alice" (.deposit "cash" sentAmount Word256.zero.toHex),
  .command "root" (.bindAsset "cash" ones.bytes 6 6),
  .command "root" (.bindAsset "cash" Word256.zero.bytes 6 8),
  .command "root" (.commit 1 returnMessage.leaf.bytes 0)]

def homecoming : Request := .command "bob" (.withdraw returnMessage ⟨0, 1, []⟩ 1)

def returned : List Entry × Store :=
  ((found genesis).transact .empty).2.play (detour.map (Sample.env, ·))

theorem run_returned : Run genesis returned.1 returned.2 := run_of_later detour (by decide)

/-- The deposit before the detour. -/
def outward : Entry := returned.1.get ⟨1, by decide +kernel⟩

end Sample

/-- After the detour the deposit of eighty is paid back for the eight thousand that it announced. -/
theorem Run.pays_back_sample :
    Run Sample.genesis Sample.returned.1 Sample.returned.2 ∧
      Sample.outward ∈ Sample.returned.1 ∧
      Sample.outward.moved? .deposit "cash" = some Sample.sentAmount ∧
      PaysBack Sample.returned.2 "cash" Sample.sentAmount Word256.zero.bytes Sample.toldAmount ∧
      ((Sample.homecoming.run Sample.env).transact Sample.returned.2).1.map Receipt.calls =
        .ok [⟨"cash", .pay "alice" Sample.sentAmount⟩] := by
  have hmem : Sample.outward ∈ Sample.returned.1 := List.get_mem _ _
  have hplayed : Sample.outward.moved? .deposit "cash" = some Sample.sentAmount ∧
      Sample.outward.announced.map (·.amount) = [Sample.toldAmount] ∧
      Sample.outward.after.bindings["cash"]? = some ⟨"cash", Word256.zero, 6, 8⟩ ∧
      Sample.returned.2.bindings["cash"]? = some ⟨"cash", Word256.zero, 6, 8⟩ ∧
      ((Sample.homecoming.run Sample.env).transact Sample.returned.2).1.map Receipt.calls =
        .ok [⟨"cash", .pay "alice" Sample.sentAmount⟩] := by
    decide +kernel
  obtain ⟨hmoved, hannounced, hbefore, hagain, hcalls⟩ := hplayed
  obtain ⟨m, b, hm, hb, hdata, hpays⟩ := Run.pays_back Sample.run_returned hmem hmoved
  obtain rfl := Option.some.inj (hbefore.symm.trans hb)
  rw [hm, List.map_singleton, List.singleton_inj] at hannounced
  rw [hannounced, hdata] at hpays
  exact ⟨Sample.run_returned, hmem, hmoved, hpays _ hagain rfl rfl rfl, hcalls⟩

end TokenBridge
