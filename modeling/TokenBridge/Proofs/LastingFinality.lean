import TokenBridge.Proofs.Finality
import TokenBridge.Proofs.SoundQuota

/-!
# What is final stays final

A height is final once its commitment is older than the finality delay. Commitments stay as they are
and are in the order of their times, so whatever lies below a final height is final too. Finality
can be lost in one way alone, by a call that sets a longer delay than the one in force.
-/

namespace TokenBridge

variable {g : Genesis} {log later : List Entry} {env : Env} {s t u : Store} {request : Request}
  {receipt : Receipt} {c : Commitment} {now now' : Timestamp} {height : UInt64}

namespace Store

/-- The height is committed, and its delay has passed. -/
def Final (s : Store) (now : Timestamp) (height : UInt64) : Prop :=
  s.isFinalized now height = .ok true

instance (s : Store) (now : Timestamp) (height : UInt64) : Decidable (s.Final now height) :=
  match h : s.isFinalized now height with
  | .ok true => isTrue h
  | .ok false => isFalse fun hfinal => by cases h.symm.trans hfinal
  | .error _ => isFalse fun hfinal => by cases h.symm.trans hfinal

theorem final_iff :
    s.Final now height ↔ ∃ c settings, s.commitments[height]? = some c ∧
      s.settings = some settings ∧
      settings.finalityDelay.toNat ≤ now.seconds.toNat - c.time.seconds.toNat := by
  unfold Final isFinalized
  cases s.commitments[height]? with
  | none => simp
  | some c =>
    simp only [Except.bind_eq_ok_iff, getSettings, present_eq_ok_iff, Except.pure_eq_ok_iff,
      Commitment.isFinal, decide_eq_true_eq, Option.some.injEq]
    constructor
    · rintro ⟨settings, hsettings, hage⟩
      exact ⟨c, settings, rfl, hsettings, hage⟩
    · rintro ⟨_, settings, rfl, hsettings, hage⟩
      exact ⟨settings, hsettings, hage⟩

/-- Commitments wait no longer in one store than in another. -/
def WaitsAtMost (t s : Store) : Prop :=
  ∀ settings, s.settings = some settings →
    ∃ settings', t.settings = some settings' ∧ settings'.finalityDelay ≤ settings.finalityDelay

theorem WaitsAtMost.of_eq (h : t.settings = s.settings) : t.WaitsAtMost s :=
  fun settings hsettings => ⟨settings, h.trans hsettings, UInt64.le_refl _⟩

theorem WaitsAtMost.trans (h : u.WaitsAtMost t) (h' : t.WaitsAtMost s) : u.WaitsAtMost s := by
  intro settings hsettings
  obtain ⟨settings', hsettings', hle⟩ := h' settings hsettings
  obtain ⟨settings'', hsettings'', hle'⟩ := h settings' hsettings'
  exact ⟨settings'', hsettings'', UInt64.le_trans hle' hle⟩

/-- Finality is kept as time passes, as long as commitments are kept and the delay is not raised. -/
theorem Final.of_kept (h : s.Final now height)
    (hkept : ∀ c, s.commitments[height]? = some c → t.commitments[height]? = some c)
    (hwaits : t.WaitsAtMost s) (htime : now.nanos ≤ now'.nanos) : t.Final now' height := by
  obtain ⟨c, settings, hc, hsettings, hage⟩ := final_iff.mp h
  obtain ⟨settings', hsettings', hdelay⟩ := hwaits settings hsettings
  refine final_iff.mpr ⟨c, settings', hkept c hc, hsettings', ?_⟩
  have hseconds := Timestamp.seconds_le_of_nanos_le htime
  have hle := UInt64.le_iff_toNat_le.mp hdelay
  omega

/-- Is the request to set a longer finality delay than the one in force? -/
def raisesDelay (s : Store) : Request → Bool
  | .command _ (.setFinalityDelay seconds) => s.settings.any (·.finalityDelay < seconds)
  | _ => false

/-- Has one of the requests of a log, which goes on from this store, raised the finality delay? -/
def delayRaised (s : Store) : List Entry → Bool
  | [] => false
  | e :: rest => e.result.isOk && s.raisesDelay e.request || e.after.delayRaised rest

end Store

/-- A step that does not raise the delay leaves it as it is, or lowers it. -/
theorem Step.waitsAtMost [AddressRules] (hstep : Step env s request receipt t)
    (hraises : s.raisesDelay request = false) : t.WaitsAtMost s := by
  cases hstep with
  | deposit _ _ _ hrecord | receive _ _ _ hrecord =>
    obtain ⟨_, _, rfl⟩ := DepositOrder.store_of_record hrecord
    exact .of_eq rfl
  | @setFinalityDelay _ seconds settings _ _ hsettings _ =>
    rw [Store.raisesDelay, hsettings, Option.any_some, decide_eq_false_iff_not,
      UInt64.not_lt] at hraises
    intro settings' hsettings'
    obtain rfl := Option.some.inj (hsettings.symm.trans hsettings')
    exact ⟨_, rfl, hraises⟩
  | @setScheme _ _ settings _ _ hsettings _ =>
    intro settings' hsettings'
    obtain rfl := Option.some.inj (hsettings.symm.trans hsettings')
    exact ⟨_, rfl, UInt64.le_refl _⟩
  | _ => exact .of_eq rfl

/-- What is known of the finality of heights after the requests of a log. -/
structure LastingFinality [AddressRules] (g : Genesis) (log : List Entry) (s : Store) : Prop where
  /-- Below a final height, all that is committed is final. -/
  below : ∀ now height lower, s.Final now height → lower ∈ s.commitments → lower ≤ height →
    s.Final now lower
  /-- A final height stays final as time passes. -/
  passing : ∀ now now' height, now.nanos ≤ now'.nanos → s.Final now height → s.Final now' height
  /-- Every request that succeeds keeps it final, unless it raises the finality delay. -/
  called : ∀ env request receipt t, request.isLater = true →
    (request.run env).transact s = (.ok receipt, t) → s.raisesDelay request = false →
      ∀ now now' height, now.nanos ≤ now'.nanos → s.Final now height → t.Final now' height
  /-- So does every call that sets a delay which is not longer than the one in force. -/
  lowered : ∀ env sender seconds settings receipt t, s.settings = some settings →
    seconds ≤ settings.finalityDelay →
    ((Request.command sender (.setFinalityDelay seconds)).run env).transact s =
      (.ok receipt, t) →
      ∀ now height, s.Final now height → t.Final now height
  /-- However the run goes on, a final height stays final until the delay is raised. -/
  kept : ∀ later t, Run g (log ++ later) t → s.delayRaised later = false →
    ∀ now now' height, now.nanos ≤ now'.nanos → s.Final now height → t.Final now' height

namespace Run

variable [AddressRules]

/-- The store of a run is determined by its log. -/
theorem store_unique (h : Run g log s) (h' : Run g log t) : s = t := by
  cases h with
  | found hfound =>
    generalize hempty : ([] : List Entry) = empty at h'
    cases h' with
    | found hfound' => exact congrArg Prod.snd (hfound.symm.trans hfound')
    | request _ _ _ => simp at hempty
  | request _ _ _ =>
    obtain ⟨_, _, _, _, rfl⟩ := h'.of_snoc
    rfl

/-- Commitments wait no longer as a run goes on, until the delay is raised. -/
theorem waitsAtMost (h : Run g log s) (hlater : Run g (log ++ later) t)
    (hraised : s.delayRaised later = false) : t.WaitsAtMost s := by
  induction later generalizing log s with
  | nil =>
    rw [List.append_nil] at hlater
    obtain rfl := h.store_unique hlater
    exact .of_eq rfl
  | cons e rest ih =>
    rw [List.append_cons] at hlater
    obtain ⟨hkept, hrest⟩ := Bool.or_eq_false_iff.mp hraised
    obtain ⟨_, hnext⟩ := hlater.of_append
    obtain ⟨before, hbefore, hcomes, hended, rfl⟩ := hnext.of_snoc
    obtain rfl := h.store_unique hbefore
    refine (ih hnext hlater hrest).trans ?_
    cases hresult : e.result with
    | error reason =>
      rw [hresult] at hended
      exact .of_eq (congrArg Store.settings (Call.store_of_transact_error hended))
    | ok receipt =>
      rw [hresult] at hended hkept
      exact (Step.of_yields hcomes (Call.transact_eq_ok_iff.mp hended)).waitsAtMost hkept

/-- A height that is final stays so however the run goes on, until the delay is raised. -/
theorem final_of_append (h : Run g log s) (hlater : Run g (log ++ later) t)
    (hraised : s.delayRaised later = false) (htime : now.nanos ≤ now'.nanos)
    (hfinal : s.Final now height) : t.Final now' height :=
  hfinal.of_kept (fun _ hc => h.commitment_kept hlater hc) (h.waitsAtMost hlater hraised) htime

/-- A height that is final stays so when a request succeeds that does not raise the delay. -/
theorem final_of_transact (h : Run g log s) (hcomes : request.isLater = true)
    (hended : (request.run env).transact s = (.ok receipt, t))
    (hraises : s.raisesDelay request = false) (htime : now.nanos ≤ now'.nanos)
    (hfinal : s.Final now height) : t.Final now' height := by
  refine h.final_of_append (h.request hcomes hended) ?_ htime hfinal
  rw [Store.delayRaised, hraises, Bool.and_false]
  rfl

/-- In every run finality reaches down to all heights below, and lasts until the delay is raised. -/
theorem finality_lasts (h : Run g log s) : LastingFinality g log s where
  below := by
    intro now height lower hfinal hlower hle
    obtain ⟨c, settings, hc, hsettings, hage⟩ := Store.final_iff.mp hfinal
    have hc' := Std.ExtTreeMap.getElem?_eq_some_getElem hlower
    refine Store.final_iff.mpr ⟨_, settings, hc', hsettings, ?_⟩
    obtain ⟨hmade, rfl⟩ := (h.records.stored height c).mp hc
    obtain ⟨hmade', hheight⟩ := (h.records.stored lower _).mp hc'
    rw [← hheight] at hle
    have hseconds := Timestamp.seconds_le_of_nanos_le (h.records.times _ hmade' c hmade hle)
    omega
  passing _ _ _ htime hfinal := hfinal.of_kept (fun _ hc => hc) (.of_eq rfl) htime
  called _ _ _ _ hcomes hended hraises _ _ _ htime hfinal :=
    h.final_of_transact hcomes hended hraises htime hfinal
  lowered := by
    intro env sender seconds settings receipt t hsettings hle hended now height hfinal
    refine h.final_of_transact rfl hended ?_ (UInt64.le_refl _) hfinal
    rw [Store.raisesDelay, hsettings, Option.any_some, decide_eq_false_iff_not, UInt64.not_lt]
    exact hle
  kept _ _ hlater hraised _ _ _ htime hfinal := h.final_of_append hlater hraised htime hfinal

end Run

namespace Sample

/-- Two heights are committed with the times zero and one, in the second one. The delay is one
second. -/
def waiting : List Entry × Store :=
  ((found slowGenesis).transact .empty).2.play (rivals.map (Sample.env, ·))

theorem run_waiting : Run slowGenesis waiting.1 waiting.2 :=
  Run.of_found (by decide +kernel) (rivals.map (Sample.env, ·)) (by decide)

/-- Then the delay is lowered, and set to two seconds by someone who may not set it. -/
def hurries : List Request := [
  .command "root" (.setFinalityDelay 0),
  .command "alice" (.setFinalityDelay 2)]

def hurried : List Entry × Store := waiting.2.play (hurries.map (Sample.env, ·))

theorem run_hurried : Run slowGenesis (waiting.1 ++ hurried.1) hurried.2 :=
  run_waiting.play (hurries.map (Sample.env, ·)) (by decide)

end Sample

/-- The first of the two heights is final in the second one, and stays so. -/
theorem Run.finality_lasts_sample :
    Run Sample.slowGenesis Sample.waiting.1 Sample.waiting.2 ∧
      Sample.waiting.2.Final Sample.env.now 1 ∧ ¬Sample.waiting.2.Final Sample.env.now 2 ∧
      Sample.waiting.2.delayRaised Sample.hurried.1 = false ∧
      Sample.hurried.2.Final Sample.env.now 1 := by
  have hfinal :
      Sample.waiting.2.Final Sample.env.now 1 ∧ ¬Sample.waiting.2.Final Sample.env.now 2 := by
    decide +kernel
  have hraised : Sample.waiting.2.delayRaised Sample.hurried.1 = false := by decide +kernel
  have hlasts := finality_lasts Sample.run_waiting
  exact ⟨Sample.run_waiting, hfinal.1, hfinal.2, hraised,
    hlasts.kept _ _ Sample.run_hurried hraised _ _ 1 (UInt64.le_refl _) hfinal.1⟩

end TokenBridge
