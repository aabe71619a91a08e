import TokenBridge.Bridge
import TokenBridge.Proofs.Faults
import TokenBridge.Proofs.SoundQuota

/-!
# Tests that never abort

A test that is put together from tests that never abort never aborts either, so it is enough to look
at the places where something is counted. The quotas count epochs and seconds. A sound quota can be
rolled forward to every time, so the tests of movements and of new terms do not abort.
-/

namespace TokenBridge

variable {α β : Type} {s : Store} {now : Timestamp}

/-- The test ends with a result or a rejection. -/
def NeverAborts (result : Except Fault α) : Prop := result ≠ .error .aborted

namespace NeverAborts

theorem ok (a : α) : NeverAborts (.ok a) := nofun

theorem rejected (why : Rejection) : NeverAborts (.error (.rejected why) : Except Fault α) := nofun

/-- Of two tests in a row, the second one has to be looked at only where the first one passes. -/
theorem bind {first : Except Fault α} {next : α → Except Fault β} (hfirst : NeverAborts first)
    (hnext : ∀ a, first = .ok a → NeverAborts (next a)) : NeverAborts (first >>= next) := by
  intro h
  rcases Except.bind_eq_error_iff.mp h with h | ⟨a, ha, h⟩
  · exact hfirst h
  · exact hnext a ha h

theorem demand (condition : Prop) [Decidable condition] (otherwise : Rejection) :
    NeverAborts (demand condition otherwise) := by
  intro h
  cases (demand_eq_error_iff.mp h).2

/-- A fault of another kind is renamed to a rejection. -/
theorem mapError {ε : Type} {result : Except ε α} (reason : ε → Rejection) :
    NeverAborts (result.mapError fun e => .rejected (reason e)) := by
  intro h
  obtain ⟨_, _, h⟩ := Except.mapError_eq_error_iff.mp h
  cases h

theorem orAbort {value : Option α} (h : ∃ a, value = some a) : NeverAborts (orAbort value) := by
  obtain ⟨a, rfl⟩ := h
  exact ok a

theorem present (item : StoredItem) (value : Option α) :
    NeverAborts (Store.present item value) := by
  cases value with
  | none => exact rejected _
  | some a => exact ok a

theorem getSettings (s : Store) : NeverAborts s.getSettings := present _ _

theorem getPauses (s : Store) : NeverAborts s.getPauses := present _ _

theorem getNextNonce (s : Store) : NeverAborts s.getNextNonce := present _ _

theorem getVersion (s : Store) : NeverAborts s.getVersion := present _ _

theorem getCommitment (height : UInt64) (s : Store) : NeverAborts (s.getCommitment height) :=
  present _ _

theorem requireRole (role : Role) (account : Address) (s : Store) :
    NeverAborts (s.requireRole role account) :=
  demand _ _

/-- Where a role is asked for, a refusal names one. -/
theorem requireAnyRole (role : Role) (roles : List Role) (account : Address) (s : Store) :
    NeverAborts (s.requireAnyRole (role :: roles) account) := by
  unfold Store.requireAnyRole
  split
  · exact ok ()
  · exact rejected _

theorem requireActive (subsystem : Subsystem) (s : Store) :
    NeverAborts (s.requireActive subsystem) :=
  (getPauses s).bind fun _ _ => demand _ _

theorem requireValid [AddressRules] (address : Address) : NeverAborts (requireValid address) :=
  mapError _

theorem requireWord (bytes : Bytes) : NeverAborts (requireWord bytes) := by
  unfold TokenBridge.requireWord
  split
  · exact ok _
  · exact rejected _

theorem requireFree (asset : Word256) (token : Address) (s : Store) :
    NeverAborts (s.requireFree asset token) := by
  unfold Store.requireFree
  split
  · exact ok ()
  · exact demand _ _

theorem resolve (token : Address) (s : Store) : NeverAborts (s.resolve token) := by
  unfold Store.resolve
  split
  · exact ok _
  · exact rejected _

theorem resolveAsset (asset : Word256) (s : Store) : NeverAborts (s.resolveAsset asset) := by
  unfold Store.resolveAsset
  split
  · exact ok _
  · exact rejected _

theorem isFinalized (now : Timestamp) (height : UInt64) (s : Store) :
    NeverAborts (s.isFinalized now height) := by
  unfold Store.isFinalized
  split
  · exact ok _
  · exact (getSettings s).bind fun _ _ => ok _

theorem includes (height : UInt64) (leaf : Word256) (path : MerklePath) (s : Store) :
    NeverAborts (s.includes height leaf path) := by
  unfold Store.includes
  split
  · exact ok _
  · exact (getSettings s).bind fun _ _ => ok _

theorem requireNoEarlier (time : Timestamp) (s : Store) :
    NeverAborts (s.requireNoEarlier time) := by
  unfold Store.requireNoEarlier
  split
  · exact ok ()
  · exact (getCommitment _ s).bind fun _ _ => demand _ _

theorem requireFunds (env : Env) (token owner : Address) (amount : Amount) :
    NeverAborts (env.requireFunds token owner amount) := by
  refine (mapError _).bind fun balance _ => ?_
  refine (demand _ _).bind fun _ _ => ?_
  refine (mapError _).bind fun allowance _ => ?_
  exact demand _ _

theorem requireUpgradable (stored : VersionStamp) : NeverAborts (requireUpgradable stored) := by
  refine (demand _ _).bind fun _ _ => ?_
  split
  · exact rejected _
  · exact demand _ _

/-- A commitment is described by what is stored. -/
theorem describe (now : Timestamp) (height : UInt64) (s : Store) :
    NeverAborts (Question.describe now height s) :=
  (getCommitment height s).bind fun c _ => (isFinalized now c.height s).bind fun _ _ => ok _

/-- The checks of a message count nothing. -/
theorem checkMessage (now : Timestamp) (m : Message) (path : MerklePath) (height : UInt64)
    (s : Store) : NeverAborts (WithdrawalOrder.checkMessage now m path height s) := by
  have hincluded : NeverAborts (s.requireIncluded height m.leaf path) :=
    (includes height m.leaf path s).bind fun _ _ => demand _ _
  refine (isFinalized now height s).bind fun final _ => ?_
  refine (demand _ _).bind fun _ _ => ?_
  refine hincluded.bind fun _ _ => ?_
  refine (getSettings s).bind fun settings _ => ?_
  exact (demand _ _).bind fun _ _ => demand _ _

end NeverAborts

/-- Every stored quota is sound. -/
def Store.SoundQuotas (s : Store) : Prop :=
  ∀ flow token q, s.quota? flow token = some q → q.Sound

namespace Store.SoundQuotas

/-- Sound quotas can be looked at as of every time. -/
theorem quotaAt (h : s.SoundQuotas) (flow : Flow) (token : Address) (now : Timestamp) :
    NeverAborts (s.quotaAt flow token now) := by
  unfold Store.quotaAt
  split
  · exact .ok none
  · next q hq =>
    exact (NeverAborts.orAbort ((h flow token q hq).exists_rolled now)).bind fun _ _ => .ok _

theorem reserved (h : s.SoundQuotas) (flow : Flow) (token : Address) (amount : Amount)
    (now : Timestamp) : NeverAborts (s.reserved flow token amount now) := by
  refine (h.quotaAt flow token now).bind fun q _ => ?_
  cases q with
  | none => exact .ok none
  | some q =>
    cases htaken : q.take? amount with
    | none =>
      simp only [htaken]
      exact .rejected _
    | some after =>
      simp only [htaken]
      exact .ok _

theorem withTerms (h : s.SoundQuotas) (flow : Flow) (token : Address) (terms : Terms)
    (now : Timestamp) : NeverAborts (s.withTerms flow token terms now) := by
  refine (NeverAborts.demand _ _).bind fun _ _ => (h.quotaAt flow token now).bind fun q _ => ?_
  cases q with
  | none => exact .ok _
  | some q => exact .ok _

/-- The checks of a deposit never abort. -/
theorem checkDeposit (h : s.SoundQuotas) (now : Timestamp) (token : Address) (amount : Amount)
    (recipient : String) : NeverAborts (DepositOrder.check now token amount recipient s) := by
  unfold DepositOrder.check
  refine (NeverAborts.demand _ _).bind fun _ _ => ?_
  cases Word256.ofHex? recipient with
  | none => exact .rejected _
  | some account =>
    refine (NeverAborts.resolve token s).bind fun binding _ => ?_
    refine (NeverAborts.mapError _).bind fun remoteAmount _ => ?_
    exact (h.reserved .deposit token amount now).bind fun _ _ => .ok _

variable [AddressRules]

/-- The checks of what is paid out never abort. -/
theorem checkRelease (h : s.SoundQuotas) (now : Timestamp) (m : Message) :
    NeverAborts (WithdrawalOrder.checkRelease now m s) := by
  unfold WithdrawalOrder.checkRelease
  cases m.assetId? with
  | none => exact .rejected _
  | some asset =>
    refine (NeverAborts.resolveAsset asset s).bind fun binding _ => ?_
    refine (NeverAborts.mapError _).bind fun recipient _ => ?_
    refine (NeverAborts.mapError _).bind fun amount _ => ?_
    refine (NeverAborts.demand _ _).bind fun _ _ => ?_
    refine (h.reserved .withdrawal binding.token amount now).bind fun quota _ => ?_
    exact (NeverAborts.demand _ _).bind fun _ _ => .ok _

/-- Every question is answered or refused. -/
theorem answer (h : s.SoundQuotas) (now : Timestamp) (question : Question) :
    NeverAborts (question.answer now s) := by
  cases question with
  | settings => exact (NeverAborts.getSettings s).bind fun _ _ => .ok _
  | status =>
    exact (NeverAborts.getPauses s).bind fun _ _ =>
      (NeverAborts.getNextNonce s).bind fun _ _ => .ok _
  | commitment height => exact .describe now height s
  | latestCommitment =>
    unfold Question.answer
    cases s.lastHeight with
    | none => exact .ok _
    | some height => exact .describe now height s
  | isFinalized height => exact (NeverAborts.isFinalized now height s).bind fun _ _ => .ok _
  | isIncluded height leaf path =>
    exact (NeverAborts.mapError _).bind fun leaf _ =>
      (NeverAborts.includes height leaf path s).bind fun _ _ => .ok _
  | binding token =>
    refine (NeverAborts.mapError _).bind fun token _ => ?_
    cases s.bindings[token]? with
    | none => exact .rejected _
    | some b => exact .ok _
  | bindingOfAsset asset =>
    refine (NeverAborts.mapError _).bind fun asset _ => ?_
    cases s.bindingOfAsset? asset with
    | none => exact .rejected _
    | some b => exact .ok _
  | bindings page => exact (NeverAborts.mapError _).bind fun _ _ => .ok _
  | quota token flow =>
    exact (NeverAborts.mapError _).bind fun token _ =>
      (h.quotaAt flow token now).bind fun _ _ => .ok _
  | holdsRole role account => exact (NeverAborts.mapError _).bind fun _ _ => .ok _
  | members role page => exact (NeverAborts.mapError _).bind fun _ _ => .ok _
  | locked token => exact (NeverAborts.mapError _).bind fun _ _ => .ok _
  | nextNonce => exact (NeverAborts.getNextNonce s).bind fun _ _ => .ok _
  | messageLeaf message => exact .ok _
  | isRedeemed sourceChain nonce => exact .ok _

end Store.SoundQuotas

end TokenBridge
