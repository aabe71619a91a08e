import Mathlib.Algebra.Ring.Nat
import TokenBridge.Proofs.Rollover
import TokenBridge.Proofs.Run

/-!
# The cap of an epoch

The movements of a flow of a token are told apart by the epoch of the quota that they leave. Those
of one epoch are made under one limit, and what the quota says has been used is their sum, however
late the epochs roll over, whatever terms are set in between and however the token is bound.
-/

namespace TokenBridge

variable {flow : Flow} {token : Address} {now : Timestamp}

/-- The amount that an order pays out of a token, if it is one to pay. -/
def TokenCall.payment? (token : Address) : TokenCall → Option Amount
  | ⟨addressee, .pay _ amount⟩ => if addressee = token then some amount else none
  | ⟨_, .take _ _ _⟩ => none

namespace Entry

/-- The amount of a token that a request moved in a flow, if it did. -/
def moved? (flow : Flow) (token : Address) (e : Entry) : Option Amount :=
  match e.request, e.result with
  | .command _ (.deposit addressee amount _), .ok _ =>
    if .deposit = flow ∧ addressee = token then some amount else none
  | .command sender (.receive _ amount _), .ok _ =>
    if .deposit = flow ∧ sender = token then some amount else none
  | .command _ (.withdraw ..), .ok receipt =>
    if .withdrawal = flow then receipt.calls.findSome? (·.payment? token) else none
  | _, _ => none

/-- The movement that a request made in a flow that is capped, if it did. -/
def charge? (flow : Flow) (token : Address) (e : Entry) : Option Charge :=
  (e.moved? flow token).bind fun amount => (e.after.quota? flow token).map (Charge.mk amount)

/-- The terms that a request set for a flow of a token, if it did. -/
def termsSet? (flow : Flow) (token : Address) (e : Entry) : Option Terms :=
  match e.request, e.result with
  | .command _ (.setTerms addressee direction terms), .ok _ =>
    if direction = flow ∧ addressee = token then some terms else none
  | _, _ => none

end Entry

/-- The movements of a flow of a token in a log that were charged to its quota. -/
def charges (flow : Flow) (token : Address) (log : List Entry) : List Charge :=
  log.filterMap (Entry.charge? flow token)

/-- The charges that left a quota with the given epoch. -/
def inEpoch (epoch : UInt64) (made : List Charge) : List Charge :=
  made.filter (·.quota.epoch = epoch)

/-- What was charged in all. -/
def totalCharged (made : List Charge) : Nat := (made.map (·.amount.toNat)).sum

/-- Charges under one limit, which their sum does not exceed and which the last one left used. -/
structure Capped (made : List Charge) : Prop where
  limit_eq : ∀ c ∈ made, ∀ c' ∈ made, c.quota.terms.limit = c'.quota.terms.limit
  total_le : ∀ c ∈ made, totalCharged made ≤ c.quota.terms.limit.toNat
  used_eq : ∀ c, made.getLast? = some c → c.quota.used.toNat = totalCharged made

/-- A quota accounts for charges if none is of a later epoch, and those of its own epoch were made
under its limit and add up to what it says has been used. -/
structure Quota.Accounts (q : Quota) (made : List Charge) : Prop where
  epoch_le : ∀ c ∈ made, c.quota.epoch ≤ q.epoch
  limit_eq : ∀ c ∈ inEpoch q.epoch made, c.quota.terms.limit = q.terms.limit
  used_eq : q.used.toNat = totalCharged (inEpoch q.epoch made)
  used_le : q.used ≤ q.terms.limit

/-- Charges and the quota that is stored after them. -/
structure Accounted (made : List Charge) (quota : Option Quota) : Prop where
  capped : ∀ epoch, Capped (inEpoch epoch made)
  eq_nil : quota = none → made = []
  accounts : ∀ q, quota = some q → q.Accounts made

theorem inEpoch_append (epoch : UInt64) (made more : List Charge) :
    inEpoch epoch (made ++ more) = inEpoch epoch made ++ inEpoch epoch more :=
  List.filter_append ..

theorem totalCharged_append (made more : List Charge) :
    totalCharged (made ++ more) = totalCharged made + totalCharged more := by
  unfold totalCharged
  rw [List.map_append, List.sum_append]

theorem mem_inEpoch {epoch : UInt64} {made : List Charge} {c : Charge} :
    c ∈ inEpoch epoch made ↔ c ∈ made ∧ c.quota.epoch = epoch := by
  simp [inEpoch]

theorem Capped.nil : Capped [] where
  limit_eq := nofun
  total_le := nofun
  used_eq := nofun

namespace Quota.Accounts

variable {q r : Quota} {made : List Charge} {amount : Amount}

/-- A later epoch starts without charges, so rolling forward accounts for the same charges. -/
theorem rolled (h : q.Accounts made) (hrolled : q.rolled? now = some r) : r.Accounts made := by
  rcases eq_or_epoch_lt_of_rolled? hrolled with rfl | ⟨hlater, hused⟩
  · exact h
  · have hnone : inEpoch r.epoch made = [] := by
      rw [inEpoch, List.filter_eq_nil_iff]
      intro c hc heq
      have hle := h.epoch_le c hc
      rw [of_decide_eq_true heq] at hle
      exact UInt64.not_le.mpr hlater hle
    constructor
    · intro c hc
      exact UInt64.le_trans (h.epoch_le c hc) (UInt64.le_of_lt hlater)
    · intro c hc
      rw [hnone] at hc
      cases hc
    · rw [hnone, hused]
      rfl
    · rw [hused]
      exact Nat.zero_le _

/-- New terms that wait do not touch what is accounted for. -/
theorem scheduled (h : q.Accounts made) (terms : Terms) :
    Accounts { q with pending := some terms } made :=
  ⟨h.epoch_le, h.limit_eq, h.used_eq, h.used_le⟩

/-- A charge is accounted for by the quota that it leaves. -/
theorem charged (h : q.Accounts made) (htaken : q.take? amount = some r) :
    r.Accounts (made ++ [⟨amount, r⟩]) := by
  obtain ⟨hused, hle, hr⟩ := take?_eq_some_iff.mp htaken
  have hepoch : r.epoch = q.epoch := by rw [hr]
  have hlimit : r.terms = q.terms := by rw [hr]
  constructor
  · intro c hc
    rcases List.mem_append.mp hc with hold | hnew
    · rw [hepoch]
      exact h.epoch_le c hold
    · rw [List.mem_singleton.mp hnew]
      exact UInt64.le_refl _
  · intro c hc
    obtain ⟨hmem, hc⟩ := mem_inEpoch.mp hc
    rcases List.mem_append.mp hmem with hold | hnew
    · rw [hlimit]
      exact h.limit_eq c (mem_inEpoch.mpr ⟨hold, hc.trans hepoch⟩)
    · rw [List.mem_singleton.mp hnew]
  · have hlast : inEpoch r.epoch [⟨amount, r⟩] = [⟨amount, r⟩] := by simp [inEpoch]
    rw [inEpoch_append, totalCharged_append, hlast, hepoch, ← h.used_eq, hused]
    rfl
  · rw [hlimit]
    exact hle

/-- The charges of the open epoch, the last of which left the quota. -/
theorem capped (h : r.Accounts (made ++ [⟨amount, r⟩])) :
    Capped (inEpoch r.epoch (made ++ [⟨amount, r⟩])) := by
  constructor
  · intro c hc c' hc'
    rw [h.limit_eq c hc, h.limit_eq c' hc']
  · intro c hc
    rw [h.limit_eq c hc, ← h.used_eq]
    exact Amount.le_def.mp h.used_le
  · intro c hc
    have hlast : inEpoch r.epoch [⟨amount, r⟩] = [⟨amount, r⟩] := by simp [inEpoch]
    rw [inEpoch_append, hlast, List.getLast?_concat] at hc
    rw [← h.used_eq, ← Option.some.inj hc]

end Quota.Accounts

/-- Every change of a quota keeps its charges accounted for. -/
theorem Accounted.step {made : List Charge} {quota after : Option Quota} {charge : Option Charge}
    {terms : Option Terms} (h : Accounted made quota)
    (hstep : QuotaStep now quota charge terms after) :
    Accounted (made ++ charge.toList) after := by
  cases hstep with
  | keep => simpa using h
  | opened terms =>
    obtain rfl := h.eq_nil rfl
    constructor
    · intro epoch
      exact Capped.nil
    · exact nofun
    · intro q hq
      obtain rfl := Option.some.inj hq
      exact ⟨nofun, nofun, rfl, Nat.zero_le _⟩
  | scheduled terms hrolled =>
    rw [Option.toList_none, List.append_nil]
    refine ⟨h.capped, nofun, ?_⟩
    intro q hq
    obtain rfl := Option.some.inj hq
    exact ((h.accounts _ rfl).rolled hrolled).scheduled terms
  | @charged q rolled r amount hrolled htaken =>
    have haccounts := ((h.accounts _ rfl).rolled hrolled).charged htaken
    -- Only the open epoch gains a charge; those of the other epochs stay as they are.
    refine ⟨?_, nofun, ?_⟩
    · intro epoch
      by_cases hepoch : r.epoch = epoch
      · rw [← hepoch]
        exact haccounts.capped
      · have hnone : inEpoch epoch [⟨amount, r⟩] = [] := by simp [inEpoch, hepoch]
        rw [Option.toList_some, inEpoch_append, hnone, List.append_nil]
        exact h.capped epoch
    · intro q' hq'
      rw [← Option.some.inj hq']
      exact haccounts

/-- A movement that was checked charges the quota of its own flow and token, if there is one. -/
theorem Store.quotaStep_of_reserved {s : Store} {moving : Flow} {moved : Address} {amount : Amount}
    {after : Option Quota} (h : s.reserved moving moved amount now = .ok after) (flow : Flow)
    (token : Address) :
    let t := s.withQuota moving moved after
    QuotaStep now (s.quota? flow token)
      (if moving = flow ∧ moved = token then (t.quota? flow token).map (Charge.mk amount) else none)
      none (t.quota? flow token) := by
  intro t
  rw [quota?_withQuota]
  by_cases hkey : moving = flow ∧ moved = token
  · rw [if_pos hkey, if_pos hkey]
    obtain ⟨rfl, rfl⟩ := hkey
    rcases reserved_eq_ok_iff.mp h with ⟨hnone, rfl⟩ |
      ⟨q, rolled, charged, hq, hrolled, htaken, rfl⟩
    · rw [hnone]
      exact QuotaStep.keep none
    · rw [hq]
      exact QuotaStep.charged hrolled htaken
  · rw [if_neg hkey, if_neg hkey]
    exact QuotaStep.keep _

/-- A movement is charged to the quota after it. -/
theorem Entry.charge?_of_moved? {e : Entry} {amount : Amount} {condition : Prop}
    [Decidable condition] (h : e.moved? flow token = if condition then some amount else none) :
    e.charge? flow token =
      if condition then (e.after.quota? flow token).map (Charge.mk amount) else none := by
  unfold charge?
  rw [h]
  split
  · rfl
  · rfl

/-- A step does to every quota one of the four things that may become of it. -/
theorem Step.quotaStep [AddressRules] {env : Env} {s t : Store} {request : Request}
    {receipt : Receipt} (hstep : Step env s request receipt t) (flow : Flow) (token : Address) :
    QuotaStep env.now (s.quota? flow token)
      (Entry.charge? flow token ⟨env, request, .ok receipt, t⟩)
      (Entry.termsSet? flow token ⟨env, request, .ok receipt, t⟩) (t.quota? flow token) := by
  cases hstep with
  | @deposit _ addressee amount _ _ _ _ _ hcheck _ hrecord
  | @receive addressee _ amount _ _ _ _ _ _ _ hcheck hrecord =>
    obtain ⟨_, _, _, _, hreserved, _, htoken⟩ := DepositOrder.check_eq_ok_iff.mp hcheck
    obtain ⟨_, _, rfl⟩ := DepositOrder.store_of_record hrecord
    have hquota := Store.quotaStep_of_reserved hreserved flow token
    rw [Entry.charge?_of_moved? rfl]
    rwa [← htoken] at hquota ⊢
  | @withdraw sender m path height order _ _ hrelease =>
    obtain ⟨_, _, _, _, _, _, _, hreserved, _, htoken, _⟩ :=
      WithdrawalOrder.checkRelease_eq_ok_iff.mp hrelease
    have hquota := Store.quotaStep_of_reserved hreserved flow token
    have hmoved : Entry.moved? flow token
        ⟨env, .command sender (.withdraw m path height), .ok (order.receipt m.leaf height),
          order.recorded s⟩ =
          if .withdrawal = flow ∧ order.token = token then some order.amount else none := by
      unfold Entry.moved? WithdrawalOrder.receipt
      by_cases htoken : order.token = token
      · simp [TokenCall.payment?, htoken]
      · simp [TokenCall.payment?, htoken]
    rw [Entry.charge?_of_moved? hmoved]
    rwa [← htoken] at hquota
  | @setTerms _ account other terms q _ _ _ hterms _ =>
    have hafter : Store.quota? { s with quotas := s.quotas.insert ⟨other, account⟩ q } flow token =
        if other = flow ∧ account = token then some q else s.quota? flow token :=
      Store.quota?_withQuota other flow account token (some q) s
    rw [hafter]
    change QuotaStep env.now _ none (if other = flow ∧ account = token then some terms else none) _
    by_cases hkey : other = flow ∧ account = token
    · rw [if_pos hkey, if_pos hkey]
      obtain ⟨rfl, rfl⟩ := hkey
      obtain ⟨hvalid, ⟨hnone, rfl, _⟩ | ⟨old, rolled, hold, hrolled, rfl, _⟩⟩ :=
        Store.withTerms_eq_ok_iff.mp hterms
      · rw [hnone]
        exact QuotaStep.opened terms hvalid
      · rw [hold]
        exact QuotaStep.scheduled terms hrolled hvalid
    · rw [if_neg hkey, if_neg hkey]
      exact QuotaStep.keep _
  | _ => exact QuotaStep.keep _

/-- A request that faults moves nothing. -/
theorem Entry.moved?_error (flow : Flow) (token : Address) (env : Env) (request : Request)
    (reason : Fault) (after : Store) :
    Entry.moved? flow token ⟨env, request, .error reason, after⟩ = none := by
  cases request with
  | command sender command =>
    cases command with
    | _ => rfl
  | _ => rfl

/-- A request that faults charges nothing. -/
theorem Entry.charge?_error (flow : Flow) (token : Address) (env : Env) (request : Request)
    (reason : Fault) (after : Store) :
    Entry.charge? flow token ⟨env, request, .error reason, after⟩ = none := by
  rw [charge?, moved?_error, Option.bind_none]

theorem charges_snoc (flow : Flow) (token : Address) (log : List Entry) (e : Entry) :
    charges flow token (log ++ [e]) = charges flow token log ++ (e.charge? flow token).toList :=
  filterMap_snoc (Entry.charge? flow token) log e

namespace Run

variable [AddressRules] {g : Genesis} {log : List Entry} {s : Store}

/-- In every run the stored quotas account for the charges so far. -/
theorem accounted (h : Run g log s) (flow : Flow) (token : Address) :
    Accounted (charges flow token log) (s.quota? flow token) := by
  induction h using rec_step with
  | found _ hfound =>
    obtain ⟨_, _, _, rfl⟩ := yields_found hfound
    have hnone : Store.empty.quota? flow token = none := by simp [Store.quota?, Store.empty]
    refine ⟨fun _ => Capped.nil, fun _ => rfl, ?_⟩
    intro q hq
    cases hnone.symm.trans hq
  | fault env request reason _ _ ih =>
    rw [charges_snoc, Entry.charge?_error]
    simpa using ih
  | step _ _ hstep ih =>
    rw [charges_snoc]
    exact ih.step (hstep.quotaStep flow token)

/-- In every run, the movements of a flow of a token that left its quota in one epoch were made
under one limit, which holds their sum, and the last of them left that sum used; and no stored quota
has used more than its limit. -/
theorem capped_epoch (h : Run g log s) (flow : Flow) (token : Address) :
    (∀ epoch, Capped (inEpoch epoch (charges flow token log))) ∧
      ∀ q, s.quota? flow token = some q → q.used ≤ q.terms.limit := by
  have haccounted := h.accounted flow token
  exact ⟨haccounted.capped, fun q hq => (haccounted.accounts q hq).used_le⟩

end Run

namespace Sample

/-- The log of a run in which deposits are capped at fifty-two a minute, and the store in the end.
Of three deposits in the first minute the last one would exceed the cap; another one comes in the
third minute. -/
def metered : List Entry × Store :=
  let later : Env := { env with now := ⟨125000000000⟩ }
  let deposit (amount : Amount) : Request :=
    .command "alice" (.deposit "cash" amount Word256.zero.toHex)
  ((found genesis).transact .empty).2.play [
    (env, .command "root" (.bindAsset "cash" Word256.zero.bytes 6 6)),
    (env, .command "root" (.setTerms "cash" .deposit ⟨⟨52, by decide⟩, 60⟩)),
    (env, deposit ⟨21, by decide⟩),
    (env, deposit ⟨26, by decide⟩),
    (env, deposit ⟨22, by decide⟩),
    (later, deposit ⟨43, by decide⟩)]

theorem run_metered : Run genesis metered.1 metered.2 :=
  Run.of_found (by decide +kernel) _ (by decide)

end Sample

/-- The two deposits in the first minute are charged to one epoch, and the one in the third minute
to the epoch after the next. -/
theorem Run.capped_epoch_sample :
    Run Sample.genesis Sample.metered.1 Sample.metered.2 ∧
      (charges .deposit "cash" Sample.metered.1).map
        (fun c => (c.quota.epoch, c.amount.toNat)) = [(0, 21), (0, 26), (2, 43)] ∧
      (∀ epoch, Capped (inEpoch epoch (charges .deposit "cash" Sample.metered.1))) ∧
      ∀ q, Sample.metered.2.quota? .deposit "cash" = some q → q.used ≤ q.terms.limit :=
  ⟨Sample.run_metered, by decide +kernel, capped_epoch Sample.run_metered .deposit "cash"⟩

end TokenBridge
