import TokenBridge.Proofs.EpochCap
import TokenBridge.Proofs.SoundQuota

/-!
# New terms wait

New terms of a quota never reach into the open epoch. Until it ends the quota looks as if they had
not been set, whoever uses it in between; from its end on, epochs of the new duration follow one
another. Of several terms set in one epoch the last ones count, and terms that waited for the end of
an epoch in the past have taken effect there before other ones begin to wait.
-/

namespace TokenBridge

variable {flow : Flow} {token : Address} {terms : Terms} {now : Timestamp}

namespace Quota

variable {q r r' : Quota}

/-- Two quotas have the same epoch open. What moved in it and what waits for its end may differ. -/
structure SameEpoch (q r : Quota) : Prop where
  epoch_eq : q.epoch = r.epoch
  start_eq : q.start = r.start
  terms_eq : q.terms = r.terms

/-- A quota is in the epoch of the given terms that holds the time now, and nothing has moved. Such
epochs have followed one another since the end of the one that `r` has open. -/
structure Renewed (now : Timestamp) (q r : Quota) (terms : Terms) : Prop where
  holds : q.start.seconds.toNat ≤ now.seconds.toNat ∧ now.seconds.toNat < q.ending
  terms_eq : q.terms = terms
  used_eq : q.used = .zero
  pending_eq : q.pending = none
  on_grid : ∃ passed, q.epoch.toNat = r.epoch.toNat + 1 + passed ∧
    q.start.nanos.toNat = (r.ending + passed * terms.duration.toNat) * 1000000000

/-- A quota is in the open epoch of `r` until that ends, and in one of the given terms after. -/
structure GoesOver (q r : Quota) (terms : Terms) : Prop where
  before : ∀ later : Timestamp, later.seconds.toNat < r.ending →
    ∃ a, q.rolled? later = some a ∧ a.SameEpoch r
  after : ∀ later : Timestamp, r.ending ≤ later.seconds.toNat →
    ∃ a, q.rolled? later = some a ∧ a.Renewed later r terms

/-- What new terms do to a quota `q` that is `r` as of now: they leave `q'`. -/
structure Rescheduled (now : Timestamp) (terms : Terms) (q r q' : Quota) : Prop where
  rolled_eq : q.rolled? now = some r
  /-- Until the open epoch ends, the terms do not show. -/
  unchanged : ∀ later : Timestamp, now.nanos ≤ later.nanos → later.seconds.toNat < r.ending →
    ∃ a b, q.rolled? later = some a ∧ q'.rolled? later = some b ∧ b.SameEpoch a ∧ b.used = a.used
  /-- From its end on, epochs of the new terms follow one another. -/
  renewed : ∀ later : Timestamp, r.ending ≤ later.seconds.toNat →
    ∃ a, q'.rolled? later = some a ∧ a.Renewed later r terms
  /-- Terms that waited for an end in the past were in force from that end on. -/
  applied : ∀ waiting, q.pending = some waiting → q.ending ≤ now.seconds.toNat →
    r.Renewed now q waiting

namespace SameEpoch

theorem refl (q : Quota) : q.SameEpoch q := ⟨rfl, rfl, rfl⟩

theorem trans (h : q.SameEpoch r) (h' : r.SameEpoch r') : q.SameEpoch r' :=
  ⟨h.epoch_eq.trans h'.epoch_eq, h.start_eq.trans h'.start_eq, h.terms_eq.trans h'.terms_eq⟩

theorem ending_eq (h : q.SameEpoch r) : q.ending = r.ending := by
  unfold ending
  rw [h.start_eq, h.terms_eq]

end SameEpoch

/-- What waits for the end of an epoch is no part of it. -/
theorem sameEpoch_withPending (r : Quota) (terms : Terms) :
    SameEpoch { r with pending := some terms } r := ⟨rfl, rfl, rfl⟩

/-- Quotas in the same epoch are followed by the same epochs. -/
theorem Renewed.of_sameEpoch (h : q.Renewed now r terms) (hsame : r.SameEpoch r') :
    q.Renewed now r' terms := by
  obtain ⟨passed, hepoch, hstart⟩ := h.on_grid
  rw [hsame.epoch_eq] at hepoch
  rw [hsame.ending_eq] at hstart
  exact ⟨h.holds, h.terms_eq, h.used_eq, h.pending_eq, passed, hepoch, hstart⟩

/-- Whatever waits for the end of an epoch is in force from that end on. -/
theorem renewed_of_rolled? (hended : q.ending ≤ now.seconds.toNat)
    (hrolled : q.rolled? now = some r) : r.Renewed now q q.nextTerms := by
  obtain ⟨_, hepoch, hstart, hterms, hused, hpending⟩ :=
    (rolled?_eq_some_iff_of_le hended).mp hrolled
  exact ⟨holds_of_rolled? hended hrolled, hterms, hused, hpending, q.passed now, hepoch, hstart⟩

theorem nextTerms_of_pending (hpending : q.pending = some terms) : q.nextTerms = terms := by
  rw [nextTerms, hpending, Option.getD_some]

/-- A sound quota goes over to the terms that wait, since it can be rolled to every time. -/
theorem Sound.goesOver (h : q.Sound) (hsame : q.SameEpoch r) (hpending : q.pending = some terms) :
    q.GoesOver r terms := by
  constructor
  case before =>
    intro later hopen
    rw [← hsame.ending_eq] at hopen
    exact ⟨q, rolled?_of_lt hopen, hsame⟩
  case after =>
    intro later hended
    rw [← hsame.ending_eq] at hended
    obtain ⟨a, ha⟩ := h.exists_rolled later
    have hrenewed := renewed_of_rolled? hended ha
    rw [nextTerms_of_pending hpending] at hrenewed
    exact ⟨a, ha, hrenewed.of_sameEpoch hsame⟩

/-- Terms that are left to wait for the end of the open epoch do nothing before it. -/
theorem Sound.rescheduled (h : Sound { r with pending := some terms })
    (hrolled : q.rolled? now = some r) :
    q.Rescheduled now terms r { r with pending := some terms } := by
  have hsame := sameEpoch_withPending r terms
  constructor
  case rolled_eq => exact hrolled
  case unchanged =>
    intro later hle hopen
    have hseconds := Timestamp.seconds_le_of_nanos_le hle
    exact ⟨r, _, rolled?_of_rolled? hrolled hseconds hopen, rolled?_of_lt hopen, hsame, rfl⟩
  case renewed => exact (h.goesOver hsame rfl).after
  case applied =>
    intro waiting hwaiting hended
    have hrenewed := renewed_of_rolled? hended hrolled
    rwa [nextTerms_of_pending hwaiting] at hrenewed

end Quota

/-- While the epoch is open, nothing changes it, and what waits is what was set last. -/
theorem QuotaStep.sameEpoch {q : Quota} {charge : Option Charge} {set : Option Terms}
    {after : Option Quota} (hstep : QuotaStep now (some q) charge set after)
    (hopen : now.seconds.toNat < q.ending) :
    ∃ q', after = some q' ∧ q'.SameEpoch q ∧ q'.pending = set.or q.pending := by
  cases hstep with
  | keep => exact ⟨q, rfl, .refl q, rfl⟩
  | scheduled terms hrolled _ =>
    obtain rfl := Quota.eq_of_rolled?_of_lt hopen hrolled
    exact ⟨_, rfl, ⟨rfl, rfl, rfl⟩, rfl⟩
  | charged hrolled htaken =>
    obtain rfl := Quota.eq_of_rolled?_of_lt hopen hrolled
    obtain ⟨_, _, hafter⟩ := Quota.take?_eq_some_iff.mp htaken
    rw [hafter]
    exact ⟨_, rfl, ⟨rfl, rfl, rfl⟩, rfl⟩

/-- The terms that a log set last for a flow of a token. -/
def lastTerms? (flow : Flow) (token : Address) (log : List Entry) : Option Terms :=
  (log.filterMap (Entry.termsSet? flow token)).getLast?

theorem lastTerms?_cons (flow : Flow) (token : Address) (e : Entry) (log : List Entry) :
    lastTerms? flow token (e :: log) = (lastTerms? flow token log).or (e.termsSet? flow token) := by
  unfold lastTerms?
  cases hset : e.termsSet? flow token with
  | none => rw [List.filterMap_cons_none hset, Option.or_none]
  | some terms => rw [List.filterMap_cons_some hset, List.getLast?_cons, Option.or_some]

/-- A request that faults sets no terms. -/
theorem Entry.termsSet?_error (flow : Flow) (token : Address) (env : Env) (request : Request)
    (reason : Fault) (after : Store) :
    Entry.termsSet? flow token ⟨env, request, .error reason, after⟩ = none := by
  unfold termsSet?
  split
  · next hresult => cases hresult
  · rfl

/-- The terms of a capped flow are set by rolling its quota forward and leaving them to wait. -/
theorem QuotaStep.exists_rolled {q : Quota} {charge : Option Charge} {after : Option Quota}
    (hstep : QuotaStep now (some q) charge (some terms) after) :
    ∃ r, q.rolled? now = some r ∧ after = some { r with pending := some terms } := by
  cases hstep with
  | scheduled terms hrolled _ => exact ⟨_, hrolled, rfl⟩

theorem Entry.termsSet?_setTerms (flow : Flow) (token sender : Address) (terms : Terms) (env : Env)
    (receipt : Receipt) (after : Store) :
    Entry.termsSet? flow token
      ⟨env, .command sender (.setTerms token flow terms), .ok receipt, after⟩ = some terms := by
  simp [termsSet?]

namespace Store

variable [AddressRules] {s t : Store} {q : Quota}

/-- A request made while the epoch is open does not change it. What waits is what the request set,
or what waited before. -/
theorem sameEpoch_of_transact {env : Env} {request : Request} {result : Except Fault Receipt}
    (hquota : s.quota? flow token = some q) (hlater : request.isLater = true)
    (hopen : env.now.seconds.toNat < q.ending)
    (hended : (request.run env).transact s = (result, t)) :
    ∃ q', t.quota? flow token = some q' ∧ q'.SameEpoch q ∧
      q'.pending = (Entry.termsSet? flow token ⟨env, request, result, t⟩).or q.pending := by
  cases result with
  | error reason =>
    obtain rfl := Call.store_of_transact_error hended
    rw [Entry.termsSet?_error]
    exact ⟨q, hquota, .refl q, rfl⟩
  | ok receipt =>
    have hstep := Step.of_yields hlater (Call.transact_eq_ok_iff.mp hended)
    have hchange := hstep.quotaStep flow token
    rw [hquota] at hchange
    exact hchange.sameEpoch hopen

/-- Requests made while the epoch is open do not change it, and what waits is what was set last. -/
theorem sameEpoch_of_play (hquota : s.quota? flow token = some q)
    (requests : List (Env × Request))
    (hopen : ∀ r ∈ requests, r.2.isLater = true ∧ r.1.now.seconds.toNat < q.ending) :
    ∃ q', (s.play requests).2.quota? flow token = some q' ∧ q'.SameEpoch q ∧
      q'.pending = (lastTerms? flow token (s.play requests).1).or q.pending := by
  induction requests generalizing s q with
  | nil => exact ⟨q, hquota, .refl q, rfl⟩
  | cons r rest ih =>
    obtain ⟨hlater, htime⟩ := hopen r List.mem_cons_self
    let ended := (r.2.run r.1).transact s
    have hended : (r.2.run r.1).transact s = (ended.1, ended.2) := rfl
    obtain ⟨q₁, hquota₁, hsame₁, hpending₁⟩ := sameEpoch_of_transact hquota hlater htime hended
    have hrest : ∀ r' ∈ rest, r'.2.isLater = true ∧ r'.1.now.seconds.toNat < q₁.ending := by
      intro r' hr'
      rw [hsame₁.ending_eq]
      exact hopen r' (List.mem_cons_of_mem r hr')
    obtain ⟨q', hquota', hsame, hpending⟩ := ih hquota₁ hrest
    refine ⟨q', hquota', hsame.trans hsame₁, ?_⟩
    rw [hpending, hpending₁, play, lastTerms?_cons, Option.or_assoc]

end Store

namespace Run

variable [AddressRules] {g : Genesis} {log : List Entry} {s t : Store} {q : Quota}

/-- In every run the stored quotas are sound. -/
theorem quota_sound (h : Run g log s) (flow : Flow) (token : Address) :
    ∀ q, s.quota? flow token = some q → q.Sound := by
  induction h using rec_step with
  | found _ hfound =>
    obtain ⟨_, _, _, rfl⟩ := yields_found hfound
    intro q hq
    simp [Store.quota?, Store.empty] at hq
  | fault _ _ _ _ _ ih => exact ih
  | step _ _ hstep ih => exact (hstep.quotaStep flow token).sound ih

/-- In every run, new terms of a capped flow of a token do not show until the open epoch ends, and
are in force from its end on. Terms that had waited for an end in the past are in force until then.
If more requests are made before the end, the terms that were set last go into force there. -/
theorem terms_wait {env : Env} {sender : Address} {receipt : Receipt} (h : Run g log s)
    (hquota : s.quota? flow token = some q)
    (hset : ((Request.command sender (.setTerms token flow terms)).run env).transact s =
      (.ok receipt, t)) :
    ∃ r q', t.quota? flow token = some q' ∧ q.Rescheduled env.now terms r q' ∧
      ∀ requests : List (Env × Request),
        (∀ e ∈ requests, e.2.isLater = true ∧ e.1.now.seconds.toNat < r.ending) →
        ∃ q'', (t.play requests).2.quota? flow token = some q'' ∧
          q''.GoesOver r ((lastTerms? flow token (t.play requests).1).getD terms) := by
  have hnext : Run g (log ++ [⟨env, _, .ok receipt, t⟩]) t := h.request rfl hset
  have hstep := Step.of_yields rfl (Call.transact_eq_ok_iff.mp hset)
  have hchange := hstep.quotaStep flow token
  rw [hquota, Entry.termsSet?_setTerms] at hchange
  obtain ⟨r, hrolled, hafter⟩ := hchange.exists_rolled
  have hsound := hnext.quota_sound flow token _ hafter
  refine ⟨r, _, hafter, hsound.rescheduled hrolled, ?_⟩
  intro requests hopen
  have hlater := hnext.play requests fun e he => (hopen e he).1
  obtain ⟨q'', hquota'', hsame, hpending⟩ := Store.sameEpoch_of_play hafter requests hopen
  rw [Option.or_some] at hpending
  have hsound'' := hlater.quota_sound flow token q'' hquota''
  have hsame' := hsame.trans (r.sameEpoch_withPending terms)
  exact ⟨q'', hquota'', hsound''.goesOver hsame' hpending⟩

end Run

namespace Sample

/-- Deposits are capped to forty in sixty seconds, and fifteen are made. -/
def cappings : List Request := [
  .command "root" (.bindAsset "cash" Word256.zero.bytes 6 6),
  .command "root" (.setTerms "cash" .deposit ⟨⟨40, by decide⟩, 60⟩),
  .command "alice" (.deposit "cash" ⟨15, by decide⟩ Word256.zero.toHex)]

/-- The log of these calls and the store in the end. -/
def capped : List Entry × Store :=
  ((found genesis).transact .empty).2.play (cappings.map (Sample.env, ·))

theorem run_capped : Run genesis capped.1 capped.2 := run_of_later cappings (by decide)

/-- The quota of the deposits then. -/
def cap : Quota := ⟨0, Sample.env.now, ⟨⟨40, by decide⟩, 60⟩, ⟨15, by decide⟩, none⟩

/-- New terms, under which ten may be deposited in seven seconds. -/
def lower : Terms := ⟨⟨10, by decide⟩, 7⟩

def lowered : Except Fault Receipt × Store :=
  ((Request.command "root" (.setTerms "cash" .deposit lower)).run Sample.env).transact capped.2

end Sample

/-- A cap on deposits that is partly used goes over to the new terms at the end of its epoch. -/
theorem Run.terms_wait_sample :
    Run Sample.genesis Sample.capped.1 Sample.capped.2 ∧
      Sample.capped.2.quota? .deposit "cash" = some Sample.cap ∧
      Sample.lowered.1.isOk = true ∧
      ∃ r q', Sample.lowered.2.quota? .deposit "cash" = some q' ∧
        Sample.cap.Rescheduled Sample.env.now Sample.lower r q' ∧
        ∀ requests : List (Env × Request),
          (∀ e ∈ requests, e.2.isLater = true ∧ e.1.now.seconds.toNat < r.ending) →
          ∃ q'', (Sample.lowered.2.play requests).2.quota? .deposit "cash" = some q'' ∧
            q''.GoesOver r ((lastTerms? .deposit "cash"
              (Sample.lowered.2.play requests).1).getD Sample.lower) := by
  have hquota : Sample.capped.2.quota? .deposit "cash" = some Sample.cap := by decide +kernel
  have hok : Sample.lowered.1.isOk = true := by decide +kernel
  refine ⟨Sample.run_capped, hquota, hok, ?_⟩
  rcases hset : Sample.lowered with ⟨result, t⟩
  rw [hset] at hok
  cases result with
  | error fault => cases hok
  | ok receipt => exact terms_wait Sample.run_capped hquota hset

end TokenBridge
