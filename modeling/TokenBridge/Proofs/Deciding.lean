import TokenBridge.Proofs.Aborts

/-!
# Deciding by the first check that fails

A request asks for several things in a fixed order, and is refused for the first one that is
missing. What it asks for is listed here as conditions on the store, apart from how they are looked
up. The list decides a request if the first condition that does not hold refuses it, and if the
request is carried out where all of them hold.
-/

namespace TokenBridge

/-- A condition for a request, and how the request is refused where it does not hold. -/
structure Check where
  passes : Prop
  refuses : Rejection → Prop

/-- The first check that fails refuses a request; if none fails, the request is carried out. -/
structure DecidedBy (checks : List Check) (refused : Rejection → Prop) (done : Prop) : Prop where
  first : ∀ before k after, checks = before ++ k :: after → (∀ c ∈ before, c.passes) → ¬k.passes →
    ∃ why, k.refuses why ∧ refused why
  none : (∀ c ∈ checks, c.passes) → done

namespace DecidedBy

variable {checks rest : List Check} {k : Check} {refused refused' : Rejection → Prop}
  {done done' : Prop}

theorem nil (h : done) : DecidedBy [] refused done where
  first before k after hsplit := by simp at hsplit
  none _ := h

/-- A check that passes leaves the decision to those after it. -/
theorem cons_iff :
    DecidedBy (k :: rest) refused done ↔
      (k.passes → DecidedBy rest refused done) ∧
        (¬k.passes → ∃ why, k.refuses why ∧ refused why) := by
  constructor
  · intro h
    refine ⟨fun hpass => ⟨?_, ?_⟩, fun hfail => h.first [] k rest rfl nofun hfail⟩
    · rintro before k' after rfl hbefore hfail
      exact h.first (k :: before) k' after rfl (List.forall_mem_cons.mpr ⟨hpass, hbefore⟩) hfail
    · intro hrest
      exact h.none (List.forall_mem_cons.mpr ⟨hpass, hrest⟩)
  · rintro ⟨hpass, hfail⟩
    refine ⟨?_, ?_⟩
    · intro before k' after hsplit hbefore hfails
      cases before with
      | nil =>
        obtain ⟨rfl, rfl⟩ := List.cons.inj hsplit
        exact hfail hfails
      | cons c before =>
        obtain ⟨rfl, rfl⟩ := List.cons.inj hsplit
        obtain ⟨hc, hbefore⟩ := List.forall_mem_cons.mp hbefore
        exact (hpass hc).first before k' after rfl hbefore hfails
    · intro hall
      obtain ⟨hk, hrest⟩ := List.forall_mem_cons.mp hall
      exact (hpass hk).none hrest

/-- The same checks decide whatever follows from the two ends. -/
theorem mono (h : DecidedBy checks refused done) (hrefused : ∀ why, refused why → refused' why)
    (hdone : done → done') : DecidedBy checks refused' done' where
  first before k after hsplit hbefore hfail :=
    have ⟨why, hwhy, hended⟩ := h.first before k after hsplit hbefore hfail
    ⟨why, hwhy, hrefused why hended⟩
  none hall := hdone (h.none hall)

/-- Unless all checks pass, one of them refuses the request. -/
theorem exists_refused (h : DecidedBy checks refused done) (hfail : ¬∀ k ∈ checks, k.passes) :
    ∃ k ∈ checks, ∃ why, k.refuses why ∧ refused why := by
  induction checks with
  | nil => exact absurd nofun hfail
  | cons k rest ih =>
    obtain ⟨hpass, hfirst⟩ := cons_iff.mp h
    by_cases hk : k.passes
    · obtain ⟨k', hmem, hrefused⟩ := ih (hpass hk) fun hrest =>
        hfail (List.forall_mem_cons.mpr ⟨hk, hrest⟩)
      exact ⟨k', List.mem_cons_of_mem k hmem, hrefused⟩
    · exact ⟨k, List.mem_cons_self, hfirst hk⟩

/-- Whatever the checks are, a request that they decide is refused or carried out. -/
theorem refused_or_done (h : DecidedBy checks refused done) : (∃ why, refused why) ∨ done := by
  by_cases hall : ∀ k ∈ checks, k.passes
  · exact Or.inr (h.none hall)
  · obtain ⟨_, _, why, _, hrefused⟩ := h.exists_refused hall
    exact Or.inl ⟨why, hrefused⟩

end DecidedBy

/-- The checks decide whether a result is a value or a refusal. -/
def DecidesResult {α : Type} (checks : List Check) (result : Except Fault α) : Prop :=
  DecidedBy checks (fun why => result = .error (.rejected why)) (∃ a, result = .ok a)

namespace DecidesResult

variable {α β : Type} {checks rest : List Check} {k k' : Check} {result first : Except Fault α}
  {next : α → Except Fault β}

/-- A value is decided on by no check at all. -/
theorem ok (a : α) : DecidesResult [] (.ok a : Except Fault α) :=
  .nil ⟨a, rfl⟩

/-- A single check decides a result that is refused exactly where it does not hold. -/
theorem single (hpass : k.passes → ∃ a, result = .ok a)
    (hfail : ¬k.passes → ∃ why, k.refuses why ∧ result = .error (.rejected why)) :
    DecidesResult [k] result :=
  DecidedBy.cons_iff.mpr ⟨fun h => .nil (hpass h), hfail⟩

/-- A check may be replaced by one that holds in the same cases. -/
theorem congr (h : DecidesResult [k] result) (hiff : k'.passes ↔ k.passes)
    (hrefuses : ∀ why, k.refuses why → k'.refuses why) : DecidesResult [k'] result := by
  obtain ⟨hpass, hfail⟩ := DecidedBy.cons_iff.mp h
  refine single (fun h' => (hpass (hiff.mp h')).none nofun) (fun h' => ?_)
  obtain ⟨why, hwhy, hended⟩ := hfail (mt hiff.mpr h')
  exact ⟨why, hrefuses why hwhy, hended⟩

/-- Of two results one after the other, the second is decided by the checks that come after those of
the first. -/
theorem bind (hfirst : DecidesResult checks first)
    (hnext : ∀ a, first = .ok a → DecidesResult rest (next a)) :
    DecidesResult (checks ++ rest) (first >>= next) := by
  induction checks with
  | nil =>
    obtain ⟨a, rfl⟩ := hfirst.none nofun
    exact hnext a rfl
  | cons k checks ih =>
    obtain ⟨hpass, hfail⟩ := DecidedBy.cons_iff.mp hfirst
    refine DecidedBy.cons_iff.mpr ⟨fun hk => ih (hpass hk), fun hk => ?_⟩
    obtain ⟨why, hwhy, hended⟩ := hfail hk
    exact ⟨why, hwhy, Except.bind_eq_error_iff.mpr (Or.inl hended)⟩

/-- The first result has one check, the second one the others. -/
theorem bind_cons (hfirst : DecidesResult [k] first)
    (hnext : ∀ a, first = .ok a → DecidesResult rest (next a)) :
    DecidesResult (k :: rest) (first >>= next) :=
  hfirst.bind hnext

/-- A demand is a check of its condition. -/
theorem demand {condition : Prop} [Decidable condition] {why : Rejection}
    (hiff : k.passes ↔ condition) (hwhy : ¬condition → k.refuses why) :
    DecidesResult [k] (TokenBridge.demand condition why) := by
  refine single (fun hpass => ⟨(), demand_eq_ok_iff.mpr (hiff.mp hpass)⟩) (fun hfail => ?_)
  exact ⟨why, hwhy (mt hiff.mpr hfail), demand_eq_error_iff.mpr ⟨mt hiff.mpr hfail, rfl⟩⟩

theorem demand_bind {condition : Prop} [Decidable condition] {why : Rejection}
    {next : Unit → Except Fault β} (hiff : k.passes ↔ condition)
    (hwhy : ¬condition → k.refuses why) (hnext : condition → DecidesResult rest (next ())) :
    DecidesResult (k :: rest) (TokenBridge.demand condition why >>= next) :=
  (demand hiff hwhy).bind fun _ h => hnext (demand_eq_ok_iff.mp h)

end DecidesResult

/-! ### What every movement asks for -/

/-- An epoch can be charged with an amount exactly if the limit holds what has moved and the
amount. -/
theorem Quota.exists_take?_iff {q : Quota} {amount : Amount} :
    (∃ charged, q.take? amount = some charged) ↔
      q.used.toNat + amount.toNat ≤ q.terms.limit.toNat := by
  constructor
  · rintro ⟨charged, htaken⟩
    obtain ⟨hused, hle, _⟩ := take?_eq_some_iff.mp htaken
    rw [← hused]
    exact hle
  · intro hle
    have hsum := Nat.lt_of_le_of_lt hle q.terms.limit.toNat_lt
    exact ⟨{ q with used := ⟨_, hsum⟩ }, take?_eq_some_iff.mpr ⟨rfl, hle, rfl⟩⟩

namespace Store

variable {s : Store} {subsystem : Subsystem} {flow : Flow} {token : Address} {amount : Amount}
  {now : Timestamp} {after : Option Quota}

/-- The subsystem is not paused. -/
def activeCheck (s : Store) (subsystem : Subsystem) : Check where
  passes := ∃ pauses, s.pauses = some pauses ∧ pauses.holds subsystem = false
  refuses why := why = .paused subsystem

theorem activeCheck_decides (hpauses : ∃ pauses, s.pauses = some pauses) :
    DecidesResult [s.activeCheck subsystem] (s.requireActive subsystem) := by
  obtain ⟨pauses, hpauses⟩ := hpauses
  rw [requireActive, getPauses, hpauses]
  refine .demand ?_ fun _ => rfl
  simp [activeCheck, hpauses]

/-- The address is valid. -/
def addressCheck [AddressRules] (address : Address) (refusal : HostError → Rejection) : Check where
  passes := Address.fault? address = none
  refuses why := ∃ fault, Address.fault? address = some fault ∧ why = refusal (.badAddress fault)

theorem addressCheck_decides [AddressRules] (address : Address) (refusal : HostError → Rejection) :
    DecidesResult [addressCheck address refusal]
      ((Address.validate address).mapError (.rejected <| refusal ·)) := by
  unfold Address.validate
  cases hfault : Address.fault? address with
  | none => exact .single (fun _ => ⟨_, rfl⟩) fun hfail => (hfail hfault).elim
  | some fault =>
    refine .single (fun hpass => ?_) fun _ => ⟨_, ⟨fault, hfault, rfl⟩, rfl⟩
    rw [addressCheck, hfault] at hpass
    cases hpass

/-- The quota of the flow, as of now, holds the amount. A flow without a quota is not capped. -/
def quotaCheck (s : Store) (flow : Flow) (token : Address) (amount : Amount) (now : Timestamp) :
    Check where
  passes := ∀ q, s.quota? flow token = some q →
    ∃ rolled, q.rolled? now = some rolled ∧
      rolled.used.toNat + amount.toNat ≤ rolled.terms.limit.toNat
  refuses why := ∃ q rolled, s.quota? flow token = some q ∧ q.rolled? now = some rolled ∧
    why = .overLimit rolled.terms.limit rolled.used amount

/-- What the quota of a flow is after an amount was charged to it. -/
def Charged (s : Store) (flow : Flow) (token : Address) (amount : Amount) (now : Timestamp)
    (after : Option Quota) : Prop :=
  (s.quota? flow token = none ∧ after = none) ∨
    ∃ q rolled used, s.quota? flow token = some q ∧ q.rolled? now = some rolled ∧
      used.toNat = rolled.used.toNat + amount.toNat ∧ after = some { rolled with used }

theorem charged_of_reserved (h : s.reserved flow token amount now = .ok after) :
    s.Charged flow token amount now after := by
  rcases reserved_eq_ok_iff.mp h with hnone | ⟨q, rolled, charged, hq, hrolled, htaken, rfl⟩
  · exact Or.inl hnone
  · obtain ⟨hused, _, hcharged⟩ := Quota.take?_eq_some_iff.mp htaken
    exact Or.inr ⟨q, rolled, charged.used, hq, hrolled, hused, congrArg some hcharged⟩

/-- A movement is charged to the quota as of now, or refused. -/
theorem reserved_of_rolled? {q rolled : Quota} (hq : s.quota? flow token = some q)
    (hrolled : q.rolled? now = some rolled) :
    s.reserved flow token amount now = match rolled.take? amount with
      | some after => .ok (some after)
      | none => .error (.rejected (.overLimit rolled.terms.limit rolled.used amount)) := by
  simp only [reserved, quotaAt, hq, hrolled, orAbort]
  rfl

theorem quotaCheck_decides (hquotas : s.SoundQuotas) :
    DecidesResult [s.quotaCheck flow token amount now] (s.reserved flow token amount now) := by
  cases hq : s.quota? flow token with
  | none =>
    have hfree : s.reserved flow token amount now = .ok none :=
      reserved_eq_ok_iff.mpr (Or.inl ⟨hq, rfl⟩)
    refine .single (fun _ => ⟨none, hfree⟩) (fun hfail => (hfail ?_).elim)
    intro q hsome
    rw [hq] at hsome
    cases hsome
  | some q =>
    obtain ⟨rolled, hrolled⟩ := (hquotas flow token q hq).exists_rolled now
    have hiff : (s.quotaCheck flow token amount now).passes ↔
        rolled.used.toNat + amount.toNat ≤ rolled.terms.limit.toNat := by
      simp [quotaCheck, hq, hrolled]
    rw [reserved_of_rolled? hq hrolled]
    refine .single (fun hpass => ?_) (fun hfail => ⟨_, ⟨q, rolled, hq, hrolled, rfl⟩, ?_⟩)
    · obtain ⟨charged, htaken⟩ := Quota.exists_take?_iff.mpr (hiff.mp hpass)
      rw [htaken]
      exact ⟨some charged, rfl⟩
    · cases htaken : rolled.take? amount with
      | none => rfl
      | some charged => exact absurd (hiff.mpr (Quota.exists_take?_iff.mp ⟨charged, htaken⟩)) hfail

end Store

end TokenBridge
