import TokenBridge.Proofs.Rescheduling

/-!
# Who may do what

Every command but a deposit or a withdrawal needs a role, and is refused before anything else is
looked at if its sender does not hold it. So whatever is tried by senders without a role, they move
tokens and nothing more: who governs, what is committed and what is bound stay as they are, and so
do the caps on what they move. Their movements roll the quotas forward and may put waiting terms
into force, but no sooner and no other ones than the clock would have.
-/

namespace TokenBridge

variable {g : Genesis} {log : List Entry} {env : Env} {s t : Store} {flow : Flow} {token : Address}
  {now later : Timestamp}

/-- The roles of which the sender of a command needs one, the one that a refusal names first. Anyone
may move tokens. -/
def Command.roles : Command → List Role
  | deposit .. => []
  | receive .. => []
  | withdraw .. => []
  | commit .. => [.committer]
  | pause _ => [.pauser, .admin]
  | grantRole .. => [.admin]
  | revokeRole .. => [.admin]
  | unpause _ => [.admin]
  | bindAsset .. => [.admin]
  | setTerms .. => [.admin]
  | setFinalityDelay _ => [.admin]
  | setScheme _ => [.admin]

/-- A call that starts by looking at the role stops there for an account that does not hold it. -/
theorem Call.outcome_requireRole_bind {role : Role} {sender : Address} {next : Unit → Call α}
    (hnone : s.holdsRole role sender = false) :
    (Call.check (·.requireRole role sender) >>= next).outcome s =
      (.error (.rejected (.unauthorized role)), s) := by
  simp [outcome_bind, Store.requireRole, demand, hnone]

/-- A command is refused before all else if its sender holds none of the roles that it needs. -/
theorem Command.outcome_of_no_role [AddressRules] {command : Command} {sender : Address}
    {role : Role} (hrole : command.roles.head? = some role)
    (hnone : ∀ needed ∈ command.roles, s.holdsRole needed sender = false) :
    (command.run env sender).outcome s = (.error (.rejected (.unauthorized role)), s) := by
  cases command with
  | deposit | receive | withdraw => cases hrole
  | pause =>
    obtain rfl := Option.some.inj hrole
    have hpauser := hnone .pauser (by simp [roles])
    have hadmin := hnone .admin (by simp [roles])
    simp [run, TokenBridge.pause, Call.outcome_bind, Store.requireAnyRole, hpauser, hadmin]
  | _ =>
    obtain rfl := Option.some.inj hrole
    exact Call.outcome_requireRole_bind (hnone _ List.mem_cons_self)

namespace Store

/-- Everything that senders without a role leave as it is. -/
structure SameGovernance (s t : Store) : Prop where
  settings_eq : t.settings = s.settings
  pauses_eq : t.pauses = s.pauses
  roster_eq : t.roster = s.roster
  adminCount_eq : t.adminCount = s.adminCount
  commitments_eq : t.commitments = s.commitments
  lastHeight_eq : t.lastHeight = s.lastHeight
  bindings_eq : t.bindings = s.bindings
  assetTokens_eq : t.assetTokens = s.assetTokens
  version_eq : t.version = s.version

namespace SameGovernance

variable {u : Store}

theorem refl (s : Store) : s.SameGovernance s := ⟨rfl, rfl, rfl, rfl, rfl, rfl, rfl, rfl, rfl⟩

theorem trans (h : s.SameGovernance t) (h' : t.SameGovernance u) : s.SameGovernance u where
  settings_eq := h'.settings_eq.trans h.settings_eq
  pauses_eq := h'.pauses_eq.trans h.pauses_eq
  roster_eq := h'.roster_eq.trans h.roster_eq
  adminCount_eq := h'.adminCount_eq.trans h.adminCount_eq
  commitments_eq := h'.commitments_eq.trans h.commitments_eq
  lastHeight_eq := h'.lastHeight_eq.trans h.lastHeight_eq
  bindings_eq := h'.bindings_eq.trans h.bindings_eq
  assetTokens_eq := h'.assetTokens_eq.trans h.assetTokens_eq
  version_eq := h'.version_eq.trans h.version_eq

/-- The same accounts hold the roles. -/
theorem holdsRole_eq (h : s.SameGovernance t) (role : Role) (account : Address) :
    t.holdsRole role account = s.holdsRole role account := by
  unfold holdsRole
  rw [h.roster_eq]

end SameGovernance

end Store

/-- A step by a sender without a role governs nothing and sets no terms. -/
theorem Step.sameGovernance [AddressRules] {sender : Address} {command : Command}
    {receipt : Receipt} (hstep : Step env s (.command sender command) receipt t)
    (hnone : ∀ role, s.holdsRole role sender = false) :
    s.SameGovernance t ∧ ∀ flow token,
      Entry.termsSet? flow token ⟨env, .command sender command, .ok receipt, t⟩ = none := by
  cases hstep with
  | deposit _ _ _ hrecord | receive _ _ _ hrecord =>
    obtain ⟨_, _, rfl⟩ := DepositOrder.store_of_record hrecord
    exact ⟨⟨rfl, rfl, rfl, rfl, rfl, rfl, rfl, rfl, rfl⟩, fun _ _ => rfl⟩
  | withdraw => exact ⟨⟨rfl, rfl, rfl, rfl, rfl, rfl, rfl, rfl, rfl⟩, fun _ _ => rfl⟩
  | pause hrole => simp [Store.requireAnyRole, hnone] at hrole
  | _ hrole =>
    rw [hnone] at hrole
    cases hrole

namespace Quota

variable {q r a : Quota}

/-- Two quotas differ at most in what has moved in the open epoch. -/
structure SameButUsed (q r : Quota) : Prop extends q.SameEpoch r where
  pending_eq : q.pending = r.pending

theorem SameButUsed.trans {u : Quota} (h : q.SameButUsed r) (h' : r.SameButUsed u) :
    q.SameButUsed u :=
  ⟨h.toSameEpoch.trans h'.toSameEpoch, h.pending_eq.trans h'.pending_eq⟩

/-- What has moved is forgotten at the end of the epoch, and everything else goes on alike. -/
theorem SameButUsed.exists_rolled (h : q.SameButUsed r) (ha : q.rolled? later = some a) :
    ∃ b, r.rolled? later = some b ∧ a.SameButUsed b := by
  have hending := h.ending_eq
  by_cases hopen : later.seconds.toNat < q.ending
  · obtain rfl := eq_of_rolled?_of_lt hopen ha
    exact ⟨r, rolled?_of_lt (hending ▸ hopen), h⟩
  · have hended : q.ending ≤ later.seconds.toNat := Nat.le_of_not_lt hopen
    have hnext : q.nextTerms = r.nextTerms := by
      unfold nextTerms
      rw [h.pending_eq, h.terms_eq]
    have hpassed : q.passed later = r.passed later := by
      unfold passed
      rw [hending, hnext]
    refine ⟨a, ?_, ⟨.refl a, rfl⟩⟩
    rw [rolled?_eq_some_iff_of_le hended] at ha
    rw [rolled?_eq_some_iff_of_le (hending ▸ hended), ← hending, ← hnext, ← hpassed,
      ← h.epoch_eq]
    exact ha

/-- As of a time, two quotas differ at most in what has moved. -/
def AgreeAt (later : Timestamp) (q r : Quota) : Prop :=
  ∃ a b, q.rolled? later = some a ∧ r.rolled? later = some b ∧ a.SameButUsed b

theorem Sound.agreeAt (h : q.Sound) (later : Timestamp) : AgreeAt later q q := by
  obtain ⟨a, ha⟩ := h.exists_rolled later
  exact ⟨a, a, ha, ha, .refl a, rfl⟩

theorem AgreeAt.trans {u : Quota} (h : AgreeAt later q r) (h' : AgreeAt later r u) :
    AgreeAt later q u := by
  obtain ⟨a, b, ha, hb, hab⟩ := h
  obtain ⟨b', c, hb', hc, hbc⟩ := h'
  obtain rfl := Option.some.inj (hb.symm.trans hb')
  exact ⟨a, c, ha, hc, hab.trans hbc⟩

end Quota

/-- A change that sets no terms shows at no later time, but for what has moved. -/
theorem QuotaStep.agreeAt {quota after : Option Quota} {charge : Option Charge}
    (hstep : QuotaStep now quota charge none after) (hsound : ∀ q, quota = some q → q.Sound)
    (hle : now.nanos ≤ later.nanos) : Option.Rel (Quota.AgreeAt later) quota after := by
  cases hstep with
  | keep =>
    cases quota with
    | none => exact .none
    | some q => exact .some ((hsound q rfl).agreeAt later)
  | @charged q rolled charged _ hrolled htaken =>
    obtain ⟨a, ha⟩ := (hsound q rfl).exists_rolled later
    have hseconds := Timestamp.seconds_le_of_nanos_le hle
    have hlater := Quota.rolled?_eq_of_rolled? hrolled hseconds ha
    obtain ⟨_, _, hafter⟩ := Quota.take?_eq_some_iff.mp htaken
    have hsame : rolled.SameButUsed charged := by
      rw [hafter]
      exact ⟨⟨rfl, rfl, rfl⟩, rfl⟩
    obtain ⟨b, hb, hab⟩ := hsame.exists_rolled hlater
    exact .some ⟨a, b, ha, hb, hab⟩

/-- As of a time, the same flows are capped in both stores, by quotas that differ at most in what
has moved. -/
def Store.SameCaps (later : Timestamp) (s t : Store) : Prop :=
  ∀ flow token, Option.Rel (Quota.AgreeAt later) (s.quota? flow token) (t.quota? flow token)

namespace Store.SameCaps

variable {u : Store}

theorem trans (h : SameCaps later s t) (h' : SameCaps later t u) : SameCaps later s u := by
  intro flow token
  have hfirst := h flow token
  have hsecond := h' flow token
  generalize s.quota? flow token = q, t.quota? flow token = r, u.quota? flow token = v
    at hfirst hsecond ⊢
  cases hfirst with
  | none => exact hsecond
  | some hqr =>
    cases hsecond with
    | some hru => exact .some (hqr.trans hru)

/-- No cap is set up and none is given up. -/
theorem isSome_eq (h : SameCaps later s t) (flow : Flow) (token : Address) :
    (t.quota? flow token).isSome = (s.quota? flow token).isSome := by
  have hrel := h flow token
  generalize s.quota? flow token = q, t.quota? flow token = r at hrel
  cases hrel with
  | some _ => rfl
  | none => rfl

end Store.SameCaps

/-- A command, who sends it, and the block in which it is sent. -/
structure Sent where
  env : Env
  sender : Address
  command : Command

/-- The request that is made in the block. -/
def Sent.request (c : Sent) : Env × Request := (c.env, .command c.sender c.command)

/-- Nobody who sends one of the commands holds a role. -/
def Store.Strangers (s : Store) (calls : List Sent) : Prop :=
  ∀ c ∈ calls, ∀ role, s.holdsRole role c.sender = false

/-- What strangers send after a change that left the roster as it is comes from strangers still. -/
theorem Store.Strangers.tail {c : Sent} {rest : List Sent} (h : s.Strangers (c :: rest))
    (hsame : s.SameGovernance t) : t.Strangers rest := by
  intro c' hc' role
  rw [hsame.holdsRole_eq]
  exact h c' (List.mem_cons_of_mem c hc') role

namespace Run

variable [AddressRules]

/-- In every run, the quotas can be looked at as of every time. -/
theorem sameCaps (h : Run g log s) (later : Timestamp) : s.SameCaps later s := by
  intro flow token
  exact (QuotaStep.keep _).agreeAt (h.quota_sound flow token) (UInt64.le_refl later.nanos)

/-- In every run, a command of a sender without a role changes nothing but what moves. -/
theorem unchanged_of_transact {sender : Address} {command : Command} {result : Except Fault Receipt}
    (h : Run g log s) (hnone : ∀ role, s.holdsRole role sender = false)
    (hended : ((Request.command sender command).run env).transact s = (result, t)) :
    s.SameGovernance t ∧ ∀ later : Timestamp, env.now.nanos ≤ later.nanos →
      s.SameCaps later t := by
  cases result with
  | error reason =>
    obtain rfl := Call.store_of_transact_error hended
    exact ⟨.refl t, fun later _ => h.sameCaps later⟩
  | ok receipt =>
    have hstep := Step.of_yields rfl (Call.transact_eq_ok_iff.mp hended)
    obtain ⟨hgovernance, hterms⟩ := hstep.sameGovernance hnone
    refine ⟨hgovernance, ?_⟩
    intro later hle flow token
    have hchange := hstep.quotaStep flow token
    rw [hterms] at hchange
    exact hchange.agreeAt (h.quota_sound flow token) hle

/-- In every run, whatever is sent by senders without a role changes nothing but what moves. -/
theorem unchanged_of_strangers (h : Run g log s) (calls : List Sent) (hnone : s.Strangers calls) :
    s.SameGovernance (s.play (calls.map Sent.request)).2 ∧
      ∀ later : Timestamp, (∀ c ∈ calls, c.env.now.nanos ≤ later.nanos) →
        s.SameCaps later (s.play (calls.map Sent.request)).2 := by
  induction calls generalizing log s with
  | nil => exact ⟨.refl s, fun later _ => h.sameCaps later⟩
  | cons c rest ih =>
    let ended := ((Request.command c.sender c.command).run c.env).transact s
    have hended : ((Request.command c.sender c.command).run c.env).transact s =
        (ended.1, ended.2) := rfl
    have hsender := hnone c List.mem_cons_self
    obtain ⟨hgovernance, hcaps⟩ := h.unchanged_of_transact hsender hended
    have hnext := h.snoc c.env (.command c.sender c.command) rfl
    obtain ⟨hgovernance', hcaps'⟩ := ih hnext (hnone.tail hgovernance)
    refine ⟨hgovernance.trans hgovernance', ?_⟩
    intro later hle
    have hfirst := hcaps later (hle c List.mem_cons_self)
    have hrest := hcaps' later fun c' hc' => hle c' (List.mem_cons_of_mem c hc')
    exact hfirst.trans hrest

end Run

/-- Senders without a role cannot get at anything that takes one. -/
structure Store.Guarded [AddressRules] (s : Store) : Prop where
  /-- A command is refused before all else to senders who hold none of the roles that it needs. -/
  refused : ∀ env sender (command : Command) role, command.roles.head? = some role →
    (∀ needed ∈ command.roles, s.holdsRole needed sender = false) →
    (command.run env sender).outcome s = (.error (.rejected (.unauthorized role)), s)
  /-- Whatever is sent by senders who hold no role at all, everything governed stays as it is. -/
  governance : ∀ calls, s.Strangers calls →
    s.SameGovernance (s.play (calls.map Sent.request)).2
  /-- They set up no cap and give none up. -/
  capped : ∀ calls, s.Strangers calls → ∀ flow token,
    ((s.play (calls.map Sent.request)).2.quota? flow token).isSome = (s.quota? flow token).isSome
  /-- As of any time not before one of their blocks, caps differ at most in what has moved. -/
  caps : ∀ calls, s.Strangers calls → ∀ later : Timestamp,
    (∀ c ∈ calls, c.env.now.nanos ≤ later.nanos) →
    s.SameCaps later (s.play (calls.map Sent.request)).2

/-- In every run, senders without a role can move tokens and nothing else. -/
theorem Run.guarded [AddressRules] (h : Run g log s) : s.Guarded where
  refused _ _ _ _ hrole hnone := Command.outcome_of_no_role hrole hnone
  governance calls hnone := (h.unchanged_of_strangers calls hnone).1
  capped calls hnone := by
    -- No block is after the last point in time that can be counted.
    have hover : ∀ c ∈ calls,
        c.env.now.nanos ≤ (Timestamp.mk (.ofNat (UInt64.size - 1))).nanos := by
      intro c _
      rw [UInt64.le_iff_toNat_le, UInt64.toNat_ofNat_of_lt' (by decide)]
      exact Nat.le_pred_of_lt c.env.now.nanos.toNat_lt
    exact ((h.unchanged_of_strangers calls hnone).2 _ hover).isSome_eq
  caps calls hnone := (h.unchanged_of_strangers calls hnone).2

namespace Sample

/-- A block after the end of the epoch in which the cap of the sample was set. -/
def nextMinute : Env := { Sample.env with now := ⟨100000000000⟩ }

/-- Bob, who holds no role, tries to govern, and Alice makes a deposit. -/
def intrusions : List Sent := [
  ⟨Sample.env, "bob", .grantRole .admin "bob"⟩,
  ⟨Sample.env, "bob", .pause .deposits⟩,
  ⟨nextMinute, "alice", .deposit "cash" ⟨11, by decide⟩ Word256.zero.toHex⟩,
  ⟨nextMinute, "bob", .setTerms "cash" .deposit lower⟩]

/-- The log of what they send, and the store in the end. -/
def intruded : List Entry × Store := capped.2.play (intrusions.map Sent.request)

end Sample

/-- The deposit starts an epoch of the cap that was set, and nothing else succeeds. -/
theorem Run.guarded_sample :
    Run Sample.genesis Sample.capped.1 Sample.capped.2 ∧ Sample.capped.2.Guarded ∧
      Sample.capped.2.Strangers Sample.intrusions ∧
      Sample.intruded.1.map (·.result.isOk) = [false, false, true, false] ∧
      Sample.intruded.2.quota? .deposit "cash" =
        some { Sample.cap with epoch := 1, start := ⟨61000000000⟩, used := ⟨11, by decide⟩ } := by
  refine ⟨Sample.run_capped, Sample.run_capped.guarded, ?_, by decide +kernel, by decide +kernel⟩
  have hnobody : ∀ role ∈ [Role.admin, .committer, .pauser],
      Sample.capped.2.holdsRole role "bob" = false ∧
        Sample.capped.2.holdsRole role "alice" = false := by decide +kernel
  intro c hc role
  obtain ⟨hbob, halice⟩ := hnobody role (by cases role <;> decide)
  have hsender : c.sender = "bob" ∨ c.sender = "alice" := by
    simp only [Sample.intrusions, List.mem_cons, List.not_mem_nil, or_false] at hc
    rcases hc with rfl | rfl | rfl | rfl
    · exact Or.inl rfl
    · exact Or.inl rfl
    · exact Or.inr rfl
    · exact Or.inl rfl
  rcases hsender with hname | hname
  · rw [hname, hbob]
  · rw [hname, halice]

end TokenBridge
