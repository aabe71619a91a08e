import Mathlib.Data.Set.Card
import TokenBridge.Proofs.Faults
import TokenBridge.Proofs.Run

/-!
# Who holds a role

A role is held by a set of accounts, to which giving the role adds one account and from which taking
it removes one. The admins are counted beside the roster, and the count decides whether an admin may
go. It is at all times the number of admins, so one of them always remains.
-/

namespace TokenBridge

variable {g : Genesis} {log : List Entry} {env : Env} {s t : Store} {role : Role}
  {account : Address} {changed : Bool} {fault : Fault}

namespace Store

/-- The accounts that hold a role. -/
def holders (s : Store) (role : Role) : Set Address := {account | s.holdsRole role account = true}

theorem finite_holders (s : Store) (role : Role) : (s.holders role).Finite := by
  refine (List.finite_toSet (s.roster.holders role).toList).subset ?_
  intro account haccount
  exact Std.ExtTreeSet.mem_toList.mpr (Std.ExtTreeSet.contains_iff_mem.mp haccount)

theorem not_mem_holders_iff : account ∉ s.holders role ↔ s.holdsRole role account = false :=
  Bool.not_eq_true _ ▸ Iff.rfl

theorem holders_of_empty (h : s.roster = .empty) (role : Role) : s.holders role = ∅ := by
  ext account
  cases role <;> simp [holders, holdsRole, h, Roster.holds, Roster.empty, Roster.holders]

/-- Giving a role adds one account to its holders. -/
theorem holders_add (s : Store) (role : Role) (account : Address) (adminCount : Option UInt32)
    (other : Role) :
    holders { s with roster := s.roster.add role account, adminCount } other =
      if other = role then insert account (s.holders other) else s.holders other := by
  ext holder
  by_cases hrole : other = role
  · subst hrole
    simp [holders, holdsRole, Roster.holds_add, eq_comm (a := holder)]
  · simp [holders, holdsRole, Roster.holds_add, hrole, Ne.symm hrole]

/-- Taking a role removes one account from its holders. -/
theorem holders_remove (s : Store) (role : Role) (account : Address) (adminCount : Option UInt32)
    (other : Role) :
    holders { s with roster := s.roster.remove role account, adminCount } other =
      if other = role then s.holders other \ {account} else s.holders other := by
  ext holder
  by_cases hrole : other = role
  · subst hrole
    simp [holders, holdsRole, Roster.holds_remove, eq_comm (a := holder), and_comm]
  · simp [holders, holdsRole, Roster.holds_remove, hrole, Ne.symm hrole]

end Store

namespace Call

/-- Giving a role to an account that holds it changes nothing. -/
theorem outcome_grant_of_holds (hheld : s.holdsRole role account = true) :
    (grant role account).outcome s = (.ok false, s) := by
  simp [-bind_pure_comp, grant, outcome_bind, hheld]

/-- A role other than that of an admin is given at once. -/
theorem outcome_grant_of_ne (hheld : s.holdsRole role account = false) (hrole : role ≠ .admin) :
    (grant role account).outcome s =
      (.ok true, { s with roster := s.roster.add role account }) := by
  simp [-bind_pure_comp, grant, outcome_bind, hheld, hrole]

/-- A new admin is counted, unless the count leaves its range. -/
theorem outcome_grant_admin {count : UInt32} (hheld : s.holdsRole .admin account = false)
    (hcount : s.adminCount = some count) :
    (grant .admin account).outcome s =
      match add32? count 1 with
      | some more =>
        (.ok true, { s with roster := s.roster.add .admin account, adminCount := some more })
      | none => (.error .aborted, { s with roster := s.roster.add .admin account }) := by
  cases hmore : add32? count 1 with
  | none =>
    simp [-bind_pure_comp, grant, outcome_bind, hheld, hcount, hmore, Store.getAdminCount,
      Store.present, orAbort]
  | some more =>
    simp [-bind_pure_comp, grant, outcome_bind, hheld, hcount, hmore, Store.getAdminCount,
      Store.present, orAbort]

/-- Taking a role from an account that does not hold it changes nothing. -/
theorem outcome_revoke_of_not_holds (hheld : s.holdsRole role account = false) :
    (revoke role account).outcome s = (.ok false, s) := by
  simp [-bind_pure_comp, revoke, outcome_bind, hheld]

/-- A role other than that of an admin is taken at once. -/
theorem outcome_revoke_of_ne (hheld : s.holdsRole role account = true) (hrole : role ≠ .admin) :
    (revoke role account).outcome s =
      (.ok true, { s with roster := s.roster.remove role account }) := by
  simp [-bind_pure_comp, revoke, outcome_bind, hheld, hrole]

/-- An admin goes if there are more than one. -/
theorem outcome_revoke_admin {count : UInt32} (hheld : s.holdsRole .admin account = true)
    (hcount : s.adminCount = some count) :
    (revoke .admin account).outcome s =
      if 1 < count then
        (.ok true,
          { s with roster := s.roster.remove .admin account, adminCount := some (count - 1) })
      else (.error (.rejected .lastAdmin), s) := by
  by_cases hmore : 1 < count
  · simp [-bind_pure_comp, revoke, outcome_bind, hheld, hcount, hmore, Store.getAdminCount,
      Store.present, demand]
  · simp [-bind_pure_comp, revoke, outcome_bind, hheld, hcount, hmore, Store.getAdminCount,
      Store.present, demand]

end Call

/-- The number that is kept of the admins is how many there are. -/
def Store.CountsAdmins (s : Store) : Prop :=
  ∃ count, s.adminCount = some count ∧ (s.holders .admin).ncard = count.toNat

namespace Store.CountsAdmins

/-- Where nobody holds a role, no admin is counted. -/
theorem of_empty (hroster : s.roster = .empty) (hcount : s.adminCount = some 0) :
    s.CountsAdmins := by
  refine ⟨0, hcount, ?_⟩
  rw [holders_of_empty hroster, Set.ncard_empty]
  rfl

/-- Giving a role adds one account to its holders and keeps the count right. -/
theorem grant (h : s.CountsAdmins) (hgrant : (Call.grant role account).Yields s changed t) :
    t.CountsAdmins ∧ ∀ other, t.holders other =
      if other = role then insert account (s.holders other) else s.holders other := by
  obtain ⟨count, hcount, hcard⟩ := h
  cases hheld : s.holdsRole role account with
  | true =>
    rw [Call.Yields, Call.outcome_grant_of_holds hheld] at hgrant
    obtain rfl := (Prod.mk.inj hgrant).2
    have hmem : account ∈ s.holders role := hheld
    refine ⟨⟨count, hcount, hcard⟩, ?_⟩
    intro other
    split
    · next hother => rw [hother, Set.insert_eq_of_mem hmem]
    · rfl
  | false =>
    have hfresh := not_mem_holders_iff.mpr hheld
    by_cases hrole : role = .admin
    · subst hrole
      rw [Call.Yields, Call.outcome_grant_admin hheld hcount] at hgrant
      split at hgrant
      · next more hmore =>
        obtain rfl := (Prod.mk.inj hgrant).2
        have hholders := s.holders_add .admin account (some more)
        refine ⟨⟨more, rfl, ?_⟩, hholders⟩
        rw [hholders, if_pos rfl, Set.ncard_insert_of_notMem hfresh (s.finite_holders .admin),
          hcard, add32?_eq_some_iff.mp hmore]
        rfl
      · cases hgrant
    · rw [Call.Yields, Call.outcome_grant_of_ne hheld hrole] at hgrant
      obtain rfl := (Prod.mk.inj hgrant).2
      have hholders := s.holders_add role account s.adminCount
      refine ⟨⟨count, hcount, ?_⟩, hholders⟩
      rw [hholders, if_neg (Ne.symm hrole), hcard]

/-- Taking a role removes one account from its holders, keeps the count right and leaves an admin
where there was one. -/
theorem revoke (h : s.CountsAdmins) (hrevoke : (Call.revoke role account).Yields s changed t) :
    t.CountsAdmins ∧ (∀ other, t.holders other =
      if other = role then s.holders other \ {account} else s.holders other) ∧
      ((s.holders .admin).Nonempty → (t.holders .admin).Nonempty) := by
  obtain ⟨count, hcount, hcard⟩ := h
  cases hheld : s.holdsRole role account with
  | false =>
    have habsent := not_mem_holders_iff.mpr hheld
    rw [Call.Yields, Call.outcome_revoke_of_not_holds hheld] at hrevoke
    obtain rfl := (Prod.mk.inj hrevoke).2
    refine ⟨⟨count, hcount, hcard⟩, ?_, id⟩
    intro other
    split
    · next hother => rw [hother, Set.sdiff_singleton_eq_self habsent]
    · rfl
  | true =>
    have hmem : account ∈ s.holders role := hheld
    by_cases hrole : role = .admin
    · subst hrole
      rw [Call.Yields, Call.outcome_revoke_admin hheld hcount] at hrevoke
      split at hrevoke
      · next hmore =>
        obtain rfl := (Prod.mk.inj hrevoke).2
        have hmore' : 1 < count.toNat := UInt32.lt_iff_toNat_lt.mp hmore
        have hholders := s.holders_remove .admin account (some (count - 1))
        have hless : (Store.holders { s with
            roster := s.roster.remove .admin account, adminCount := some (count - 1) }
            .admin).ncard = count.toNat - 1 := by
          rw [hholders, if_pos rfl, Set.ncard_sdiff_singleton_of_mem hmem, hcard]
        refine ⟨⟨count - 1, rfl, ?_⟩, hholders, fun _ => ?_⟩
        · rw [hless, UInt32.toNat_sub_of_le _ _ (UInt32.le_of_lt hmore)]
          rfl
        · exact Set.nonempty_of_ncard_ne_zero (by omega)
      · cases hrevoke
    · rw [Call.Yields, Call.outcome_revoke_of_ne hheld hrole] at hrevoke
      obtain rfl := (Prod.mk.inj hrevoke).2
      have hholders := s.holders_remove role account s.adminCount
      have hsame := hholders .admin
      rw [if_neg (Ne.symm hrole)] at hsame
      refine ⟨⟨count, hcount, ?_⟩, hholders, fun hadmin => ?_⟩
      · rw [hsame, hcard]
      · rw [hsame]
        exact hadmin

end Store.CountsAdmins

/-- Giving a role to several accounts adds them to its holders and keeps the count right. -/
theorem Store.CountsAdmins.grantAll [AddressRules] {accounts : List Address} {u : Unit}
    (h : s.CountsAdmins) (hgrant : (TokenBridge.grantAll role accounts).Yields s u t) :
    t.CountsAdmins ∧ ∀ other, t.holders other =
      if other = role then s.holders other ∪ {account | account ∈ accounts}
      else s.holders other := by
  induction accounts generalizing s with
  | nil =>
    obtain ⟨_, rfl⟩ := Call.yields_pure_iff.mp hgrant
    exact ⟨h, fun other => by simp⟩
  | cons account rest ih =>
    simp only [TokenBridge.grantAll, Call.yields_lift_bind_iff] at hgrant
    obtain ⟨_, hvalid, hgrant⟩ := hgrant
    obtain rfl := eq_of_requireValid hvalid
    obtain ⟨_, m, hfirst, hrest⟩ := Call.yields_bind_iff.mp hgrant
    obtain ⟨hcounts, hholders⟩ := h.grant hfirst
    obtain ⟨hcounts', hholders'⟩ := ih hcounts hrest
    refine ⟨hcounts', ?_⟩
    intro other
    rw [hholders', hholders]
    split
    · ext holder
      simp only [Set.mem_union, Set.mem_insert_iff, Set.mem_ofPred_eq, List.mem_cons]
      tauto
    · rfl

/-- The accounts that are to hold a role from the founding on. -/
def Genesis.holders (g : Genesis) : Role → List Address
  | .admin => g.admins
  | .committer => g.committers
  | .pauser => g.pausers

/-- Founding gives each role to the accounts of its list, and counts the admins. -/
theorem holders_of_found [AddressRules] {receipt : Receipt}
    (h : (found g).Yields .empty receipt s) :
    s.CountsAdmins ∧ g.admins ≠ [] ∧
      ∀ role, s.holders role = {account | account ∈ g.holders role} := by
  simp only [found, stamp, Call.yields_write_bind_iff, Call.yields_lift_bind_iff,
    demand_eq_ok_iff] at h
  obtain ⟨_, hsome, _, _, h⟩ := h
  obtain ⟨_, _, hadmins, h⟩ := Call.yields_bind_iff.mp h
  obtain ⟨_, _, hcommitters, h⟩ := Call.yields_bind_iff.mp h
  obtain ⟨_, t, hpausers, h⟩ := Call.yields_bind_iff.mp h
  obtain ⟨_, rfl⟩ := Call.yields_pure_iff.mp h
  obtain ⟨hcounts, hfirst⟩ := (Store.CountsAdmins.of_empty rfl rfl).grantAll hadmins
  obtain ⟨hcounts, hsecond⟩ := hcounts.grantAll hcommitters
  obtain ⟨hcounts, hthird⟩ := hcounts.grantAll hpausers
  have hholders : ∀ role, t.holders role = {account | account ∈ g.holders role} := by
    intro role
    have hnobody := Store.holders_of_empty (s := { Store.empty with
      settings := some g.settings, pauses := some .none, adminCount := some 0
      nextNonce := some 0, version := some ⟨Version.programName, Version.current.text⟩ }) rfl role
    rw [hthird, hsecond, hfirst, hnobody]
    cases role <;> simp [Genesis.holders]
  exact ⟨hcounts, hsome, hholders⟩

/-- The admins are counted, and there is one. -/
def Store.HasAdmin (s : Store) : Prop := s.CountsAdmins ∧ (s.holders .admin).Nonempty

/-- Every step leaves an admin where there was one. -/
theorem Step.hasAdmin [AddressRules] {request : Request} {receipt : Receipt}
    (hstep : Step env s request receipt t) (h : s.HasAdmin) : t.HasAdmin := by
  cases hstep with
  | deposit _ _ _ hrecord | receive _ _ _ hrecord =>
    obtain ⟨_, _, rfl⟩ := DepositOrder.store_of_record hrecord
    exact h
  | grantRole _ hgrant _ =>
    obtain ⟨hcounts, hholders⟩ := h.1.grant hgrant
    refine ⟨hcounts, ?_⟩
    rw [hholders]
    split
    · exact Set.insert_nonempty _ _
    · exact h.2
  | revokeRole _ hrevoke _ =>
    obtain ⟨hcounts, _, hleft⟩ := h.1.revoke hrevoke
    exact ⟨hcounts, hleft h.2⟩
  | _ => exact h

/-- In every run the admins are counted, and there is one. -/
theorem Run.hasAdmin [AddressRules] (h : Run g log s) : s.HasAdmin := by
  induction h using Run.rec_step with
  | found _ hfound =>
    obtain ⟨hcounts, hsome, hholders⟩ := holders_of_found hfound
    refine ⟨hcounts, ?_⟩
    rw [hholders]
    exact List.exists_mem_of_ne_nil g.admins hsome
  | fault _ _ _ _ _ ih => exact ih
  | step _ _ hstep ih => exact hstep.hasAdmin ih

/-- An admin's request to take a role from a valid address ends as the taking does. -/
theorem transact_revokeRole [AddressRules] {sender : Address}
    (hadmin : s.holdsRole .admin sender = true) (hvalid : account.validate = .ok account) :
    ((Request.command sender (.revokeRole role account)).run env).transact s =
      match (Call.revoke role account).outcome s with
      | (.ok changed, t) => (.ok (governed (roleEvent role account false changed)
          [("action", "revoke_role"), ("role", role.tag), ("address", account)]), t)
      | (.error fault, _) => (.error fault, s) := by
  have hrequired : requireValid account = .ok account := Except.mapError_eq_ok_iff.mpr hvalid
  unfold Call.transact
  simp only [Request.run, Command.run, revokeRole, Call.outcome_bind, Call.outcome_check,
    Call.outcome_lift, Store.requireRole, demand, hadmin, if_true, hrequired]
  rcases (Call.revoke role account).outcome s with ⟨_ | changed, t⟩
  · rfl
  · rfl

/-- The admins are counted, and there is at least one. An admin's request to remove an admin is
refused exactly if that is the only one, and otherwise removes nobody else. -/
structure Store.KeepsAdmin [AddressRules] (s : Store) : Prop where
  counted : ∃ count, s.adminCount = some count ∧ (s.holders .admin).ncard = count.toNat ∧
    1 ≤ count.toNat
  last_stays : ∀ env sender account, s.holdsRole .admin sender = true →
    Address.validate account = .ok account →
    ((((Request.command sender (.revokeRole .admin account)).run env).transact s).1 =
      .error (.rejected .lastAdmin) ↔ s.holders .admin = {account})
  other_goes : ∀ env sender account, s.holdsRole .admin sender = true →
    Address.validate account = .ok account → s.holders .admin ≠ {account} →
    ∃ receipt roster adminCount,
      ((Request.command sender (.revokeRole .admin account)).run env).transact s =
        (.ok receipt, { s with roster, adminCount }) ∧
      ∀ role, Store.holders { s with roster, adminCount } role =
        if role = .admin then s.holders role \ {account} else s.holders role

/-- Where the admins are counted, one is the only one if there are not more than one. -/
theorem Store.CountsAdmins.holders_eq_singleton_iff {count : UInt32} (h : s.CountsAdmins)
    (hcount : s.adminCount = some count) (hheld : s.holdsRole .admin account = true) :
    s.holders .admin = {account} ↔ ¬1 < count := by
  obtain ⟨_, hcount', hcard⟩ := h
  obtain rfl := Option.some.inj (hcount.symm.trans hcount')
  have hmem : account ∈ s.holders .admin := hheld
  have hpos := (Set.ncard_pos (s.finite_holders .admin)).mpr ⟨account, hmem⟩
  rw [UInt32.lt_iff_toNat_lt, ← hcard]
  constructor
  · intro hsingle
    rw [hsingle, Set.ncard_singleton]
    decide
  · intro hfew
    have hone : (s.holders .admin).ncard = 1 := by
      change ¬1 < (s.holders .admin).ncard at hfew
      omega
    obtain ⟨only, honly⟩ := Set.ncard_eq_one.mp hone
    rw [honly] at hmem ⊢
    rw [Set.mem_singleton_iff.mp hmem]

/-- Where the admins are counted, the only one stays, and of more than one any may go alone. -/
theorem Store.CountsAdmins.outcome_revoke (h : s.CountsAdmins) (account : Address) :
    (s.holders .admin = {account} ∧
      (Call.revoke .admin account).outcome s = (.error (.rejected .lastAdmin), s)) ∨
    (s.holders .admin ≠ {account} ∧ ∃ changed roster adminCount,
      (Call.revoke .admin account).outcome s = (.ok changed, { s with roster, adminCount }) ∧
      ∀ role, Store.holders { s with roster, adminCount } role =
        if role = .admin then s.holders role \ {account} else s.holders role) := by
  obtain ⟨count, hcount, _⟩ := id h
  cases hheld : s.holdsRole .admin account with
  | false =>
    have habsent := Store.not_mem_holders_iff.mpr hheld
    refine Or.inr ⟨?_, false, s.roster, s.adminCount, Call.outcome_revoke_of_not_holds hheld, ?_⟩
    · intro hsingle
      exact habsent (hsingle ▸ Set.mem_singleton account)
    · intro role
      split
      · next hrole => rw [hrole, Set.sdiff_singleton_eq_self habsent]
      · rfl
  | true =>
    rw [Ne, h.holders_eq_singleton_iff hcount hheld, not_not,
      Call.outcome_revoke_admin hheld hcount]
    by_cases hmore : 1 < count
    · rw [if_pos hmore]
      exact Or.inr ⟨hmore, _, _, _, rfl, s.holders_remove .admin account (some (count - 1))⟩
    · rw [if_neg hmore]
      exact Or.inl ⟨hmore, rfl⟩

/-- The bridge has an admin in every run, and cannot be left without one. -/
theorem Run.always_an_admin [AddressRules] (h : Run g log s) : s.KeepsAdmin := by
  obtain ⟨hcounts, hsome⟩ := h.hasAdmin
  constructor
  case counted =>
    obtain ⟨count, hcount, hcard⟩ := hcounts
    have hone := (Set.ncard_pos (s.finite_holders .admin)).mpr hsome
    exact ⟨count, hcount, hcard, hcard ▸ hone⟩
  case last_stays =>
    intro env sender account hadmin hvalid
    rw [transact_revokeRole hadmin hvalid]
    rcases hcounts.outcome_revoke account with ⟨hsingle, hrefused⟩ | ⟨hother, _, _, _, hgone, _⟩
    · rw [hrefused]
      exact iff_of_true rfl hsingle
    · rw [hgone]
      exact iff_of_false nofun hother
  case other_goes =>
    intro env sender account hadmin hvalid hother
    rw [transact_revokeRole hadmin hvalid]
    rcases hcounts.outcome_revoke account with ⟨hsingle, _⟩ | ⟨_, _, _, _, hgone, hholders⟩
    · exact (hother hsingle).elim
    · rw [hgone]
      exact ⟨_, _, _, rfl, hholders⟩

namespace Sample

/-- Two admins, one of whom is listed twice. -/
def board : Genesis := { genesis with admins := ["root", "deputy", "root"] }

/-- The deputy lets another admin in, who removes the deputy and then the other one. -/
def handover : List Request := [
  .command "deputy" (.grantRole .admin "heir"),
  .command "heir" (.revokeRole .admin "deputy"),
  .command "heir" (.revokeRole .admin "root")]

/-- The log of these calls and the store in the end. -/
def adminsReplaced : List Entry × Store :=
  ((found board).transact .empty).2.play (handover.map (Sample.env, ·))

end Sample

/-- After a founding that lists an admin twice and three changes, one admin is left and stays. -/
theorem Run.always_an_admin_sample :
    Run Sample.board Sample.adminsReplaced.1 Sample.adminsReplaced.2 ∧
      Sample.adminsReplaced.2.KeepsAdmin ∧
      Sample.adminsReplaced.2.adminCount = some 1 ∧
      (((Request.command "heir" (.revokeRole .admin "heir")).run Sample.env).transact
        Sample.adminsReplaced.2).1 = .error (.rejected .lastAdmin) := by
  have hrun : Run Sample.board Sample.adminsReplaced.1 Sample.adminsReplaced.2 :=
    Run.of_found (by decide +kernel) (Sample.handover.map (Sample.env, ·)) (by decide)
  exact ⟨hrun, hrun.always_an_admin, by decide +kernel, by decide +kernel⟩

end TokenBridge
