import TokenBridge.Proofs.DepositPaths
import TokenBridge.Proofs.Membership

/-!
# Only valid addresses are listed

Tokens that are bound and accounts that hold a role are taken from requests, and requests are held
to addresses that are valid. So whatever a bridge lists it can also be asked for: a question about a
bound token or about the holder of a role is never refused for the address in it.
-/

namespace TokenBridge

variable [AddressRules] {g : Genesis} {log : List Entry} {env : Env} {s t : Store}
  {receipt : Receipt} {request : Request} {role : Role}

/-- The tokens that are bound and the accounts that hold a role are valid addresses. -/
structure Store.HoldsValid (s : Store) : Prop where
  tokens : ∀ token b, s.bindings[token]? = some b → Address.fault? token = none
  accounts : ∀ role account, s.holdsRole role account = true → Address.fault? account = none

theorem requireValid_eq_ok_iff {address valid : Address} :
    requireValid address = .ok valid ↔ address = valid ∧ address.fault? = none := by
  refine ⟨fun h => ⟨eq_of_requireValid h, ?_⟩, ?_⟩
  · have hvalid := Except.mapError_eq_ok_iff.mp h
    unfold Address.validate at hvalid
    cases hfault : address.fault? with
    | none => rfl
    | some fault => simp [hfault] at hvalid
  · rintro ⟨rfl, hfault⟩
    exact requireValid_eq_ok hfault

/-- A role is given to several accounts only if all of them are valid. -/
theorem valid_of_grantAll {accounts : List Address} {u : Unit}
    (h : (grantAll role accounts).Yields s u t) : ∀ account ∈ accounts, account.fault? = none := by
  induction accounts generalizing s with
  | nil => exact nofun
  | cons account rest ih =>
    simp only [grantAll, Call.yields_lift_bind_iff] at h
    obtain ⟨_, hvalid, h⟩ := h
    obtain ⟨_, _, _, hrest⟩ := Call.yields_bind_iff.mp h
    exact List.forall_mem_cons.mpr ⟨(requireValid_eq_ok_iff.mp hvalid).2, ih hrest⟩

/-- The accounts of a founding are valid. -/
theorem valid_of_found (h : (found g).Yields .empty receipt s) (role : Role) :
    ∀ account ∈ g.holders role, account.fault? = none := by
  simp only [found, stamp, Call.yields_write_bind_iff, Call.yields_lift_bind_iff] at h
  obtain ⟨_, _, _, _, h⟩ := h
  obtain ⟨_, _, hadmins, h⟩ := Call.yields_bind_iff.mp h
  obtain ⟨_, _, hcommitters, h⟩ := Call.yields_bind_iff.mp h
  obtain ⟨_, _, hpausers, _⟩ := Call.yields_bind_iff.mp h
  cases role with
  | admin => exact valid_of_grantAll hadmins
  | committer => exact valid_of_grantAll hcommitters
  | pauser => exact valid_of_grantAll hpausers

/-- The address that a request adds to a list: a token to bind, or an account to give a role to. -/
def Request.lists? : Request → Option Address
  | .command _ (.bindAsset token ..) => some token
  | .command _ (.grantRole _ account) => some account
  | _ => none

/-- An address is listed only if it is valid. -/
theorem valid_of_lists? {address : Address} (h : (request.run env).Yields s receipt t)
    (hlists : request.lists? = some address) : address.fault? = none := by
  unfold Request.lists? at hlists
  split at hlists
  · obtain rfl := Option.some.inj hlists
    simp only [Request.run, Command.run, bindAsset, Call.yields_check_bind_iff,
      Call.yields_lift_bind_iff] at h
    obtain ⟨_, _, _, hvalid, _⟩ := h
    exact (requireValid_eq_ok_iff.mp hvalid).2
  · obtain rfl := Option.some.inj hlists
    simp only [Request.run, Command.run, grantRole, Call.yields_check_bind_iff,
      Call.yields_lift_bind_iff] at h
    obtain ⟨_, _, _, hvalid, _⟩ := h
    exact (requireValid_eq_ok_iff.mp hvalid).2
  · cases hlists

/-- A step lists no address but the one of its request. -/
theorem Step.holdsValid (hstep : Step env s request receipt t) (hcounts : s.CountsAdmins)
    (hlists : ∀ address, request.lists? = some address → address.fault? = none)
    (h : s.HoldsValid) : t.HoldsValid := by
  cases hstep with
  | deposit _ _ _ hrecord | receive _ _ _ hrecord =>
    obtain ⟨_, _, rfl⟩ := DepositOrder.store_of_record hrecord
    exact ⟨h.tokens, h.accounts⟩
  | @grantRole _ role account _ _ _ _ _ hgrant _ =>
    obtain ⟨_, hholders⟩ := hcounts.grant hgrant
    refine ⟨h.tokens, ?_⟩
    intro other holder hheld
    have hmem := Set.ext_iff.mp (hholders other) holder |>.mp hheld
    split at hmem
    · rcases hmem with rfl | hmem
      · exact hlists _ rfl
      · exact h.accounts other holder hmem
    · exact h.accounts other holder hmem
  | revokeRole _ hrevoke _ =>
    obtain ⟨_, hholders, _⟩ := hcounts.revoke hrevoke
    refine ⟨h.tokens, ?_⟩
    intro other holder hheld
    have hmem := Set.ext_iff.mp (hholders other) holder |>.mp hheld
    split at hmem
    · exact h.accounts other holder hmem.1
    · exact h.accounts other holder hmem
  | @bindAsset _ _ b _ _ _ _ _ _ _ =>
    refine ⟨?_, h.accounts⟩
    intro token b' hb'
    rw [Std.ExtTreeMap.getElem?_insert] at hb'
    split at hb'
    · next heq =>
      rw [← Std.compare_eq_iff_eq.mp heq]
      exact hlists _ rfl
    · exact h.tokens token b' hb'
  | _ => exact ⟨h.tokens, h.accounts⟩

/-- In every run only valid addresses are listed. -/
theorem Run.holdsValid (h : Run g log s) : s.HoldsValid := by
  induction h with
  | found hfound =>
    have hyields := Call.transact_eq_ok_iff.mp hfound
    obtain ⟨_, _, hholders⟩ := holders_of_found hyields
    constructor
    · obtain ⟨_, _, _, rfl⟩ := yields_found hyields
      intro token b hb
      simp [Store.empty] at hb
    · intro role account hheld
      have hmem := Set.ext_iff.mp (hholders role) account |>.mp hheld
      exact valid_of_found hyields role account hmem
  | @request log s env request result t hrun hlater hended ih =>
    cases result with
    | error reason =>
      obtain rfl := Call.store_of_transact_error hended
      exact ih
    | ok receipt =>
      have hyields := Call.transact_eq_ok_iff.mp hended
      exact (Step.of_yields hlater hyields).holdsValid hrun.hasAdmin.1
        (fun _ => valid_of_lists? hyields) ih

end TokenBridge
