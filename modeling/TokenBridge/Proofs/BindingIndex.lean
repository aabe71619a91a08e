import TokenBridge.Proofs.Run

/-!
# Bindings in both directions

The store finds a binding by its token, and by its asset through the index. A new binding of a token
gives up the asset that stood for the token before, and takes only an asset that is free or its own.
So the two directions stay inverse to each other, and no asset ever stands for two tokens.
-/

namespace TokenBridge

variable {g : Genesis} {log : List Entry} {env : Env} {s t : Store} {request : Request}
  {receipt : Receipt} {token : Address} {asset : Word256} {b : Binding}

namespace Store

/-- The binding of a token under its own name, and the index entry of its asset, determine each
other. -/
structure BoundBothWays (s : Store) : Prop where
  token_eq : ∀ (token : Address) (b : Binding), s.bindings[token]? = some b → b.token = token
  index_iff : ∀ (token : Address) (asset : Word256),
    s.assetTokens[asset]? = some token ↔ ∃ b, s.bindings[token]? = some b ∧ b.asset = asset

theorem resolve_eq_ok_iff : s.resolve token = .ok b ↔ s.bindings[token]? = some b := by
  unfold resolve
  cases s.bindings[token]? with
  | none => simp
  | some b' => simp

theorem resolveAsset_eq_ok_iff :
    s.resolveAsset asset = .ok b ↔ s.bindingOfAsset? asset = some b := by
  unfold resolveAsset
  cases s.bindingOfAsset? asset with
  | none => simp
  | some b' => simp

/-- An asset is free for a token if it stands for no other one. -/
theorem requireFree_eq_ok_iff {u : Unit} :
    s.requireFree asset token = .ok u ↔
      ∀ owner, s.assetTokens[asset]? = some owner → owner = token := by
  unfold requireFree
  cases s.assetTokens[asset]? with
  | none => simp
  | some owner => simp [demand_eq_ok_iff]

/-- The index after a binding: the asset that stood for the token is given up, the new one taken. -/
def reindexed (b : Binding) (s : Store) : Std.ExtTreeMap Word256 Address :=
  ((s.bindings[b.token]?).elim s.assetTokens fun old => s.assetTokens.erase old.asset).insert
    b.asset b.token

/-- The new asset stands for the token, an asset given up for none, any other for what it did. -/
theorem getElem?_reindexed (b : Binding) (s : Store) (asset : Word256) :
    (s.reindexed b)[asset]? =
      if b.asset = asset then some b.token
      else if (s.bindings[b.token]?).map Binding.asset = some asset then none
      else s.assetTokens[asset]? := by
  rw [reindexed, Std.ExtTreeMap.getElem?_insert]
  simp only [Std.compare_eq_iff_eq]
  cases s.bindings[b.token]? with
  | none => simp
  | some old =>
    simp only [Option.elim_some, Option.map_some, Option.some.injEq,
      Std.ExtTreeMap.getElem?_erase, Std.compare_eq_iff_eq]

end Store

/-- A binding is stored if its asset is free; then both directions change. -/
theorem Call.yields_bindAsset_iff {previous : Option Binding} :
    (bindAsset b).Yields s previous t ↔
      (∀ owner, s.assetTokens[b.asset]? = some owner → owner = b.token) ∧
        s.bindings[b.token]? = previous ∧
        { s with assetTokens := s.reindexed b, bindings := s.bindings.insert b.token b } = t := by
  simp only [bindAsset, yields_check_bind_iff, yields_read_bind_iff, Store.requireFree_eq_ok_iff,
    exists_const]
  refine and_congr_right fun _ => ?_
  unfold Store.reindexed
  cases s.bindings[b.token]? with
  | none =>
    simp only [yields_write_bind_iff, yields_pure_iff]
    rfl
  | some old =>
    simp only [yields_write_bind_iff, yields_pure_iff]
    rfl

namespace Store

/-- The store in which a token is bound. -/
def bound (b : Binding) (s : Store) : Store :=
  { s with assetTokens := s.reindexed b, bindings := s.bindings.insert b.token b }

theorem bindings_bound (b : Binding) (s : Store) (token : Address) :
    (s.bound b).bindings[token]? = if b.token = token then some b else s.bindings[token]? := by
  simp only [bound, Std.ExtTreeMap.getElem?_insert, Std.compare_eq_iff_eq]

namespace BoundBothWays

/-- A binding is found by its asset exactly if it is found by its token. -/
theorem bindingOfAsset?_eq_some_iff (h : s.BoundBothWays) :
    s.bindingOfAsset? asset = some b ↔ s.bindings[b.token]? = some b ∧ b.asset = asset := by
  simp only [bindingOfAsset?, Option.bind_eq_bind, Option.bind_eq_some_iff, h.index_iff]
  constructor
  · rintro ⟨token, ⟨b', hb', hasset⟩, hb⟩
    obtain rfl := Option.some.inj (hb'.symm.trans hb)
    obtain rfl := h.token_eq token b' hb
    exact ⟨hb, hasset⟩
  · rintro ⟨hb, hasset⟩
    exact ⟨b.token, ⟨b, hb, hasset⟩, hb⟩

/-- No asset stands for two tokens. -/
theorem token_inj (h : s.BoundBothWays) {token' : Address} {b' : Binding}
    (hb : s.bindings[token]? = some b) (hb' : s.bindings[token']? = some b')
    (hasset : b.asset = b'.asset) : token = token' := by
  have hindex := (h.index_iff token b.asset).mpr ⟨b, hb, rfl⟩
  have hindex' := (h.index_iff token' b.asset).mpr ⟨b', hb', hasset.symm⟩
  exact Option.some.inj (hindex.symm.trans hindex')

/-- The new asset stands for the token, its old one for none, any other for what it did. -/
theorem assetTokens_bound (h : s.BoundBothWays) (b : Binding) (asset : Word256) :
    (s.bound b).assetTokens[asset]? =
      if b.asset = asset then some b.token
      else if s.assetTokens[asset]? = some b.token then none
      else s.assetTokens[asset]? := by
  have hold : (s.bindings[b.token]?).map Binding.asset = some asset ↔
      s.assetTokens[asset]? = some b.token := by
    rw [Option.map_eq_some_iff, h.index_iff]
  change (s.reindexed b)[asset]? = _
  simp only [getElem?_reindexed, hold]

/-- Binding a token to a free asset keeps both directions inverse. -/
theorem bind (h : s.BoundBothWays)
    (hfree : ∀ owner, s.assetTokens[b.asset]? = some owner → owner = b.token) :
    (s.bound b).BoundBothWays := by
  constructor
  · intro token b' hb'
    rw [bindings_bound] at hb'
    split at hb'
    · next htoken =>
      rw [← Option.some.inj hb', htoken]
    · exact h.token_eq token b' hb'
  · intro token asset
    rw [bindings_bound, h.assetTokens_bound]
    by_cases htoken : b.token = token
    · subst htoken
      rw [if_pos rfl]
      by_cases hasset : b.asset = asset
      · rw [if_pos hasset]
        exact iff_of_true rfl ⟨b, rfl, hasset⟩
      · -- The asset is not the new one, so the token does not hold it any more.
        rw [if_neg hasset]
        refine iff_of_false ?_ ?_
        · split
          · nofun
          · next hother => exact hother
        · rintro ⟨b', hb', hasset'⟩
          rw [← Option.some.inj hb'] at hasset'
          exact hasset hasset'
    · rw [if_neg htoken, ← h.index_iff]
      by_cases hasset : b.asset = asset
      · rw [if_pos hasset]
        refine iff_of_false (fun heq => htoken (Option.some.inj heq)) ?_
        intro htaken
        exact htoken (hfree token (hasset ▸ htaken)).symm
      · rw [if_neg hasset]
        split
        · next hgiven =>
          refine iff_of_false nofun ?_
          intro htaken
          exact htoken (Option.some.inj (hgiven.symm.trans htaken))
        · rfl

/-- Binding a token leaves the bindings of all assets but its old and its new one. -/
theorem bindingOfAsset?_bound (h : s.BoundBothWays) (hnew : b.asset ≠ asset)
    (hold : ∀ old, s.bindings[b.token]? = some old → old.asset ≠ asset) :
    (s.bound b).bindingOfAsset? asset = s.bindingOfAsset? asset := by
  have hother : s.assetTokens[asset]? ≠ some b.token := by
    intro howner
    obtain ⟨old, hb, hasset⟩ := (h.index_iff b.token asset).mp howner
    exact hold old hb hasset
  unfold bindingOfAsset?
  rw [h.assetTokens_bound, if_neg hnew, if_neg hother]
  cases howner : s.assetTokens[asset]? with
  | none => rfl
  | some owner =>
    have hne : b.token ≠ owner := by
      rintro rfl
      exact hother howner
    change (s.bound b).bindings[owner]? = s.bindings[owner]?
    rw [bindings_bound, if_neg hne]

end BoundBothWays

end Store

/-- A step binds a token to a free asset, or leaves all bindings as they are. -/
theorem Step.bindings [AddressRules] (hstep : Step env s request receipt t) :
    (t.bindings = s.bindings ∧ t.assetTokens = s.assetTokens) ∨
      ∃ b, (∀ owner, s.assetTokens[b.asset]? = some owner → owner = b.token) ∧ t = s.bound b := by
  cases hstep with
  | deposit _ _ _ hrecord | receive _ _ _ hrecord =>
    obtain ⟨_, _, rfl⟩ := DepositOrder.store_of_record hrecord
    exact Or.inl ⟨rfl, rfl⟩
  | @bindAsset _ _ b _ _ _ _ _ hbind _ =>
    obtain ⟨hfree, _, hbound⟩ := Call.yields_bindAsset_iff.mp hbind
    exact Or.inr ⟨b, hfree, hbound.symm⟩
  | _ => exact Or.inl ⟨rfl, rfl⟩

namespace Run

/-- In every run the two directions are inverse to each other. -/
theorem boundBothWays [AddressRules] (h : Run g log s) : s.BoundBothWays := by
  induction h using rec_step with
  | found _ hfound =>
    obtain ⟨_, _, _, rfl⟩ := yields_found hfound
    constructor
    · intro token b hb
      simp [Store.empty] at hb
    · intro token asset
      simp [Store.empty]
  | fault _ _ _ _ _ ih => exact ih
  | step _ _ hstep ih =>
    rcases hstep.bindings with ⟨hbindings, hindex⟩ | ⟨b, hfree, rfl⟩
    · constructor
      · rw [hbindings]
        exact ih.token_eq
      · rw [hbindings, hindex]
        exact ih.index_iff
    · exact ih.bind hfree

end Run

/-- A command to bind a token that succeeds binds it, under its own name, to the asset that it
gives. -/
theorem exists_bound_of_bindAsset [AddressRules] {sender : Address} {bytes : Bytes}
    {tokenDecimals assetDecimals : UInt8}
    (h : ((Request.command sender (.bindAsset token bytes tokenDecimals assetDecimals)).run
      env).transact s = (.ok receipt, t)) :
    ∃ b, b.token = token ∧ b.asset.bytes = bytes ∧ t = s.bound b := by
  cases Step.of_yields rfl (Call.transact_eq_ok_iff.mp h) with
  | @bindAsset _ _ b _ _ _ _ hasset hbind _ =>
    obtain ⟨_, _, hbound⟩ := Call.yields_bindAsset_iff.mp hbind
    exact ⟨b, rfl, Word256.ofBytes?_eq_some_iff.mp hasset, hbound.symm⟩

/-- Tokens and assets are bound one to one, and binding a token moves no other. -/
structure Store.BoundOneToOne [AddressRules] (s : Store) : Prop extends s.BoundBothWays where
  /-- The binding of a token is found by its asset. -/
  resolveAsset_of_resolve : ∀ token b, s.resolve token = .ok b →
    b.token = token ∧ s.resolveAsset b.asset = .ok b
  /-- The binding of an asset is found by its token. -/
  resolve_of_resolveAsset : ∀ asset b, s.resolveAsset asset = .ok b →
    b.asset = asset ∧ s.resolve b.token = .ok b
  /-- Two tokens do not share an asset. -/
  token_inj : ∀ (token token' : Address) (b b' : Binding), s.bindings[token]? = some b →
    s.bindings[token']? = some b' → b.asset = b'.asset → token = token'
  /-- Binding a token leaves the bindings of the others. -/
  resolve_bindAsset : ∀ env sender token bytes tokenDecimals assetDecimals receipt t,
    ((Request.command sender (.bindAsset token bytes tokenDecimals assetDecimals)).run env).transact
      s = (.ok receipt, t) →
    ∀ other, other ≠ token → t.resolve other = s.resolve other
  /-- It leaves those of all assets but the one given up and the one taken. -/
  resolveAsset_bindAsset : ∀ env sender token bytes tokenDecimals assetDecimals receipt t,
    ((Request.command sender (.bindAsset token bytes tokenDecimals assetDecimals)).run env).transact
      s = (.ok receipt, t) →
    ∀ other : Word256, other.bytes ≠ bytes →
      (∀ old, s.resolve token = .ok old → old.asset ≠ other) →
        t.resolveAsset other = s.resolveAsset other

/-- In every run tokens and assets are bound one to one. -/
theorem Run.bound_one_to_one [AddressRules] (h : Run g log s) : s.BoundOneToOne := by
  have hways := h.boundBothWays
  constructor
  case toBoundBothWays => exact hways
  case resolveAsset_of_resolve =>
    intro token b hb
    rw [Store.resolve_eq_ok_iff] at hb
    have htoken := hways.token_eq token b hb
    rw [Store.resolveAsset_eq_ok_iff, hways.bindingOfAsset?_eq_some_iff, htoken]
    exact ⟨rfl, hb, rfl⟩
  case resolve_of_resolveAsset =>
    intro asset b hb
    rw [Store.resolveAsset_eq_ok_iff, hways.bindingOfAsset?_eq_some_iff] at hb
    exact ⟨hb.2, Store.resolve_eq_ok_iff.mpr hb.1⟩
  case token_inj =>
    intro token token' b b' hb hb' hasset
    exact hways.token_inj hb hb' hasset
  case resolve_bindAsset =>
    intro env sender token bytes tokenDecimals assetDecimals receipt t hbind other hother
    obtain ⟨b, rfl, _, rfl⟩ := exists_bound_of_bindAsset hbind
    unfold Store.resolve
    rw [Store.bindings_bound, if_neg hother.symm]
  case resolveAsset_bindAsset =>
    intro env sender token bytes tokenDecimals assetDecimals receipt t hbind other hnew hold
    obtain ⟨b, rfl, rfl, rfl⟩ := exists_bound_of_bindAsset hbind
    unfold Store.resolveAsset
    rw [hways.bindingOfAsset?_bound]
    · rintro rfl
      exact hnew rfl
    · intro old hb
      exact hold old (Store.resolve_eq_ok_iff.mpr hb)

namespace Sample

/-- The word all of whose bytes are one. -/
def ones : Word256 := ⟨List.replicate 32 1, rfl⟩

/-- A token is bound to another asset, after which a second token takes the first asset. The token
cannot have it back. -/
def rebindings : List Request := [
  .command "root" (.bindAsset "cash" Word256.zero.bytes 6 6),
  .command "root" (.bindAsset "cash" ones.bytes 6 9),
  .command "root" (.bindAsset "coin" Word256.zero.bytes 6 6),
  .command "root" (.bindAsset "cash" Word256.zero.bytes 6 6)]

/-- The log of these calls and the store in the end. -/
def rebound : List Entry × Store :=
  ((found genesis).transact .empty).2.play (rebindings.map (Sample.env, ·))

theorem run_rebound : Run genesis rebound.1 rebound.2 := run_of_later rebindings (by decide)

end Sample

/-- In the end each of the two tokens has the asset it was bound to last. -/
theorem Run.bound_one_to_one_sample :
    Run Sample.genesis Sample.rebound.1 Sample.rebound.2 ∧
      Sample.rebound.2.bindingOfAsset? Word256.zero = some ⟨"coin", Word256.zero, 6, 6⟩ ∧
      Sample.rebound.2.bindingOfAsset? Sample.ones = some ⟨"cash", Sample.ones, 6, 9⟩ ∧
      Sample.rebound.2.BoundOneToOne :=
  ⟨Sample.run_rebound, by decide +kernel, by decide +kernel, bound_one_to_one Sample.run_rebound⟩

end TokenBridge
