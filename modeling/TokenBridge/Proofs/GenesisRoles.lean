import Mathlib.Data.Set.Card
import TokenBridge.Proofs.Membership

/-!
# The roles of a founding

A founding names the first holders of each role in a list, which may name an account more than once
and in any order. Neither the roster nor the number that is kept of the admins sees a repetition.
The receipt does: it tells how long the list of admins is. That is how many admins there are if none
of them is named twice, and more than that otherwise.
-/

namespace TokenBridge

variable {g : Genesis} {receipt : Receipt} {s : Store}

/-- What a founding does to the roles and tells about them. -/
structure Genesis.SetsRoles (g : Genesis) (receipt : Receipt) (s : Store) : Prop where
  /-- A role is held by the accounts of its list and by no others. -/
  holds_iff : ∀ role account, s.holdsRole role account = true ↔ account ∈ g.holders role
  /-- Each admin is counted once. -/
  counted : ∃ count, s.adminCount = some count ∧ count.toNat = g.admins.toFinset.card
  /-- What is told under the name of that number is the length of the list. -/
  told_iff : ∀ value, ("admin_count", value) ∈ receipt.attributes ↔
    value = Decimal.text g.admins.length
  /-- So the number of admins is told exactly if none of them is named twice. -/
  tells_count_iff : ∀ count, s.adminCount = some count →
    (("admin_count", Decimal.text count.toNat) ∈ receipt.attributes ↔ g.admins.Nodup)

/-- The receipt of a founding tells how long the list of admins is. -/
theorem told_of_found [AddressRules] (h : (found g).Yields .empty receipt s) (value : String) :
    ("admin_count", value) ∈ receipt.attributes ↔ value = Decimal.text g.admins.length := by
  simp only [found, stamp, Call.yields_write_bind_iff, Call.yields_lift_bind_iff] at h
  obtain ⟨_, _, _, _, h⟩ := h
  obtain ⟨_, _, _, h⟩ := Call.yields_bind_iff.mp h
  obtain ⟨_, _, _, h⟩ := Call.yields_bind_iff.mp h
  obtain ⟨_, _, _, h⟩ := Call.yields_bind_iff.mp h
  obtain ⟨rfl, _⟩ := Call.yields_pure_iff.mp h
  simp [numberAttribute]

/-- A founding that succeeds gives each role to the accounts of its list and counts each admin once.
Its receipt tells the length of the list of admins, which is their number exactly if none of them is
named twice. -/
theorem Genesis.sets_roles [AddressRules] (h : (found g).transact .empty = (.ok receipt, s)) :
    g.SetsRoles receipt s := by
  have hfound := Call.transact_eq_ok_iff.mp h
  have htold := told_of_found hfound
  obtain ⟨⟨count, hcount, hcard⟩, _, hholders⟩ := holders_of_found hfound
  have hdistinct : count.toNat = g.admins.toFinset.card := by
    have hadmins : s.holders .admin = {account | account ∈ g.admins} := hholders .admin
    rw [← hcard, hadmins, ← List.coe_toFinset, Set.ncard_coe_finset]
  constructor
  case holds_iff =>
    intro role account
    exact Set.ext_iff.mp (hholders role) account
  case counted => exact ⟨count, hcount, hdistinct⟩
  case told_iff => exact htold
  case tells_count_iff =>
    intro count' hcount'
    obtain rfl := Option.some.inj (hcount.symm.trans hcount')
    rw [htold, Decimal.text_inj, hdistinct]
    exact Multiset.toFinset_card_eq_card_iff_nodup

namespace Sample

/-- The board that names an admin twice can be founded. -/
theorem exists_found_board : ∃ receipt s, (found board).transact .empty = (.ok receipt, s) := by
  have hok : ((found board).transact .empty).1.isOk = true := by decide +kernel
  rcases h : (found board).transact .empty with ⟨_ | receipt, s⟩
  · rw [h] at hok
    cases hok
  · exact ⟨receipt, s, rfl⟩

theorem card_admins_board : board.admins.toFinset.card = 2 := by decide

end Sample

/-- Of a board that is named in three entries there are two admins, and three are told. -/
theorem Genesis.sets_roles_sample :
    ∃ receipt s, (found Sample.board).transact .empty = (.ok receipt, s) ∧
      Sample.board.SetsRoles receipt s ∧ s.adminCount = some 2 ∧
      ("admin_count", "3") ∈ receipt.attributes := by
  obtain ⟨receipt, s, h⟩ := Sample.exists_found_board
  have hroles := sets_roles h
  obtain ⟨count, hcount, htwo⟩ := hroles.counted
  rw [Sample.card_admins_board] at htwo
  have hcount' : count = 2 := UInt32.toNat_inj.mp htwo
  rw [hcount'] at hcount
  exact ⟨receipt, s, h, hroles, hcount, (hroles.told_iff "3").mpr rfl⟩

/-- The number that is told is not always that of the admins. -/
theorem Genesis.not_tells_count :
    ¬ ∀ (g : Genesis) (receipt : Receipt) (s : Store),
      (found g).transact .empty = (.ok receipt, s) →
      (∀ role account, s.holdsRole role account = true ↔ account ∈ g.holders role) ∧
        ∃ count, s.adminCount = some count ∧ count.toNat = g.admins.toFinset.card ∧
          ("admin_count", Decimal.text count.toNat) ∈ receipt.attributes := by
  intro htells
  obtain ⟨receipt, s, h⟩ := Sample.exists_found_board
  obtain ⟨_, count, _, hdistinct, htold⟩ := htells Sample.board receipt s h
  rw [told_of_found (Call.transact_eq_ok_iff.mp h), Decimal.text_inj, hdistinct,
    Sample.card_admins_board] at htold
  exact absurd htold (by decide)

end TokenBridge
