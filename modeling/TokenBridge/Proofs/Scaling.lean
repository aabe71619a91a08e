import TokenBridge.Store.Bindings

/-!
# Scaling is exact

An amount that is scaled from one precision to another stays the same value: it is multiplied by a
power of ten, or divided by one without a remainder. The two directions undo each other, so an
amount of a token stands for one amount of its asset and the other way round, whatever decimals the
two are counted with.
-/

namespace TokenBridge

/-- The factor between two precisions that an amount can bridge is an amount other than zero. -/
theorem pow_lt_size {gap : Nat} (h : gap ≤ maxDecimalGap) :
    0 < Nat.pow 10 gap ∧ Nat.pow 10 gap < Amount.size := by
  have hwidest : Nat.pow 10 maxDecimalGap < Amount.size := by decide
  exact ⟨Nat.pow_pos (by decide), Nat.lt_of_le_of_lt (Nat.pow_le_pow_right (by decide) h) hwidest⟩

namespace Amount

variable {a b : Amount} {gap : Nat} {source target : UInt8} {fault : AmountFault}

/-- Dividing succeeds exactly where nothing is left over. -/
theorem coarsen_eq_some_iff : a.coarsen gap = some b ↔ a.toNat = b.toNat * Nat.pow 10 gap := by
  have hpos : 0 < Nat.pow 10 gap := Nat.pow_pos (by decide)
  simp only [coarsen, Option.ite_none_right_eq_some, ofNat?_eq_some_iff]
  constructor
  · rintro ⟨hexact, hb⟩
    rw [hb, Nat.div_mul_cancel (Nat.dvd_of_mod_eq_zero hexact)]
  · intro ha
    rw [ha]
    exact ⟨Nat.mul_mod_left .., (Nat.mul_div_cancel _ hpos).symm⟩

/-- Multiplying succeeds exactly where the product is an amount. -/
theorem refine_eq_some_iff : a.refine gap = some b ↔ b.toNat = a.toNat * Nat.pow 10 gap :=
  ofNat?_eq_some_iff

theorem decimalGap_comm (source target : UInt8) :
    decimalGap source target = decimalGap target source :=
  Nat.add_comm ..

/-- An amount is scaled by the power of ten between the precisions, in the direction of the finer
one, over a gap that is not too wide. -/
theorem scale_eq_ok_iff :
    a.scale source target = .ok b ↔
      (source = target ∧ a = b) ∨
      (source ≠ target ∧ decimalGap source target ≤ maxDecimalGap ∧
        ((target < source ∧ a.toNat = b.toNat * Nat.pow 10 (decimalGap source target)) ∨
          (source < target ∧ b.toNat = a.toNat * Nat.pow 10 (decimalGap source target)))) := by
  unfold scale
  by_cases hsame : source = target
  · simp [hsame]
  · by_cases hwide : maxDecimalGap < decimalGap source target
    · simp [hsame, hwide, Nat.not_le.mpr hwide]
    · have hnarrow := Nat.le_of_not_lt hwide
      by_cases hcoarser : target < source
      · have hnot : ¬source < target := UInt8.lt_asymm hcoarser
        rw [if_neg hsame, if_neg hwide, if_pos hcoarser]
        simp only [hsame, hnarrow, hcoarser, hnot, ← coarsen_eq_some_iff]
        cases a.coarsen (decimalGap source target) with
        | none => simp
        | some c => simp [hsame]
      · have hfiner : source < target := UInt8.lt_of_le_of_ne (UInt8.not_lt.mp hcoarser) hsame
        rw [if_neg hsame, if_neg hwide, if_neg hcoarser]
        simp only [hsame, hnarrow, hcoarser, hfiner, ← refine_eq_some_iff]
        cases a.refine (decimalGap source target) with
        | none => simp
        | some c => simp [hsame]

/-- Scaling back gives the amount that was scaled, and nothing else is scaled to the same one. -/
theorem scale_comm : a.scale source target = .ok b ↔ b.scale target source = .ok a := by
  rw [scale_eq_ok_iff, scale_eq_ok_iff, decimalGap_comm target source]
  refine or_congr (and_congr eq_comm eq_comm) (and_congr ne_comm (and_congr_right fun _ => ?_))
  exact or_comm

/-- The powers of ten of two precisions differ by the gap between them. -/
theorem pow_decimalGap_mul (h : target < source) :
    Nat.pow 10 (decimalGap source target) * Nat.pow 10 target.toNat = Nat.pow 10 source.toNat := by
  have hgap : decimalGap source target + target.toNat = source.toNat := by
    have hlt := UInt8.lt_iff_toNat_lt.mp h
    unfold decimalGap
    omega
  rw [← hgap]
  exact (Nat.pow_add ..).symm

/-- The scaled amount is the same value in units of the other size. -/
theorem mul_pow_eq_of_scale (h : a.scale source target = .ok b) :
    a.toNat * Nat.pow 10 target.toNat = b.toNat * Nat.pow 10 source.toNat := by
  rcases scale_eq_ok_iff.mp h with ⟨rfl, rfl⟩ | ⟨_, _, ⟨hcoarser, ha⟩ | ⟨hfiner, hb⟩⟩
  · rfl
  · rw [ha, Nat.mul_assoc, pow_decimalGap_mul hcoarser]
  · rw [hb, Nat.mul_assoc, decimalGap_comm source target, pow_decimalGap_mul hfiner]

/-- No amount but zero is a multiple of a power of ten beyond the widest gap. -/
theorem le_maxDecimalGap (hpos : a ≠ .zero) (h : a.toNat = b.toNat * Nat.pow 10 gap) :
    gap ≤ maxDecimalGap := by
  refine Nat.le_of_not_lt ?_
  intro hwide
  have hb : b.toNat ≠ 0 := by
    intro hzero
    rw [hzero, Nat.zero_mul] at h
    exact hpos (ext h)
  have hlarge : size < Nat.pow 10 (maxDecimalGap + 1) := by decide
  have hmore : Nat.pow 10 (maxDecimalGap + 1) ≤ Nat.pow 10 gap :=
    Nat.pow_le_pow_right (by decide) hwide
  have hmultiple := Nat.le_mul_of_pos_left (Nat.pow 10 gap) (Nat.pos_of_ne_zero hb)
  have hsize := a.toNat_lt
  omega

/-- An amount that is not zero is scaled to the one of the same value, wherever there is one. -/
theorem scale_eq_ok_iff_mul_pow (hpos : a ≠ .zero) :
    a.scale source target = .ok b ↔
      a.toNat * Nat.pow 10 target.toNat = b.toNat * Nat.pow 10 source.toNat := by
  refine ⟨mul_pow_eq_of_scale, ?_⟩
  intro hvalue
  have hten (n : Nat) : 0 < Nat.pow 10 n := Nat.pow_pos (by decide)
  rw [scale_eq_ok_iff]
  by_cases hsame : source = target
  · subst hsame
    exact Or.inl ⟨rfl, ext (Nat.mul_right_cancel (hten source.toNat) hvalue)⟩
  · by_cases hcoarser : target < source
    · rw [← pow_decimalGap_mul hcoarser, ← Nat.mul_assoc] at hvalue
      have ha := Nat.mul_right_cancel (hten target.toNat) hvalue
      exact Or.inr ⟨hsame, le_maxDecimalGap hpos ha, Or.inl ⟨hcoarser, ha⟩⟩
    · have hfiner : source < target := UInt8.lt_of_le_of_ne (UInt8.not_lt.mp hcoarser) hsame
      rw [← pow_decimalGap_mul hfiner, decimalGap_comm, ← Nat.mul_assoc] at hvalue
      have hb := Nat.mul_right_cancel (hten source.toNat) hvalue
      -- The finer amount is not zero either, and a multiple of the power of ten.
      have hpos' : b ≠ .zero := by
        rintro rfl
        rw [Amount.toNat_zero, Nat.mul_eq_zero] at hb
        exact hb.elim (fun hzero => hpos (ext hzero)) (Nat.ne_of_gt (hten _))
      exact Or.inr ⟨hsame, le_maxDecimalGap hpos' hb.symm, Or.inr ⟨hfiner, hb.symm⟩⟩

/-- What is said when an amount cannot be counted with other decimals: how far these are away if
that is too far, and else that digits would be lost or that the amount would be too large. -/
def scaleFault (a : Amount) (source target : UInt8) : AmountFault :=
  if maxDecimalGap < decimalGap source target then .gapTooWide (decimalGap source target)
  else if target < source then .tooPrecise a target
  else .tooLarge a target

theorem eq_scaleFault (h : a.scale source target = .error fault) :
    fault = a.scaleFault source target := by
  unfold scale at h
  unfold scaleFault
  by_cases hsame : source = target
  · simp [hsame] at h
  · rw [if_neg hsame] at h
    by_cases hwide : maxDecimalGap < decimalGap source target
    · rw [if_pos hwide] at h ⊢
      exact (Except.error.inj h).symm
    · rw [if_neg hwide] at h ⊢
      by_cases hcoarser : target < source
      · rw [if_pos hcoarser] at h ⊢
        cases hb : a.coarsen (decimalGap source target) with
        | none => simpa [hb] using h.symm
        | some b => simp [hb] at h
      · rw [if_neg hcoarser] at h ⊢
        cases hb : a.refine (decimalGap source target) with
        | none => simpa [hb] using h.symm
        | some b => simp [hb] at h

/-- An amount that is not zero is refused exactly where no amount has its value. -/
theorem scale_eq_error_iff (hpos : a ≠ .zero) :
    a.scale source target = .error fault ↔
      (∀ b : Amount,
        a.toNat * Nat.pow 10 target.toNat ≠ b.toNat * Nat.pow 10 source.toNat) ∧
        fault = a.scaleFault source target := by
  simp only [ne_eq, ← scale_eq_ok_iff_mul_pow hpos]
  constructor
  · intro h
    refine ⟨?_, eq_scaleFault h⟩
    intro b hb
    rw [h] at hb
    cases hb
  · rintro ⟨hnone, rfl⟩
    cases h : a.scale source target with
    | ok b => exact absurd h (hnone b)
    | error fault => rw [eq_scaleFault h]

/-- An amount that is not zero is counted with other decimals exactly if some amount is worth the
same, as that amount; otherwise it is refused, with the reason. Powers of ten that are counted with
are amounts other than zero, so nothing is divided by zero and none is out of range. Counting back
gives the amount again. -/
theorem scale_exact_or_refused (hpos : a ≠ .zero) (source target : UInt8) :
    (∀ b, a.scale source target = .ok b ↔
      b.toNat * Nat.pow 10 source.toNat = a.toNat * Nat.pow 10 target.toNat) ∧
      (∀ fault, a.scale source target = .error fault ↔
        (∀ b : Amount,
          b.toNat * Nat.pow 10 source.toNat ≠ a.toNat * Nat.pow 10 target.toNat) ∧
          fault = a.scaleFault source target) ∧
      (decimalGap source target ≤ maxDecimalGap →
        0 < Nat.pow 10 (decimalGap source target) ∧
          Nat.pow 10 (decimalGap source target) < size) ∧
      ∀ b, a.scale source target = .ok b → b.scale target source = .ok a := by
  refine ⟨?_, ?_, pow_lt_size, fun b => scale_comm.mp⟩
  · intro b
    rw [scale_eq_ok_iff_mul_pow hpos]
    exact eq_comm
  · intro fault
    rw [scale_eq_error_iff hpos]
    exact and_congr_left fun _ => forall_congr' fun b => ne_comm

end Amount

namespace Sample

/-- Three times the largest power of ten that is an amount. -/
def vast : Amount := ⟨300000000000000000000000000000000000000, by decide⟩

def three : Amount := ⟨3, by decide⟩

end Sample

/-- Over the widest gap that amount is worth three. Over the next wider one it is worth a part of
one, and is refused. -/
theorem Amount.scale_exact_or_refused_sample :
    Sample.vast ≠ .zero ∧ Sample.vast.scale 40 2 = .ok Sample.three ∧
      Sample.three.scale 2 40 = .ok Sample.vast ∧
      Sample.vast.scale 41 2 = .error (.gapTooWide 39) := by
  have hpos : Sample.vast ≠ .zero := by decide
  obtain ⟨hvalue, _, _, hback⟩ := scale_exact_or_refused hpos 40 2
  have hthree : Sample.vast.scale 40 2 = .ok Sample.three := (hvalue _).mpr (by decide)
  obtain ⟨_, hrefused, _⟩ := scale_exact_or_refused hpos 41 2
  refine ⟨hpos, hthree, hback _ hthree, (hrefused _).mpr ⟨?_, by decide⟩⟩
  intro b hvast
  have hpow : Nat.pow 10 (41 : UInt8).toNat = 100000000000000000000000000000000000000000 := by
    decide
  have hnat : Sample.vast.toNat = 300000000000000000000000000000000000000 := rfl
  have hhundred : Nat.pow 10 (2 : UInt8).toNat = 100 := by decide
  rw [hpow, hhundred, hnat] at hvast
  omega

namespace Binding

variable {b : Binding} {amount remote : Amount}

/-- An amount of a token stands for an amount of its asset exactly if that stands for it. -/
theorem toToken_eq_ok_iff : b.toToken remote = .ok amount ↔ b.toAsset amount = .ok remote :=
  Amount.scale_comm

/-- An amount of a token that is not zero stands for the amount of its asset of the same value. -/
theorem toAsset_eq_ok_iff_mul_pow (hpos : amount ≠ .zero) :
    b.toAsset amount = .ok remote ↔
      amount.toNat * Nat.pow 10 b.assetDecimals.toNat =
        remote.toNat * Nat.pow 10 b.tokenDecimals.toNat :=
  Amount.scale_eq_ok_iff_mul_pow hpos

/-- What the two amounts are worth does not differ. -/
theorem mul_pow_eq_of_toAsset (h : b.toAsset amount = .ok remote) :
    amount.toNat * Nat.pow 10 b.assetDecimals.toNat =
      remote.toNat * Nat.pow 10 b.tokenDecimals.toNat :=
  Amount.mul_pow_eq_of_scale h

end Binding

end TokenBridge
