import DeclScan.Proofs.Number.Order

/-!
# DeclScan.Proofs.Number.UnitInterval

Doubles between zero and one. A sum of positive doubles is not negative, and a positive difference
is not above one if it is taken from one that is not: rounding does not cross either end.
-/

namespace DeclScan
namespace Binary64

open Float.Model (Format UnpackedFloat totalExponent)
open Float.Model.UnpackedFloat

/-! ## Signs -/

/-- The sign of a double that is a number. -/
def HasSign (s : Sign) : UnpackedFloat → Prop
  | .notANumber => True
  | .infinity s' | .zero s' | .finite s' _ _ _ => s' = s

theorem unpackSign_packComponents {spec : Format} {s : Sign} {exponent mantissa} :
    unpackSign (packComponents spec s exponent mantissa) = s.toBitVec := by
  ext i hi
  obtain rfl : i = 0 := by omega
  simp [unpackSign, packComponents, BitVec.getLsbD_append, BitVec.getElem_append]

theorem ofBitVec_toBitVec (s : Sign) : Sign.ofBitVec s.toBitVec = s := by
  cases s <;> rfl

theorem hasSign_packComponents {s : Sign} {exponent mantissa} :
    HasSign s (unpack Format.binary64 (packComponents Format.binary64 s exponent mantissa)) := by
  unfold unpack
  simp only [unpackSign_packComponents, ofBitVec_toBitVec]
  split_ifs <;> simp [HasSign]

theorem hasSign_pack {s : Sign} {f : UnpackedFloat} (h : HasSign s f) :
    HasSign s (unpack Format.binary64 (pack Format.binary64 f)) := by
  cases f with
  | notANumber => exact trivial
  | infinity s' =>
    obtain rfl : s' = s := h
    exact hasSign_packComponents
  | zero s' =>
    obtain rfl : s' = s := h
    exact hasSign_packComponents
  | finite s' m e hm =>
    obtain rfl : s' = s := h
    rw [pack]
    dsimp only
    split_ifs <;> exact hasSign_packComponents

theorem hasSign_round (spec : Format) (s : Sign) (m : Nat) (e : Int) :
    HasSign s (UnpackedFloat.round spec s m e) := by
  unfold UnpackedFloat.round roundWithAccuracy
  dsimp only
  split_ifs <;> rfl

/-! ## Rounding below one -/

theorem mantissa_shiftRight (em : ExtendedMantissa) (k : Nat) :
    (em >>> k).mantissa = em.mantissa / 2 ^ k := by
  change (k.repeat ExtendedMantissa.shiftRightOne em).mantissa = _
  induction k with
  | zero => simp [Nat.repeat]
  | succ k ih =>
    rw [Nat.repeat, ExtendedMantissa.shiftRightOne, ih, Nat.div_div_eq_div_mul, Nat.pow_succ]

theorem roundedMantissa_le (em : ExtendedMantissa) : em.roundedMantissa ≤ em.mantissa + 1 := by
  obtain ⟨m, r, s⟩ := em
  cases r <;> cases s <;>
    simp only [ExtendedMantissa.roundedMantissa, ExtendedMantissa.accuracy,
      Accuracy.roundToNearestEven] <;> omega

/-- The double is below one, or it is one. -/
def IsUnit (m : Nat) (e : Int) : Prop := e < -52 ∨ (e = -52 ∧ m = 2 ^ 52)

theorem targetExponent_eq (m : Nat) (e : Int) :
    Format.binary64.targetExponent (totalExponent m e) = max (m.log2 + e - 52) (-1074) := by
  simp only [Format.targetExponent, totalExponent, Format.mantissaBits, Format.minExponent]
  norm_num
  omega

/-- A significand of at most 53 digits stays; where rounding has gone up to the next power of two,
there is one place less. -/
theorem shiftToTargetExponent_exact {m : Nat} (hm : m ≤ 2 ^ 53) {e : Int} (he : -1074 ≤ e) :
    ∃ em e', shiftToTargetExponent Format.binary64 m e .exact = (em, e') ∧
      (em.mantissa = m ∧ e' = e ∨ em.mantissa = 2 ^ 52 ∧ e' = e + 1) := by
  refine ⟨_, _, rfl, ?_⟩
  rw [mantissa_shiftRight, targetExponent_eq]
  have hmantissa : (ExtendedMantissa.ofMantissaAndAccuracy m .exact).mantissa = m := rfl
  rw [hmantissa]
  rcases Nat.lt_or_eq_of_le hm with hlt | rfl
  · left
    have hlog : m.log2 ≤ 52 := by
      rcases Nat.eq_zero_or_pos m with rfl | hpos
      · decide
      · exact Nat.lt_succ_iff.1 ((Nat.log2_lt hpos.ne').2 hlt)
    have hshift : (max ((m.log2 : Int) + e - 52) (-1074) - e).toNat = 0 := by omega
    simp [hshift]
  · right
    have hshift : (max (((2 ^ 53 : Nat).log2 : Int) + e - 52) (-1074) - e).toNat = 1 := by
      rw [Nat.log2_two_pow]
      omega
    rw [hshift]
    exact ⟨by norm_num, by norm_num⟩

theorem div_pow_lt {m k : Nat} (h : m.log2 ≤ 52 + k) : m / 2 ^ k < 2 ^ 53 := by
  have hpower : (2 : Nat) ^ (m.log2 + 1) ≤ 2 ^ 53 * 2 ^ k := by
    rw [← Nat.pow_add]
    exact Nat.pow_le_pow_right (by decide) (by omega)
  exact (Nat.div_lt_iff_lt_mul (Nat.two_pow_pos k)).2 (Nat.lt_log2_self.trans_le hpower)

theorem roundWithAccuracy_cases {m : Nat} {e : Int} (hbelow : m.log2 + 1 + e ≤ 0)
    (htarget : e ≤ max (m.log2 + e - 52) (-1074)) (s : Sign) :
    roundWithAccuracy Format.binary64 s m e .exact = .zero s ∨
      ∃ m' e' hm', IsUnit m' e' ∧
        roundWithAccuracy Format.binary64 s m e .exact = .finite s m' e' hm' := by
  obtain ⟨k, hk⟩ := Int.eq_ofNat_of_zero_le (show 0 ≤ max (m.log2 + e - 52) (-1074) - e by omega)
  let shifted := ExtendedMantissa.ofMantissaAndAccuracy m .exact >>> k
  have hshift : shiftToTargetExponent Format.binary64 m e .exact = (shifted, e + k) := by
    rw [shiftToTargetExponent, shiftToExponent, targetExponent_eq, hk, Int.toNat_natCast]
  have hrounded : shifted.roundedMantissa ≤ 2 ^ 53 := by
    have hless : m / 2 ^ k < 2 ^ 53 := div_pow_lt (by omega)
    have hmantissa : shifted.mantissa = m / 2 ^ k := mantissa_shiftRight _ k
    have := roundedMantissa_le shifted
    omega
  obtain ⟨em, e', hagain, hfinal⟩ := shiftToTargetExponent_exact hrounded (e := e + k) (by omega)
  have hunit : IsUnit em.mantissa e' := by
    unfold IsUnit
    omega
  simp only [roundWithAccuracy, hshift, hagain]
  split_ifs with hzero
  · exact .inl rfl
  · exact .inr ⟨em.mantissa, e', Nat.pos_of_ne_zero hzero, hunit, rfl⟩

theorem log2_shiftLeft {m : Nat} (hm : 0 < m) (k : Nat) : (m <<< k).log2 = m.log2 + k := by
  induction k with
  | zero => rfl
  | succ k ih =>
    have hpos : m <<< k ≠ 0 := by
      rw [Nat.shiftLeft_eq]
      positivity
    rw [Nat.shiftLeft_succ, Nat.log2_two_mul hpos, ih, Nat.add_assoc]

theorem round_cases {m : Nat} (hm : 0 < m) {e : Int} (hbelow : m.log2 + 1 + e ≤ 0) (s : Sign) :
    UnpackedFloat.round Format.binary64 s m e = .zero s ∨
      ∃ m' e' hm', IsUnit m' e' ∧
        UnpackedFloat.round Format.binary64 s m e = .finite s m' e' hm' := by
  unfold UnpackedFloat.round
  simp only [targetExponent_eq, decreaseExponent]
  generalize hshift : (e - max (m.log2 + e - 52) (-1074)).toNat = k
  have hlog := log2_shiftLeft hm k
  exact roundWithAccuracy_cases (by omega) (by omega) s

/-! ## Comparing with zero and with one -/

theorem compare_zero_of_hasSign_positive {f : UnpackedFloat} (h : HasSign .positive f) {s : Sign} :
    f = .notANumber ∨ ((UnpackedFloat.zero s).compare f).any (·.isLE) = true := by
  cases f with
  | notANumber => exact .inl rfl
  | infinity s' | zero s' | finite s' m e hm =>
    obtain rfl : s' = .positive := h
    exact .inr rfl

theorem compare_zero_of_hasSign_negative {f : UnpackedFloat} (h : HasSign .negative f) {s : Sign} :
    (UnpackedFloat.zero s).compare f ≠ some .lt := by
  cases f with
  | notANumber => simp [UnpackedFloat.compare]
  | infinity s' | zero s' | finite s' m e hm =>
    obtain rfl : s' = .negative := h
    simp [UnpackedFloat.compare]

theorem compare_finite_one_iff {m : Nat} {e : Int} {hm : 0 < m} :
    ((UnpackedFloat.finite .positive m e hm).compare
      (.finite .positive (2 ^ 52) (-52) (by decide))).any (·.isLE) = true ↔
      e < -52 ∨ e = -52 ∧ m ≤ 2 ^ 52 := by
  simp only [UnpackedFloat.compare, Option.any_some, Ordering.isLE_then_iff_or,
    Int.compare_eq_lt, Int.compare_eq_eq, Nat.isLE_compare]

theorem compare_finite_one {m : Nat} {e : Int} (h : e < -52 ∨ e = -52 ∧ m ≤ 2 ^ 52) (s : Sign)
    (hm : 0 < m) :
    ((UnpackedFloat.finite s m e hm).compare
      (.finite .positive (2 ^ 52) (-52) (by decide))).any (·.isLE) = true := by
  cases s with
  | negative => rfl
  | positive => exact compare_finite_one_iff.2 h

theorem compare_packComponents_one {exponent : BitVec 11} {mantissa : BitVec 52}
    (h : exponent.toNat < 1023 ∨ exponent.toNat = 1023 ∧ mantissa = 0) (s : Sign) :
    ((unpack Format.binary64 (packComponents Format.binary64 s exponent mantissa)).compare
      (.finite .positive (2 ^ 52) (-52) (by decide))).any (·.isLE) = true := by
  have hones : exponent ≠ -1#11 := by
    rintro rfl
    simp at h
  unfold unpack
  simp only [unpackExponent_packComponents, unpackMantissa_packComponents,
    unpackSign_packComponents, ofBitVec_toBitVec, hones, if_false]
  have hbias : (Format.binary64.exponentBias : Int) = 1023 := rfl
  split_ifs with hzero
  · rfl
  · refine compare_finite_one (.inl ?_) s _
    rw [hzero]
    decide
  · refine compare_finite_one ?_ s _
    rcases h with h | ⟨h, rfl⟩
    · left
      omega
    · right
      rw [h]
      decide

theorem compare_pack_one {m : Nat} {e : Int} (h : IsUnit m e) (hm : 0 < m) (s : Sign) :
    ((unpack Format.binary64 (pack Format.binary64 (.finite s m e hm))).compare
      (.finite .positive (2 ^ 52) (-52) (by decide))).any (·.isLE) = true := by
  rw [pack]
  dsimp only
  have hbias : (Format.binary64.exponentBias : Int) = 1023 := rfl
  unfold IsUnit at h
  split_ifs with hinfinite hnormal
  · norm_num at hinfinite
    omega
  · refine compare_packComponents_one ?_ s
    rw [BitVec.toNat_ofNat, Nat.mod_eq_of_lt (by norm_num at hinfinite; omega)]
    rcases h with h | ⟨rfl, rfl⟩
    · left
      omega
    · right
      decide
  · exact compare_packComponents_one (.inl (by decide)) s

/-! ## Sums and differences -/

theorem cases_of_zero_lt {f : UnpackedFloat} {s : Sign}
    (h : (UnpackedFloat.zero s).compare f = some .lt) :
    f = .infinity .positive ∨ ∃ m e hm, f = .finite .positive m e hm := by
  cases f with
  | notANumber | zero s' => simp [UnpackedFloat.compare] at h
  | infinity s' =>
    cases s' with
    | negative => simp [UnpackedFloat.compare] at h
    | positive => exact .inl rfl
  | finite s' m e hm =>
    cases s' with
    | negative => simp [UnpackedFloat.compare] at h
    | positive => exact .inr ⟨m, e, hm, rfl⟩

theorem cases_of_zero_le {f : UnpackedFloat} {s : Sign}
    (h : ((UnpackedFloat.zero s).compare f).any (·.isLE) = true) :
    (∃ s', f = .zero s') ∨ f = .infinity .positive ∨ ∃ m e hm, f = .finite .positive m e hm := by
  cases f with
  | notANumber => simp [UnpackedFloat.compare] at h
  | zero s' => exact .inl ⟨s', rfl⟩
  | infinity s' =>
    cases s' with
    | negative => simp [UnpackedFloat.compare] at h
    | positive => exact .inr (.inl rfl)
  | finite s' m e hm =>
    cases s' with
    | negative => simp [UnpackedFloat.compare] at h
    | positive => exact .inr (.inr ⟨m, e, hm, rfl⟩)

theorem normalize_of_pos {m : Int} (hm : 0 < m) (e : Int) (s : Sign) :
    UnpackedFloat.normalize Format.binary64 m e s =
      UnpackedFloat.round Format.binary64 .positive m.toNat e := by
  rw [UnpackedFloat.normalize, Int.compare_eq_gt.2 hm]

/-- The double is zero or less. -/
def IsNonpos (f : UnpackedFloat) : Prop := (∃ s, f = .zero s) ∨ HasSign .negative f

theorem isNonpos_normalize {m : Int} (hm : ¬0 < m) (e : Int) (s : Sign) :
    IsNonpos (UnpackedFloat.normalize Format.binary64 m e s) := by
  rcases Int.lt_or_eq_of_le (Int.not_lt.1 hm) with hneg | rfl
  · right
    rw [UnpackedFloat.normalize, Int.compare_eq_lt.2 hneg]
    exact hasSign_round ..
  · exact .inl ⟨s, rfl⟩

theorem IsNonpos.compare_pack {f : UnpackedFloat} (h : IsNonpos f) {s : Sign} :
    (UnpackedFloat.zero s).compare (unpack Format.binary64 (pack Format.binary64 f)) ≠
      some .lt := by
  rcases h with ⟨s', rfl⟩ | hsign
  · cases s' <;> exact fun h => by cases h
  · exact compare_zero_of_hasSign_negative (hasSign_pack hsign)

theorem unpack_add (x y : Float) : (x + y).toModel.unpack =
    unpack Format.binary64 (pack Format.binary64
      (UnpackedFloat.add Format.binary64 x.toModel.unpack y.toModel.unpack)) := rfl

theorem unpack_sub (x y : Float) : (x - y).toModel.unpack =
    unpack Format.binary64 (pack Format.binary64
      (UnpackedFloat.sub Format.binary64 x.toModel.unpack y.toModel.unpack)) := rfl

theorem zero_le_add {x y z : Float} (hx : 0 ≤ x) (hy : 0 < y) (hz : x + y < z) : 0 ≤ x + y := by
  rw [le_iff] at hx ⊢
  rw [lt_iff] at hy hz
  have hsum :
      HasSign .positive (UnpackedFloat.add Format.binary64 x.toModel.unpack y.toModel.unpack) := by
    rcases cases_of_zero_lt hy with hy | ⟨m, e, hm, hy⟩ <;>
      rcases cases_of_zero_le hx with ⟨s, hx⟩ | hx | ⟨m', e', hm', hx⟩ <;> rw [hx, hy]
    case inr.inr.inr =>
      simp only [UnpackedFloat.add, decreaseExponent, Sign.apply, Nat.shiftLeft_eq]
      rw [normalize_of_pos (by positivity)]
      exact hasSign_round ..
    all_goals rfl
  rcases compare_zero_of_hasSign_positive (hasSign_pack hsum) with hnan | hle
  · rw [Float.Model.compare, unpack_add, hnan] at hz
    cases z.toModel.unpack <;> cases hz
  · exact hle

theorem significand_lt {x : Float} {s : Sign} {m : Nat} {e : Int} {hm : 0 < m}
    (h : x.toModel.unpack = .finite s m e hm) : m < 2 ^ 53 := by
  rw [Float.Model.unpack] at h
  unfold unpack at h
  dsimp only at h
  split_ifs at h with hones hzero hmantissa hmantissa
  · cases h
    exact (BitVec.isLt _).trans (by decide)
  · cases h
    exact BitVec.isLt _

theorem log2_sub_le {m m' k k' : Nat} {e : Int} (hm : m < 2 ^ 53)
    (hone : e < -52 ∨ e = -52 ∧ m ≤ 2 ^ 52) (hm' : 0 < m') (hpos : m' * 2 ^ k' < m * 2 ^ k) :
    ((m * 2 ^ k - m' * 2 ^ k').log2 : Int) + 1 + (e - k) ≤ 0 := by
  have htaken : 0 < m' * 2 ^ k' := by positivity
  have hlog {n : Nat} (hn : m ≤ 2 ^ n) : (m * 2 ^ k - m' * 2 ^ k').log2 < n + k := by
    have hle : m * 2 ^ k ≤ 2 ^ (n + k) := by
      rw [Nat.pow_add]
      exact Nat.mul_le_mul_right _ hn
    exact (Nat.log2_lt (by omega)).2 (by omega)
  rcases hone with hlt | ⟨rfl, hle⟩
  · have := hlog hm.le
    omega
  · have := hlog hle
    omega

theorem normalize_sub_cases {m m' k k' : Nat} {e : Int} (hm : m < 2 ^ 53)
    (hone : e < -52 ∨ e = -52 ∧ m ≤ 2 ^ 52) (hm' : 0 < m') {s : Sign}
    (hpos : ¬IsNonpos (UnpackedFloat.normalize Format.binary64
      ((m * 2 ^ k : Nat) - (m' * 2 ^ k' : Nat)) (e - k) s)) :
    ∃ n e' hn, IsUnit n e' ∧ UnpackedFloat.normalize Format.binary64
      ((m * 2 ^ k : Nat) - (m' * 2 ^ k' : Nat)) (e - k) s = .finite .positive n e' hn := by
  by_cases hlt : m' * 2 ^ k' < m * 2 ^ k
  · have hbelow := log2_sub_le hm hone hm' hlt
    rw [normalize_of_pos (by omega)] at hpos ⊢
    rw [Int.toNat_sub] at hpos ⊢
    rcases round_cases (by omega) hbelow .positive with hzero | hfinite
    · exact absurd (.inl ⟨_, hzero⟩) hpos
    · exact hfinite
  · exact absurd (isNonpos_normalize (by omega) _ _) hpos

theorem sub_le_one {x y : Float} (hx : 0 ≤ x) (hone : x ≤ 1) (hy : 0 < y) (hz : 0 < x - y) :
    x - y ≤ 1 := by
  rw [le_iff] at hx hone ⊢
  rw [lt_iff] at hy hz
  rw [Float.Model.compare, unpack_sub] at hz ⊢
  rw [Float.Model.compare] at hone
  have hpos : ¬IsNonpos (UnpackedFloat.sub Format.binary64 x.toModel.unpack y.toModel.unpack) :=
    fun h => h.compare_pack hz
  rcases cases_of_zero_lt hy with hy | ⟨m', e', hm', hy⟩ <;>
    rcases cases_of_zero_le hx with ⟨s, hx⟩ | hx | ⟨m, e, hm, hx⟩
  case inr.inr.inr =>
    have hbound := significand_lt hx
    rw [hx] at hone
    have hone := compare_finite_one_iff.1 hone
    rw [hx, hy] at hpos ⊢
    simp only [UnpackedFloat.sub, decreaseExponent, Sign.apply, Nat.shiftLeft_eq] at hpos ⊢
    have hexponent : min e e' = e - (e - min e e').toNat := by omega
    generalize (e - min e e').toNat = k at *
    rw [hexponent] at hpos ⊢
    obtain ⟨n, e'', hn, hunit, heq⟩ := normalize_sub_cases hbound hone hm' hpos
    rw [heq]
    exact compare_pack_one hunit hn _
  case inr.inr.inl | inl.inr.inl =>
    rw [hx] at hone
    cases hone
  all_goals
    rw [hx, hy] at hpos
    exact absurd (.inr rfl) hpos

end Binary64
end DeclScan
