import DeclScan.Number.Binary64
import Mathlib

/-!
# DeclScan.Proofs.Number.Ratio

Ratios of counts as doubles. Rounding does not make two of them equal: a count divided by different
counts gives different doubles, as long as the counts stay below `2 ^ 52`.

* `Binary64.eq_of_ofBits_eq`: different bits make different doubles.
* `Binary64.exists_nearest`: significand and exponent of a ratio.
* `Binary64.ofRatio_inj`: the divisor can be told from the double.
-/

namespace DeclScan
namespace Binary64

/-! ## Bits -/

/-- The bits of a positive normal double. -/
def IsNormal (bits : Nat) : Prop := 2 ^ 52 ≤ bits ∧ bits < 2047 * 2 ^ 52

open Float.Model in
theorem IsNormal.isNaNBits_eq_false {bits : Nat} (h : IsNormal bits)
    {x : BitVec Format.binary64.numBits} (hx : x.toNat = bits) :
    UnpackedFloat.isNaNBits x = false := by
  obtain ⟨hlow, hhigh⟩ := h
  have hfield : (UnpackedFloat.unpackExponent x).toNat = bits / 2 ^ 52 := by
    rw [UnpackedFloat.unpackExponent_def, BitVec.extractLsb'_toNat, Nat.shiftRight_eq_div_pow, hx]
    exact Nat.mod_eq_of_lt (show bits / 2 ^ 52 < 2 ^ 11 by omega)
  rw [UnpackedFloat.isNaNBits, decide_eq_false_iff_not]
  rintro ⟨hones, -⟩
  rw [hones] at hfield
  simp at hfield
  omega

theorem eq_of_ofBits_eq {a b : Nat} (ha : IsNormal a) (hb : IsNormal b)
    (h : Float.ofBits a.toUInt64 = Float.ofBits b.toUInt64) : a = b := by
  have htoNat {a : Nat} (ha : IsNormal a) : a.toUInt64.toBitVec.toNat = a :=
    Nat.mod_eq_of_lt (by have := ha.2; omega)
  have hbits {a : Nat} (ha : IsNormal a) :
      (Float.ofBits a.toUInt64).toBits.toBitVec = a.toUInt64.toBitVec := by
    have hnumber := ha.isNaNBits_eq_false (htoNat ha)
    exact (Float.Model.UnpackedFloat.pack_unpack _).trans (if_neg (by simp [hnumber]))
  rw [← htoNat ha, ← htoNat hb, ← hbits ha, ← hbits hb, h]

/-! ## Ratios -/

/-- A ratio is within half a unit of `m / 2 ^ k`, a significand and an exponent of a double. -/
structure IsNearest (num den m k : Nat) : Prop where
  significand : 2 ^ 52 ≤ m ∧ m < 2 ^ 53
  lower : 2 * (m * den) ≤ 2 * (num * 2 ^ k) + den
  upper : 2 * (num * 2 ^ k) ≤ 2 * (m * den) + den

/-- The bits of `m / 2 ^ k`. -/
def bitsOf (m k : Nat) : Nat := (1075 - k) * 2 ^ 52 + (m - 2 ^ 52)

theorem isNormal_bitsOf {m k : Nat} (hm : 2 ^ 52 ≤ m ∧ m < 2 ^ 53) (hk : k < 1075) :
    IsNormal (bitsOf m k) := by
  unfold IsNormal bitsOf
  omega

theorem bitsOf_inj {m m' k k' : Nat} (hm : 2 ^ 52 ≤ m ∧ m < 2 ^ 53) (hm' : 2 ^ 52 ≤ m' ∧ m' < 2 ^ 53)
    (hk : k < 1075) (hk' : k' < 1075) (h : bitsOf m k = bitsOf m' k') : m = m' ∧ k = k' := by
  unfold bitsOf at h
  omega

theorem ofRatio_zero (den : Nat) : ofRatio false 0 den = 0 := by
  rw [ofRatio, if_pos rfl]
  rfl

section Ratio

variable {num den : Nat}

theorem scaleTwo_cases (num den : Nat) (shift : Int) :
    ∃ i j : Nat, (i : Int) - j = shift ∧ scaleTwo num den shift = (num * 2 ^ i, den * 2 ^ j) := by
  unfold scaleTwo
  split
  · exact ⟨shift.toNat, 0, by omega, by simp [powerOfTwo]⟩
  · exact ⟨0, (-shift).toNat, by omega, by simp [powerOfTwo]⟩

theorem exists_scaled (hnum : 0 < num) (hden : 0 < den) :
    ∃ i j : Nat, scaleTwo num den (-((num.log2 : Int) - den.log2)) = (num * 2 ^ i, den * 2 ^ j) ∧
      (num.log2 : Int) - den.log2 = j - i ∧ num * 2 ^ i < 2 * (den * 2 ^ j) ∧
        den * 2 ^ j < 2 * (num * 2 ^ i) := by
  obtain ⟨i, j, hshift, hscale⟩ := scaleTwo_cases num den (-((num.log2 : Int) - den.log2))
  have hbounds {n : Nat} (hn : 0 < n) (i : Nat) :
      2 ^ (n.log2 + i) ≤ n * 2 ^ i ∧ n * 2 ^ i < 2 * 2 ^ (n.log2 + i) := by
    have hlow := Nat.mul_le_mul_right (2 ^ i) (Nat.log2_self_le hn.ne')
    have hhigh := Nat.mul_lt_mul_of_pos_right (@Nat.lt_log2_self n) (Nat.two_pow_pos i)
    rw [← Nat.pow_add] at hlow hhigh
    rw [show n.log2 + 1 + i = n.log2 + i + 1 by omega, Nat.pow_succ, mul_comm _ 2] at hhigh
    exact ⟨hlow, hhigh⟩
  have hsame : num.log2 + i = den.log2 + j := by omega
  obtain ⟨hnlow, hnhigh⟩ := hbounds hnum i
  obtain ⟨hdlow, hdhigh⟩ := hbounds hden j
  rw [hsame] at hnlow hnhigh
  exact ⟨i, j, hscale, by omega, by omega, by omega⟩

theorem fits (i j e : Nat) {k : Nat} (hk : k + j = 52 + i + e)
    (hlow : den * 2 ^ j ≤ num * 2 ^ i * 2 ^ e) (hhigh : num * 2 ^ i * 2 ^ e < 2 * (den * 2 ^ j)) :
    2 ^ 52 * den ≤ num * 2 ^ k ∧ num * 2 ^ k < 2 ^ 53 * den := by
  have hpower : num * 2 ^ k * 2 ^ j = 2 ^ 52 * (num * 2 ^ i * 2 ^ e) := by
    rw [mul_assoc, ← Nat.pow_add, hk, Nat.pow_add, Nat.pow_add]
    ring
  constructor
  · refine Nat.le_of_mul_le_mul_right ?_ (Nat.two_pow_pos j)
    rw [hpower, mul_assoc]
    exact Nat.mul_le_mul_left _ hlow
  · refine Nat.lt_of_mul_lt_mul_right (a := 2 ^ j) ?_
    rw [hpower]
    calc 2 ^ 52 * (num * 2 ^ i * 2 ^ e) < 2 ^ 52 * (2 * (den * 2 ^ j)) :=
          Nat.mul_lt_mul_of_pos_left hhigh (by decide)
      _ = 2 ^ 53 * den * 2 ^ j := by ring

theorem exists_places (hnum : 0 < num) (hnum' : num < 2 ^ 52) (hden : 0 < den)
    (hden' : den < 2 ^ 52) :
    ∃ n d k : Nat, scaleTwo num den (-((num.log2 : Int) - den.log2)) = (n, d) ∧ 0 < k ∧ k < 1075 ∧
      (if n < d then (num.log2 : Int) - den.log2 - 1 else (num.log2 : Int) - den.log2) = 52 - k ∧
      2 ^ 52 * den ≤ num * 2 ^ k ∧ num * 2 ^ k < 2 ^ 53 * den := by
  obtain ⟨i, j, hscale, hestimate, hn, hd⟩ := exists_scaled hnum hden
  have hnumlog : num.log2 < 52 := (Nat.log2_lt hnum.ne').2 hnum'
  have hdenlog : den.log2 < 52 := (Nat.log2_lt hden.ne').2 hden'
  by_cases hless : num * 2 ^ i < den * 2 ^ j
  · refine ⟨_, _, 53 + i - j, hscale, by omega, by omega, by rw [if_pos hless]; omega, ?_⟩
    exact fits i j 1 (by omega) (by omega) (by omega)
  · refine ⟨_, _, 52 + i - j, hscale, by omega, by omega, by rw [if_neg hless]; omega, ?_⟩
    exact fits i j 0 (by omega) (by omega) (by omega)

theorem roundHalfEven_bounds (hden : 0 < den) (hlow : 2 ^ 52 * den ≤ num)
    (hhigh : num < 2 ^ 53 * den) :
    2 ^ 52 ≤ roundHalfEven num den ∧ roundHalfEven num den ≤ 2 ^ 53 := by
  have hquotient : 2 ^ 52 ≤ num / den ∧ num / den < 2 ^ 53 :=
    ⟨(Nat.le_div_iff_mul_le hden).2 hlow, (Nat.div_lt_iff_lt_mul hden).2 hhigh⟩
  have hcases : roundHalfEven num den = num / den ∨ roundHalfEven num den = num / den + 1 := by
    simp only [roundHalfEven]
    split_ifs <;> simp
  omega

/-- The double of a ratio of small counts. Where rounding goes up to the next power of two, there
is one binary place less. -/
theorem exists_nearest (hnum : 0 < num) (hnum' : num < 2 ^ 52) (hden : 0 < den)
    (hden' : den < 2 ^ 52) :
    ∃ m k, k < 1075 ∧ IsNearest num den m k ∧
      ofRatio false num den = Float.ofBits (bitsOf m k).toUInt64 := by
  obtain ⟨n, d, k, hscale, hpos, hk, htop, hlow, hhigh⟩ := exists_places hnum hnum' hden hden'
  obtain ⟨hup, hdown⟩ := roundHalfEven_near (num * 2 ^ k) hden
  have hm := roundHalfEven_bounds hden hlow hhigh
  have hq : max ((52 : Int) - k - 52) minExponent = -k := by
    rw [minExponent]
    omega
  have hscale' : scaleTwo num den (- -(k : Int)) = (num * 2 ^ k, den) := by
    simp [scaleTwo, powerOfTwo]
  rw [ofRatio]
  simp only [hnum.ne', if_false, hscale, htop, hq, hscale']
  generalize roundHalfEven (num * 2 ^ k) den = m at hup hdown hm
  have hpower (n : Nat) : powerOfTwo n = 2 ^ n := rfl
  simp only [hpower, Bool.false_eq_true, if_false, zero_add]
  by_cases hcarry : m = 2 ^ 53
  · subst hcarry
    have hhalf : num * 2 ^ k = 2 * (num * 2 ^ (k - 1)) := by
      rw [← Nat.pow_pred_mul hpos]
      ring
    rw [hhalf] at hup hdown
    refine ⟨2 ^ 52, k - 1, by omega, ⟨by decide, by omega, by omega⟩, ?_⟩
    rw [if_pos rfl]
    dsimp only
    rw [if_neg (lt_irrefl _), if_neg (by omega),
      show (-(k : Int) + 1 + 1075).toNat = 1075 - (k - 1) by omega]
    rfl
  · refine ⟨m, k, hk, ⟨by omega, by omega, by omega⟩, ?_⟩
    rw [if_neg hcarry]
    dsimp only
    rw [if_neg (by omega), if_neg (by omega), show (-(k : Int) + 1075).toNat = 1075 - k by omega]
    rfl

/-- Two ratios near one double are within one unit of each other. For a smaller divisor that would
not be near enough. -/
theorem IsNearest.den_le {d d' m k : Nat} (h : IsNearest num d m k) (h' : IsNearest num d' m k)
    (hd : d < 2 ^ 52) : d ≤ d' := by
  by_contra hlt
  have hlower := h.lower
  have hupper := h'.upper
  have hm := h.significand.1
  have hnext : d' + 1 ≤ d := by omega
  have hgap : m * (d' + 1) ≤ m * d := Nat.mul_le_mul_left m hnext
  rw [Nat.mul_succ] at hgap
  omega

/-- Two different divisors give two different doubles. -/
theorem ofRatio_inj (hnum : 0 < num) (hnum' : num < 2 ^ 52) {d d' : Nat} (hd : 0 < d)
    (hdlt : d < 2 ^ 52) (hd' : 0 < d') (hdlt' : d' < 2 ^ 52)
    (h : ofRatio false num d = ofRatio false num d') : d = d' := by
  obtain ⟨m, k, hk, hnear, heq⟩ := exists_nearest hnum hnum' hd hdlt
  obtain ⟨m', k', hk', hnear', heq'⟩ := exists_nearest hnum hnum' hd' hdlt'
  rw [heq, heq'] at h
  have hbits := eq_of_ofBits_eq (isNormal_bitsOf hnear.significand hk)
    (isNormal_bitsOf hnear'.significand hk') h
  obtain ⟨rfl, rfl⟩ := bitsOf_inj hnear.significand hnear'.significand hk hk' hbits
  exact le_antisymm (hnear.den_le hnear' hdlt) (hnear'.den_le hnear hdlt')

end Ratio

end Binary64
end DeclScan
