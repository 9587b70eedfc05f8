import DeclScan.Path
import Mathlib.Tactic

/-!
# DeclScan.Proofs.Text.Lower

Lower case once is lower case for good, so it does not matter how often an extension is put in lower
case before it is looked up.

* `Text.capitalCodes`, `Text.smallCodes`: the letters that change, and those they change to.
  `smallCodes_disjoint` says that they are different ones; sets of codes are compared as bits of one
  number, which is quick even for long lists.
* `Text.IsLower`: characters that lower case leaves alone; all that it writes are such ones.
* `Text.lower_lower`, `Path.lower_lower`.
* `Text.lower_append_underscore`: lower case on both sides of an underscore.
-/

namespace DeclScan
namespace Text

/-! ## Sets of codes as numbers -/

/-- The number that has a bit for each of some codes. -/
def codeBits (codes : List Nat) : Nat := codes.foldr (fun n bits => bits ||| 1 <<< n) 0

theorem testBit_codeBits (codes : List Nat) (n : Nat) :
    (codeBits codes).testBit n = decide (n ∈ codes) := by
  induction codes with
  | nil => simp [codeBits]
  | cons code codes ih =>
    have hcons : codeBits (code :: codes) = codeBits codes ||| 1 <<< code := rfl
    rw [hcons, Nat.testBit_or, ih, Nat.one_shiftLeft, Nat.testBit_two_pow]
    by_cases h : n = code
    · simp [h]
    · simp [h, Ne.symm h]

theorem not_mem_of_codeBits_and_eq_zero {codes others : List Nat}
    (h : codeBits codes &&& codeBits others = 0) {n : Nat} (hn : n ∈ codes) : n ∉ others := by
  intro hother
  have hbit : (codeBits codes &&& codeBits others).testBit n = true := by
    simp [Nat.testBit_and, testBit_codeBits, hn, hother]
  rw [h, Nat.zero_testBit] at hbit
  cases hbit

/-! ## Letters that change -/

/-- The letters of a run of upper case letters with what becomes of them. -/
def runPairs : Nat × Nat × Nat × Int → List (Nat × Nat)
  | (first, last, stride, distance) =>
    (List.range ((last - first) / stride + 1)).map fun i =>
      (first + stride * i, (((first + stride * i : Nat) : Int) + distance).toNat)

def casePairs : List (Nat × Nat) := lowercaseRuns.toList.flatMap runPairs

/-- The letters that lower case changes: the capitals of ASCII, the two that are not changed
everywhere alike, and those of the table. -/
def capitalCodes : List Nat :=
  (List.range 26).map (65 + ·) ++ [0x130, 0x3A3] ++ casePairs.map Prod.fst

/-- What single letters are changed to; what is no character becomes the character zero. -/
def smallCodes : List Nat := 0 :: (List.range 26).map (97 + ·) ++ casePairs.map Prod.snd

theorem smallCodes_disjoint {n : Nat} (h : n ∈ smallCodes) : n ∉ capitalCodes :=
  not_mem_of_codeBits_and_eq_zero (by decide +kernel) h

theorem mem_casePairs {run : Nat × Nat × Nat × Int} (hrun : run ∈ lowercaseRuns.toList) {n : Nat}
    (hfirst : run.1 ≤ n) (hlast : n ≤ run.2.1) (hstride : (n - run.1) % run.2.2.1 = 0) :
    (n, ((n : Int) + run.2.2.2).toNat) ∈ casePairs := by
  obtain ⟨first, last, stride, distance⟩ := run
  simp only at hfirst hlast hstride
  refine List.mem_flatMap.2 ⟨_, hrun, List.mem_map.2 ⟨(n - first) / stride, ?_, ?_⟩⟩
  · have hle : (n - first) / stride ≤ (last - first) / stride :=
      Nat.div_le_div_right (by omega)
    exact List.mem_range.2 (by omega)
  · have hback : first + stride * ((n - first) / stride) = n := by
      rw [Nat.mul_div_cancel' (Nat.dvd_of_mod_eq_zero hstride)]
      omega
    rw [hback]

theorem lowerChar_cases (c : Char) :
    lowerChar c = c ∨
      c.toNat ∈ capitalCodes ∧ ∃ n ∈ smallCodes, lowerChar c = Char.ofNat n := by
  simp only [lowerChar]
  split
  · rename_i hcapital
    simp only [Bool.and_eq_true, decide_eq_true_eq, Char.le_def, UInt32.le_iff_toNat_le] at hcapital
    have hA : ('A' : Char).val.toNat = 65 := rfl
    have hZ : ('Z' : Char).val.toNat = 90 := rfl
    have hc : c.val.toNat = c.toNat := rfl
    refine .inr ⟨?_, c.toNat + 32, ?_, rfl⟩
    · simp only [capitalCodes, List.append_assoc]
      exact List.mem_append_left _ (List.mem_map.2 ⟨c.toNat - 65, List.mem_range.2 (by omega), by omega⟩)
    · simp only [smallCodes]
      exact List.mem_append_left _ (List.mem_cons_of_mem _
        (List.mem_map.2 ⟨c.toNat - 65, List.mem_range.2 (by omega), by omega⟩))
  · split
    · exact .inl rfl
    · split
      · rename_i first last stride distance hfind
        split
        · rename_i hstride
          have hrun := Array.mem_toList_iff.2 (Array.mem_of_find?_eq_some hfind)
          have hrange := Array.find?_some hfind
          simp only [Bool.and_eq_true, decide_eq_true_eq] at hrange
          have hpair := mem_casePairs hrun hrange.1 hrange.2 hstride
          refine .inr ⟨?_, _, ?_, rfl⟩
          · exact List.mem_append_right _ (List.mem_map.2 ⟨_, hpair, rfl⟩)
          · exact List.mem_append_right _ (List.mem_map.2 ⟨_, hpair, rfl⟩)
        · exact .inl rfl
      · exact .inl rfl

/-! ## Lower case twice -/

/-- A character that lower case leaves as it is, wherever it stands. -/
def IsLower (c : Char) : Prop := c ≠ '\u0130' ∧ c ≠ '\u03A3' ∧ lowerChar c = c

theorem isLower_of_not_mem {c : Char} (h : c.toNat ∉ capitalCodes) : IsLower c := by
  refine ⟨?_, ?_, ?_⟩
  · rintro rfl
    exact h (by decide +kernel)
  · rintro rfl
    exact h (by decide +kernel)
  · rcases lowerChar_cases c with hsame | ⟨hcapital, -⟩
    · exact hsame
    · exact absurd hcapital h

theorem toNat_ofNat_mem {n : Nat} (h : n ∈ smallCodes) : (Char.ofNat n).toNat ∈ smallCodes := by
  by_cases hn : n.isValidChar
  · have hself : (Char.ofNat n).toNat = n := by
      rw [Char.ofNat, dif_pos hn]
      rfl
    rwa [hself]
  · have hzero : (Char.ofNat n).toNat = 0 := by
      rw [Char.ofNat, dif_neg hn]
      rfl
    rw [hzero]
    exact List.mem_append_left _ List.mem_cons_self

theorem isLower_lowerChar {c : Char} (hI : c ≠ '\u0130') (hS : c ≠ '\u03A3') :
    IsLower (lowerChar c) := by
  rcases lowerChar_cases c with hsame | ⟨-, n, hn, heq⟩
  · rw [hsame]
    exact ⟨hI, hS, hsame⟩
  · rw [heq]
    exact isLower_of_not_mem (smallCodes_disjoint (toNat_ofNat_mem hn))

/-- What the two letters are changed to that are not changed everywhere alike. -/
def specialLetters : List Char := ['i', '\u0307'] ++ ['\u03C2', '\u03C3']

theorem isLower_of_mem_specialLetters {c : Char} (h : c ∈ specialLetters) : IsLower c := by
  have hdisjoint : codeBits (specialLetters.map Char.toNat) &&& codeBits capitalCodes = 0 := by
    decide +kernel
  exact isLower_of_not_mem (not_mem_of_codeBits_and_eq_zero hdisjoint (List.mem_map_of_mem h))

theorem isLower_of_mem_lowerFrom {before s : List Char} {c : Char} (h : c ∈ lowerFrom before s) :
    IsLower c := by
  induction s generalizing before with
  | nil => cases h
  | cons d s ih =>
    rcases List.mem_append.1 h with hhead | htail
    · split at hhead
      · exact isLower_of_mem_specialLetters (List.mem_append_left _ hhead)
      · split at hhead
        · refine isLower_of_mem_specialLetters (List.mem_append_right _ ?_)
          split at hhead
          · exact List.mem_cons.2 (.inl (List.mem_singleton.1 hhead))
          · exact List.mem_cons_of_mem _ hhead
        · rename_i hI hS
          rw [List.mem_singleton.1 hhead]
          exact isLower_lowerChar hI hS
    · exact ih htail

theorem lowerFrom_eq_self {s : List Char} (h : ∀ c ∈ s, IsLower c) (before : List Char) :
    lowerFrom before s = s := by
  induction s generalizing before with
  | nil => rfl
  | cons c s ih =>
    obtain ⟨hI, hS, hsame⟩ := h c List.mem_cons_self
    simp only [lowerFrom, if_neg hI, if_neg hS, hsame]
    rw [ih (fun d hd => h d (List.mem_cons_of_mem c hd))]
    rfl

/-- Lower case a second time changes nothing. -/
theorem lower_lower (s : List Char) : lower (lower s) = lower s :=
  lowerFrom_eq_self (fun _ h => isLower_of_mem_lowerFrom h) []

/-! ## Lower case of parts -/

theorem lowerChar_underscore : lowerChar '_' = '_' := by decide +kernel

theorem lowerChar_eq_underscore_iff {c : Char} : lowerChar c = '_' ↔ c = '_' := by
  refine ⟨fun h => ?_, fun h => h ▸ lowerChar_underscore⟩
  rcases lowerChar_cases c with hsame | ⟨-, n, hn, heq⟩
  · rw [← hsame, h]
  · have hmem : ('_' : Char).toNat ∈ smallCodes := h ▸ heq ▸ toNat_ofNat_mem hn
    exact absurd hmem (by decide +kernel)

theorem casedNext_append_underscore (s t : List Char) :
    casedNext (s ++ '_' :: t) = casedNext s := by
  have hstop : isCaseIgnorable '_' = false := by decide +kernel
  have huncased : isCased '_' = false := by decide +kernel
  induction s with
  | nil => simp [casedNext, hstop, huncased]
  | cons c s ih =>
    simp only [casedNext, List.cons_append, List.dropWhile_cons] at ih ⊢
    by_cases hc : isCaseIgnorable c = true
    · simpa only [if_pos hc] using ih
    · simp only [if_neg hc]

theorem lowerFrom_append_underscore (before more s : List Char) :
    lowerFrom (before ++ '_' :: more) s = lowerFrom before s := by
  induction s generalizing before with
  | nil => rfl
  | cons c s ih =>
    rw [lowerFrom, lowerFrom, casedNext_append_underscore, ← List.cons_append, ih]

/-- An underscore parts a text, and the lower case of each part does not depend on the other. -/
theorem lower_append_underscore (s t : List Char) :
    lower (s ++ '_' :: t) = lower s ++ '_' :: lower t := by
  suffices hfrom : ∀ before, lowerFrom before (s ++ '_' :: t) = lowerFrom before s ++ '_' :: lower t
    from hfrom []
  induction s with
  | nil =>
    intro before
    have hrest : lowerFrom ('_' :: before) t = lower t := lowerFrom_append_underscore [] before t
    simp only [List.nil_append, lowerFrom, hrest, lowerChar_underscore]
    rfl
  | cons c s ih =>
    intro before
    rw [List.cons_append, lowerFrom, lowerFrom, casedNext_append_underscore, ih, List.append_assoc]

theorem underscore_mem_lowerFrom {before s : List Char} : '_' ∈ lowerFrom before s ↔ '_' ∈ s := by
  induction s generalizing before with
  | nil => simp [lowerFrom]
  | cons c s ih =>
    rw [lowerFrom, List.mem_append, ih, List.mem_cons]
    refine or_congr_left ?_
    split
    · rename_i hI
      simp [hI]
    · split
      · rename_i hS
        split <;> simp [hS]
      · rw [List.mem_singleton, eq_comm, lowerChar_eq_underscore_iff, eq_comm]

end Text

@[simp] theorem Path.lower_lower (s : String) : Path.lower (Path.lower s) = Path.lower s := by
  simp only [Path.lower, String.toList_ofList, Text.lower_lower]

end DeclScan
