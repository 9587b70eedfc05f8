import DeclScan.Proofs.Text.Found

/-!
# DeclScan.Proofs.Text.Blanks

Blanks around a text. A *pad* is any number of blanks, a *gap* at least one. Reading past either of
them ends at the first character that is no blank.

* `trimStart_append`, `trimEnd_append`, `trim_padded`: trimming takes pads and nothing else.
* `map_trim_splitOn_trim`: a text that is trimmed is cut into the same pieces, but for blanks.
* `dropBlanks?_append`: reading past a gap.
* `splitBefore?_eq_some_iff`, `splitBefore?_eq_none_iff`: cutting at the first occurrence of a text.
-/

namespace DeclScan
namespace Text

/-- Any number of blanks. -/
def IsPad (s : List Char) : Prop := ∀ c ∈ s, isBlank c = true

/-- One or more blanks. -/
structure IsGap (s : List Char) : Prop where
  ne_nil : s ≠ []
  pad : IsPad s

instance (s : List Char) : Decidable (IsPad s) :=
  decidable_of_iff (s.all isBlank = true) List.all_eq_true

instance (s : List Char) : Decidable (IsGap s) :=
  decidable_of_iff (s ≠ [] ∧ IsPad s) ⟨fun h => ⟨h.1, h.2⟩, fun h => ⟨h.ne_nil, h.pad⟩⟩

/-- The text does not begin with a blank. -/
def IsSolid (s : List Char) : Prop := s.head?.all (fun c => !isBlank c) = true

instance (s : List Char) : Decidable (IsSolid s) := inferInstanceAs (Decidable (_ = _))

variable {pad gap s t : List Char} {c : Char}

theorem isPad_nil : IsPad [] := by simp [IsPad]

theorem isPad_space : IsPad [' '] := by decide

theorem isGap_space : IsGap [' '] := by decide

theorem IsPad.append (hs : IsPad s) (ht : IsPad t) : IsPad (s ++ t) := by
  intro c hc
  rcases List.mem_append.1 hc with hc | hc
  · exact hs c hc
  · exact ht c hc

theorem IsPad.suffix (h : IsPad s) (ht : t <:+ s) : IsPad t := fun c hc => h c (ht.mem hc)

theorem IsGap.exists_cons (h : IsGap gap) : ∃ b rest, gap = b :: rest ∧ isBlank b = true := by
  obtain ⟨b, rest, rfl⟩ := List.exists_cons_of_ne_nil h.ne_nil
  exact ⟨b, rest, rfl, h.pad b List.mem_cons_self⟩

theorem isSolid_cons (h : isBlank c = false) (s : List Char) : IsSolid (c :: s) := by
  simp [IsSolid, h]

theorem span_append {test : Char → Bool} (hs : ∀ c ∈ s, test c = true)
    (ht : ∀ c ∈ t.head?, test c = false) :
    (s ++ t).takeWhile test = s ∧ (s ++ t).dropWhile test = t := by
  rw [List.takeWhile_append_of_pos hs, List.dropWhile_append_of_pos hs]
  cases t with
  | nil => exact ⟨List.append_nil s, rfl⟩
  | cons c t =>
    have hc : ¬ test c = true := by simp [ht c rfl]
    rw [List.takeWhile_cons_of_neg hc, List.dropWhile_cons_of_neg hc, List.append_nil]
    exact ⟨rfl, rfl⟩

/-! ## Trimming -/

theorem trimStart_append (h : IsPad pad) (s : List Char) : trimStart (pad ++ s) = trimStart s :=
  List.dropWhile_append_of_pos h

theorem trimStart_of_isSolid (h : IsSolid s) : trimStart s = s := by
  cases s with
  | nil => rfl
  | cons c s =>
    have hc : isBlank c = false := by simpa [IsSolid] using h
    simp [trimStart, hc]

theorem trimStart_padded (h : IsPad pad) (hs : IsSolid s) : trimStart (pad ++ s) = s := by
  rw [trimStart_append h, trimStart_of_isSolid hs]

theorem trimStart_append_cons (hc : isBlank c = false) (s t : List Char) :
    trimStart (s ++ c :: t) = trimStart s ++ c :: t := by
  induction s with
  | nil => simp [trimStart, hc]
  | cons d s ih =>
    by_cases hd : isBlank d = true
    · simpa [trimStart, hd] using ih
    · simp [trimStart, hd]

theorem isSolid_trimStart (s : List Char) : IsSolid (trimStart s) := head?_dropWhile isBlank s

theorem trimStart_trimStart (s : List Char) : trimStart (trimStart s) = trimStart s :=
  trimStart_of_isSolid (isSolid_trimStart s)

theorem trimEnd_append (h : IsPad pad) (s : List Char) : trimEnd (s ++ pad) = trimEnd s := by
  have hreverse : ∀ c ∈ pad.reverse, isBlank c = true := fun c hc => h c (List.mem_reverse.1 hc)
  rw [trimEnd, List.reverse_append, List.dropWhile_append_of_pos hreverse, trimEnd]

theorem trimEnd_append_cons (hc : isBlank c = false) (s t : List Char) :
    trimEnd (s ++ c :: t) = s ++ c :: trimEnd t := by
  have h := trimStart_append_cons hc t.reverse s.reverse
  simp only [trimStart] at h
  simp [trimEnd, h]

theorem trimEnd_of_isSolid (h : IsSolid s.reverse) : trimEnd s = s := by
  have := trimStart_of_isSolid h
  rw [trimStart] at this
  rw [trimEnd, this, List.reverse_reverse]

theorem trim_append (h : IsPad pad) (s : List Char) : trim (s ++ pad) = trim s := by
  obtain ⟨blanks, hs, hblanks⟩ := eq_append_trimStart s
  rw [trim, trim]
  cases hsolid : trimStart s with
  | nil =>
    rw [hsolid, List.append_nil] at hs
    have hall : IsPad (s ++ pad) := IsPad.append (hs ▸ hblanks) h
    rw [trimStart, List.dropWhile_eq_nil_iff.2 hall]
  | cons c r =>
    rw [hsolid] at hs
    have hfirst := isSolid_trimStart s
    rw [hsolid] at hfirst
    have hc : isBlank c = false := by simpa [IsSolid] using hfirst
    have hmore : trimStart (s ++ pad) = c :: r ++ pad := by
      rw [hs, List.append_assoc, trimStart_append hblanks, List.cons_append,
        trimStart_of_isSolid (isSolid_cons hc _)]
    rw [hmore, trimEnd_append h]

/-- Trimming takes the pads on both sides of a text that neither begins nor ends with a blank. -/
theorem trim_padded {before behind : List Char} (hbefore : IsPad before) (hbehind : IsPad behind)
    (hs : IsSolid s) (hend : IsSolid s.reverse) : trim (before ++ s ++ behind) = s := by
  rw [trim_append hbehind, trim, trimStart_padded hbefore hs, trimEnd_of_isSolid hend]

/-! ## Cutting and trimming -/

theorem map_trim_splitFrom_append {sep : Char} (hsep : isBlank sep = false) (h : IsPad pad)
    (piece s : List Char) :
    (splitFrom sep piece (s ++ pad)).map trim = (splitFrom sep piece s).map trim := by
  induction s generalizing piece with
  | nil =>
    have hnot : sep ∉ pad := by
      intro hmem
      rw [h sep hmem] at hsep
      cases hsep
    rw [List.nil_append, splitFrom_of_not_mem hnot, splitFrom]
    simp only [List.map_cons, List.map_nil, trim_append h]
  | cons c s ih =>
    rw [List.cons_append, splitFrom, splitFrom]
    split
    · rw [List.map_cons, List.map_cons, ih]
    · exact ih (c :: piece)

theorem map_trim_splitOn_append {sep : Char} (hsep : isBlank sep = false) (h : IsPad pad)
    (s : List Char) : (splitOn sep (s ++ pad)).map trim = (splitOn sep s).map trim :=
  map_trim_splitFrom_append hsep h [] s

theorem map_trim_splitFrom_blank {b : Char} (hb : isBlank b = true) (sep : Char)
    (piece s : List Char) :
    (splitFrom sep (piece ++ [b]) s).map trim = (splitFrom sep piece s).map trim := by
  have htrim : ∀ t, trim (b :: t) = trim t := by
    intro t
    rw [trim, trim, trimStart, List.dropWhile_cons_of_pos hb, trimStart]
  induction s generalizing piece with
  | nil => simp [splitFrom, htrim]
  | cons c s ih =>
    rw [splitFrom, splitFrom]
    split
    · simp [htrim]
    · exact ih (c :: piece)

theorem map_trim_splitOn_trimStart {sep : Char} (hsep : isBlank sep = false) (s : List Char) :
    (splitOn sep (trimStart s)).map trim = (splitOn sep s).map trim := by
  induction s with
  | nil => rfl
  | cons b s ih =>
    by_cases hb : isBlank b = true
    · have hne : b ≠ sep := by
        rintro rfl
        rw [hb] at hsep
        cases hsep
      have hfirst := map_trim_splitFrom_blank hb sep [] s
      rw [trimStart, List.dropWhile_cons_of_pos hb, splitOn, splitOn, splitFrom, if_neg hne]
      exact ih.trans hfirst.symm
    · rw [trimStart, List.dropWhile_cons_of_neg hb]

theorem map_trim_splitOn_trim {sep : Char} (hsep : isBlank sep = false) (s : List Char) :
    (splitOn sep (trim s)).map trim = (splitOn sep s).map trim := by
  obtain ⟨blanks, hs, hblanks⟩ := eq_trimEnd_append (trimStart s)
  have hend := map_trim_splitOn_append hsep hblanks (trimEnd (trimStart s))
  rw [← hs, map_trim_splitOn_trimStart hsep] at hend
  exact hend.symm

/-! ## Reading past a gap -/

theorem dropBlanks?_append (h : IsGap gap) (s : List Char) :
    dropBlanks? (gap ++ s) = some (trimStart s) := by
  obtain ⟨b, rest, rfl, hb⟩ := h.exists_cons
  have hrest : IsPad rest := h.pad.suffix (List.suffix_cons b rest)
  rw [List.cons_append, dropBlanks?, if_pos hb, trimStart_append hrest]

theorem dropBlanks?_padded (h : IsGap gap) (hs : IsSolid s) : dropBlanks? (gap ++ s) = some s := by
  rw [dropBlanks?_append h, trimStart_of_isSolid hs]

theorem dropBlanks?_of_isSolid (h : IsSolid s) : dropBlanks? s = none := by
  cases s with
  | nil => rfl
  | cons c s =>
    have hc : isBlank c = false := by simpa [IsSolid] using h
    simp [dropBlanks?, hc]

theorem exists_gap_of_dropBlanks? {r : List Char} (h : dropBlanks? s = some r) :
    ∃ gap, IsGap gap ∧ s = gap ++ r := by
  cases s with
  | nil => cases h
  | cons b s =>
    rw [dropBlanks?] at h
    split at h
    · rename_i hb
      cases h
      obtain ⟨pad, hs, hpad⟩ := eq_append_trimStart s
      have hgap : IsPad (b :: pad) := by
        rw [IsPad, List.forall_mem_cons]
        exact ⟨hb, hpad⟩
      exact ⟨b :: pad, ⟨List.cons_ne_nil _ _, hgap⟩, by rw [List.cons_append, ← hs]⟩
    · cases h

/-! ## Cutting at a text -/

theorem startsWith_iff {literal : List Char} : startsWith literal s = true ↔ literal <+: s := by
  rw [startsWith, Option.isSome_iff_exists]
  constructor
  · rintro ⟨rest, h⟩
    exact ⟨rest, (eq_append_of_dropLiteral h).symm⟩
  · rintro ⟨rest, rfl⟩
    exact ⟨rest, dropLiteral_append literal rest⟩

/-- The cut is at an occurrence of the text, and none begins before it. -/
theorem splitBefore?_eq_some_iff {literal before rest : List Char} (hne : literal ≠ []) :
    splitBefore? literal s = some (before, rest) ↔
      s = before ++ rest ∧ literal <+: rest ∧
        ∀ u v, before = u ++ v → v ≠ [] → ¬ literal <+: v ++ rest := by
  induction s generalizing before with
  | nil =>
    rw [splitBefore?, if_neg hne]
    constructor
    · intro h
      cases h
    · rintro ⟨hs, hrest, -⟩
      obtain ⟨rfl, rfl⟩ := List.append_eq_nil_iff.1 hs.symm
      exact absurd (List.prefix_nil.1 hrest) hne
  | cons c s ih =>
    rw [splitBefore?]
    by_cases hstarts : startsWith literal (c :: s) = true
    · rw [if_pos hstarts]
      constructor
      · intro h
        cases h
        refine ⟨rfl, startsWith_iff.1 hstarts, ?_⟩
        intro u v huv hv
        exact absurd (List.append_eq_nil_iff.1 huv.symm).2 hv
      · rintro ⟨hs, -, hfirst⟩
        cases before with
        | nil => simp [hs]
        | cons d before =>
          have := hfirst [] (d :: before) rfl (List.cons_ne_nil _ _)
          rw [← hs] at this
          exact absurd (startsWith_iff.1 hstarts) this
    · rw [if_neg hstarts, Option.map_eq_some_iff]
      constructor
      · rintro ⟨⟨inner, rest'⟩, hinner, heq⟩
        cases heq
        obtain ⟨rfl, hrest, hfirst⟩ := ih.1 hinner
        refine ⟨rfl, hrest, ?_⟩
        intro u v huv hv
        cases u with
        | nil =>
          obtain rfl : c :: inner = v := huv
          exact fun h => hstarts (startsWith_iff.2 h)
        | cons d u => exact hfirst u v (List.cons.inj huv).2 hv
      · rintro ⟨hs, hrest, hfirst⟩
        cases before with
        | nil =>
          obtain rfl : c :: s = rest := hs
          exact absurd (startsWith_iff.2 hrest) hstarts
        | cons d before =>
          obtain ⟨rfl, rfl⟩ := List.cons.inj hs
          refine ⟨(before, rest), ih.2 ⟨rfl, hrest, ?_⟩, rfl⟩
          intro u v huv
          exact hfirst (c :: u) v (by rw [huv, List.cons_append])

theorem splitBefore?_eq_none_iff {literal : List Char} (hne : literal ≠ []) :
    splitBefore? literal s = none ↔ ¬ literal <:+: s := by
  induction s with
  | nil => simp [splitBefore?, hne, List.infix_nil]
  | cons c s ih =>
    rw [splitBefore?, List.infix_cons_iff, not_or, ← ih, ← startsWith_iff]
    by_cases hstarts : startsWith literal (c :: s) = true
    · simp [hstarts]
    · simp [hstarts]

end Text
end DeclScan
