import DeclScan.Proofs.Text.Blanks

/-!
# DeclScan.Proofs.Text.Words

Looking for a word in a text of words that are set apart. A character that is not in the word sets two
texts apart: the word stands in one of them, and not across.

* `infix_append_cons_iff`, `infix_append_gap_iff`: where a word can stand.
* `exists_findFrom?_eq`: a search that goes over other words finds the word at its place if none of
  them holds it, and before it otherwise.
-/

namespace DeclScan
namespace Text

/-- None of the characters is in the word. -/
def IsApart (word s : List Char) : Prop := ∀ c ∈ s, c ∉ word

variable {word s t gap : List Char} {c : Char}

theorem IsApart.append (hs : IsApart word s) (ht : IsApart word t) : IsApart word (s ++ t) := by
  intro c hc
  rcases List.mem_append.1 hc with hc | hc
  · exact hs c hc
  · exact ht c hc

theorem isApart_singleton (h : c ∉ word) : IsApart word [c] := by
  intro d hd
  rwa [List.mem_singleton.1 hd]

/-- A character that is not in the word sets two texts apart. -/
theorem infix_append_cons_iff (h : c ∉ word) :
    word <:+: s ++ c :: t ↔ word <:+: s ∨ word <:+: t := by
  constructor
  · rintro ⟨u, v, heq⟩
    rcases List.append_eq_append_iff.1 heq with ⟨m, hs, -⟩ | ⟨m, huword, hm⟩
    · exact Or.inl ⟨u, m, hs.symm⟩
    cases m with
    | nil =>
      rw [List.append_nil] at huword
      exact Or.inl ⟨u, [], by rw [List.append_nil, huword]⟩
    | cons d m =>
      obtain ⟨rfl, rfl⟩ := List.cons.inj hm
      rcases List.append_eq_append_iff.1 huword with ⟨x, -, hword⟩ | ⟨x, -, hx⟩
      · exact absurd (hword ▸ List.mem_append_right x List.mem_cons_self) h
      · cases x with
        | nil =>
          obtain rfl : _ :: m = word := hx
          exact absurd List.mem_cons_self h
        | cons d x =>
          obtain ⟨rfl, rfl⟩ := List.cons.inj hx
          exact Or.inr ⟨x, v, rfl⟩
  · rintro (hs | ht)
    · exact hs.trans (List.prefix_append s _).isInfix
    · exact ht.trans ((List.suffix_cons c t).trans (List.suffix_append s _)).isInfix

theorem infix_apart_append_iff (h : IsApart word gap) : word <:+: gap ++ t ↔ word <:+: t := by
  induction gap with
  | nil => rfl
  | cons c gap ih =>
    have hc : c ∉ word := h c List.mem_cons_self
    have hfirst := infix_append_cons_iff (s := []) (t := gap ++ t) hc
    rw [List.nil_append] at hfirst
    rw [List.cons_append, hfirst, ih fun d hd => h d (List.mem_cons_of_mem _ hd), or_iff_right_iff_imp]
    intro hnil
    rw [List.infix_nil.1 hnil]
    exact List.nil_infix

theorem infix_append_gap_iff (hne : gap ≠ []) (h : IsApart word gap) :
    word <:+: s ++ (gap ++ t) ↔ word <:+: s ∨ word <:+: t := by
  obtain ⟨c, gap, rfl⟩ := List.exists_cons_of_ne_nil hne
  rw [List.cons_append, infix_append_cons_iff (h c List.mem_cons_self),
    infix_apart_append_iff fun d hd => h d (List.mem_cons_of_mem _ hd)]

/-! ## Looking for a word -/

theorem exists_offsetOf?_eq (word s t : List Char) (start : Nat) :
    ∃ i ≤ s.length, offsetOf? word start (s ++ (word ++ t)) = some (start + i) ∧
      (i = s.length ↔ ∀ u v, s = u ++ v → v ≠ [] → ¬ word <+: v ++ (word ++ t)) := by
  induction s generalizing start with
  | nil =>
    refine ⟨0, Nat.le_refl 0, ?_, by simp⟩
    have hstarts : startsWith word (word ++ t) = true := startsWith_iff.2 (List.prefix_append word t)
    rw [List.nil_append]
    cases hword : word ++ t with
    | nil =>
      rw [offsetOf?, if_pos (List.append_eq_nil_iff.1 hword).1]
      rfl
    | cons c r =>
      rw [hword] at hstarts
      rw [offsetOf?, if_pos hstarts]
      rfl
  | cons c s ih =>
    rw [List.cons_append, offsetOf?]
    by_cases hstarts : startsWith word (c :: (s ++ (word ++ t))) = true
    · refine ⟨0, Nat.zero_le _, by rw [if_pos hstarts]; rfl, ?_⟩
      rw [List.length_cons]
      constructor
      · intro h
        cases h
      · intro h
        exact absurd (startsWith_iff.1 hstarts) (h [] (c :: s) rfl (List.cons_ne_nil _ _))
    · obtain ⟨i, hi, hfound, hfirst⟩ := ih (start + 1)
      refine ⟨i + 1, Nat.succ_le_succ hi, ?_, ?_⟩
      · rw [if_neg hstarts, hfound]
        congr 1
        omega
      rw [List.length_cons, Nat.add_right_cancel_iff, hfirst]
      constructor
      · intro h u v huv hv
        cases u with
        | nil =>
          obtain rfl : c :: s = v := huv
          exact fun hprefix => hstarts (startsWith_iff.2 hprefix)
        | cons d u => exact h u v (List.cons.inj huv).2 hv
      · intro h u v huv
        exact h (c :: u) v (by rw [huv, List.cons_append])

theorem exists_suffix_iff_infix (hne : word ≠ []) (hlast : ∀ c ∈ s.getLast?, c ∉ word)
    (t : List Char) :
    (∃ u v, s = u ++ v ∧ v ≠ [] ∧ word <+: v ++ t) ↔ word <:+: s := by
  constructor
  · rintro ⟨u, v, rfl, hv, hprefix⟩
    rcases List.prefix_or_prefix_of_prefix hprefix (List.prefix_append v t) with hword | hword
    · exact hword.isInfix.trans (List.suffix_append u v).isInfix
    · have hmem : v.getLast hv ∈ word := hword.mem (List.getLast_mem hv)
      refine absurd hmem (hlast _ ?_)
      rw [List.getLast?_append_of_ne_nil u hv, List.getLast?_eq_some_getLast hv]
      rfl
  · rintro ⟨u, v, rfl⟩
    refine ⟨u, word ++ v, List.append_assoc _ _ _, by simp [hne], ?_⟩
    rw [List.append_assoc]
    exact List.prefix_append _ _

/-- A word is looked for from a place before its own. It is found there if it is not in the text between,
and further to the left if it is. -/
theorem exists_findFrom?_eq {line : List Char} {start : Nat} (hne : word ≠ [])
    (hlast : ∀ c ∈ s.getLast?, c ∉ word) (hdrop : line.drop start = s ++ (word ++ t)) :
    ∃ i ≤ s.length, findFrom? word line start = some (start + i) ∧
      (i = s.length ↔ ¬ word <:+: s) := by
  obtain ⟨i, hi, hfound, hfirst⟩ := exists_offsetOf?_eq word s t start
  refine ⟨i, hi, by rw [findFrom?, hdrop, hfound], ?_⟩
  rw [hfirst, ← exists_suffix_iff_infix hne hlast (word ++ t)]
  constructor
  · rintro h ⟨u, v, huv, hv, hprefix⟩
    exact h u v huv hv hprefix
  · intro h u v huv hv hprefix
    exact h ⟨u, v, huv, hv, hprefix⟩

end Text
end DeclScan
