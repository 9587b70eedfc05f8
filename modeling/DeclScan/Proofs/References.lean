import DeclScan.Proofs.Occurrence

/-!
# DeclScan.Proofs.References

The references to a name are exactly the places where it stands delimited. A name of word characters
cannot begin again within one of its occurrences, since the character before the place would be one
of its own; so a search without overlap misses none.

* `Occurrence.StandsAt`: the name stands at an offset, without a word character beside it.
* `Occurrence.entryAt`: what is to be said of an offset, by the newlines before it and the line that
  it is in.
* `Occurrence.references_eq_entries`: every reference, in the order of the text.
-/

namespace DeclScan

open Text

/-! ## Lines around an offset -/

/-- The part of its line that stands before an offset. -/
def Text.lineBefore (content : List Char) (i : Nat) : List Char :=
  ((content.take i).reverse.takeWhile (· ≠ '\n')).reverse

/-- The part of its line that stands from an offset on. -/
def Text.lineBehind (content : List Char) (i : Nat) : List Char :=
  (content.drop i).takeWhile (· ≠ '\n')

theorem Text.newline_not_mem_lineBefore (content : List Char) (i : Nat) :
    '\n' ∉ lineBefore content i := by
  intro h
  have := List.mem_takeWhile_imp (List.mem_reverse.1 h)
  simp at this

namespace Position

theorem line_after (s : List Char) : (after s).line = s.count '\n' := by
  induction s using List.reverseRecOn with
  | nil => rfl
  | append_singleton s c ih =>
    rw [after_append, List.count_append, ih]
    by_cases hc : c = '\n' <;> simp [after, advance, start, hc]

theorem character_after {s : List Char} (h : s.getLast?.all (· = '\n') = true) :
    (after s).character = 0 := by
  rcases List.eq_nil_or_concat' s with rfl | ⟨t, c, rfl⟩
  · rfl
  · obtain rfl : c = '\n' := by simpa using h
    simp [after, advance]

end Position

namespace Document

open Position

theorem exists_lines_before (content : List Char) (i : Nat) :
    ∃ lines, content.take i = lines ++ lineBefore content i ∧
      after lines = ⟨(content.take i).count '\n', 0⟩ := by
  let lines := ((content.take i).reverse.dropWhile (· ≠ '\n')).reverse
  have hsplit : content.take i = lines ++ lineBefore content i := by
    rw [lineBefore, ← List.reverse_append, List.takeWhile_append_dropWhile, List.reverse_reverse]
  have hcount : (content.take i).count '\n' = lines.count '\n' := by
    rw [hsplit, List.count_append, List.count_eq_zero_of_not_mem (newline_not_mem_lineBefore _ _),
      Nat.add_zero]
  have hlast : lines.getLast?.all (· = '\n') = true := by
    have := head?_dropWhile (· ≠ '\n') (content.take i).reverse
    simpa [lines] using this
  refine ⟨lines, hsplit, ?_⟩
  rw [hcount, ← line_after, ← character_after hlast]

theorem positionAt_eq {content : List Char} {i : Nat} (hi : i ≤ content.length)
    (fileName : String) :
    (ofText content fileName).positionAt i =
      ⟨(content.take i).count '\n', (lineBefore content i).length⟩ := by
  obtain ⟨lines, hsplit, hafter⟩ := exists_lines_before content i
  have hposition := positionAt_length (content.take i) (content.drop i) fileName
  rw [List.take_append_drop, List.length_take_of_le hi] at hposition
  rw [hposition, hsplit, after_append_of_not_mem lines (newline_not_mem_lineBefore content i),
    hafter, ← hsplit, Nat.zero_add]

theorem lineAt_eq (content : List Char) (i : Nat) (fileName : String) :
    (ofText content fileName).lineAt ((content.take i).count '\n') =
      lineBefore content i ++ lineBehind content i := by
  obtain ⟨lines, hsplit, hafter⟩ := exists_lines_before content i
  have hline := drop_lineAt lines (lineBefore content i ++ content.drop i) fileName
  have hcontent : lines ++ (lineBefore content i ++ content.drop i) = content := by
    rw [← List.append_assoc, ← hsplit, List.take_append_drop]
  have hall : ∀ c ∈ lineBefore content i, decide (c ≠ '\n') = true := by
    intro c hc
    simpa using fun e : c = '\n' => newline_not_mem_lineBefore content i (e ▸ hc)
  rw [hcontent, hafter, List.drop_zero, List.takeWhile_append_of_pos hall] at hline
  exact hline

end Document

/-! ## Occurrences -/

namespace Occurrence

/-- The name stands at an offset of the content, and no word character comes before or behind. -/
def StandsAt (w : WordClass) (content name : List Char) (i : Nat) : Prop :=
  name <+: content.drop i ∧ (∀ c ∈ (content.take i).getLast?, w.mem c = false) ∧
    ∀ c ∈ (content.drop (i + name.length)).head?, w.mem c = false

instance (w : WordClass) (content name : List Char) (i : Nat) :
    Decidable (StandsAt w content name i) :=
  inferInstanceAs (Decidable (_ ∧ _ ∧ _))

/-- The reference to an occurrence of `length` characters at an offset: its line, its column, and up
to twenty characters of the line on either side of it. -/
def entryAt (content : List Char) (length : Nat) (lineOffset : Int) (i : Nat) : Reference where
  line := 1 + lineOffset + (content.take i).count '\n'
  character := (lineBefore content i).length
  context := String.ofList ((lineBefore content i).rtake 20 ++
    (lineBehind content i).take (length + 20))

variable {content name : List Char} {w : WordClass}

theorem isBoundary_iff {o : Option Char} :
    isBoundary w o = true ↔ ∀ c ∈ o, w.mem c = false := by
  cases o with
  | none => simp [isBoundary]
  | some c => simp [isBoundary]

theorem recogniser_eq_some_iff_standsAt {i : Nat} {a : Unit} {length : Nat} :
    recogniser w name (content.take i).getLast? (content.drop i) = some (a, length) ↔
      StandsAt w content name i ∧ length = name.length := by
  rw [recogniser_eq_some_iff, StandsAt, ← isBoundary_iff, ← isBoundary_iff]
  constructor
  · rintro ⟨hbefore, rest, hrest, hbehind, rfl⟩
    have hdrop : content.drop (i + name.length) = rest := by
      rw [← List.drop_drop, hrest, List.drop_left]
    exact ⟨⟨⟨rest, hrest.symm⟩, hbefore, hdrop ▸ hbehind⟩, rfl⟩
  · rintro ⟨⟨⟨rest, hrest⟩, hbefore, hbehind⟩, rfl⟩
    rw [← List.drop_drop, ← hrest, List.drop_left] at hbehind
    exact ⟨hbefore, rest, hrest.symm, hbehind, rfl⟩

theorem at?_recogniser_eq_some_iff {i : Nat} {found : Found Unit} :
    Search.at? (recogniser w name) content i = some found ↔
      StandsAt w content name i ∧ found = ⟨i, ()⟩ := by
  rw [Search.at?, Option.map_eq_some_iff]
  constructor
  · rintro ⟨⟨a, length⟩, hfound, rfl⟩
    exact ⟨(recogniser_eq_some_iff_standsAt.1 hfound).1, rfl⟩
  · rintro ⟨hstands, rfl⟩
    exact ⟨((), name.length), recogniser_eq_some_iff_standsAt.2 ⟨hstands, rfl⟩, rfl⟩

theorem getLast?_within {i j : Nat} (h : name <+: content.drop i) (hij : i < j)
    (hj : j < i + name.length) : ∃ c ∈ name, (content.take j).getLast? = some c := by
  obtain ⟨rest, hrest⟩ := h
  obtain ⟨k, rfl⟩ := Nat.exists_eq_add_of_lt hij
  have hk : k < name.length := by omega
  refine ⟨name[k], List.getElem_mem hk, ?_⟩
  have hget : content[i + k]? = some name[k] := by
    rw [← List.getElem?_drop, ← hrest, List.getElem?_append_left hk, List.getElem?_eq_getElem hk]
  rw [List.getLast?_take, if_neg (Nat.succ_ne_zero _), Nat.add_sub_cancel, hget]
  rfl

theorem apart_recogniser (content : List Char) (hall : ∀ c ∈ name, w.mem c = true) :
    Search.Apart (recogniser w name) content := by
  intro i j a length hi hij hj
  obtain ⟨hstands, rfl⟩ := recogniser_eq_some_iff_standsAt.1 hi
  obtain ⟨c, hc, hlast⟩ := getLast?_within hstands.1 hij hj
  refine Option.eq_none_iff_forall_ne_some.2 fun found hfound => ?_
  have hboundary := (at?_recogniser_eq_some_iff.1 hfound).1.2.1 c hlast
  rw [hall c hc] at hboundary
  cases hboundary

theorem reference_eq_entryAt {i : Nat} (hi : i ≤ content.length) (length : Nat) (lineOffset : Int) :
    reference (Document.ofText content "") length lineOffset i =
      entryAt content length lineOffset i := by
  have hposition := Document.positionAt_eq hi ""
  have hline := Document.lineAt_eq content i ""
  rw [reference, hposition, entryAt]
  simp only [hline, Reference.mk.injEq, String.ofList_inj]
  refine ⟨by omega, trivial, ?_⟩
  rw [contextRadius, List.take_append, List.take_of_length_le (by omega),
    List.drop_append_of_le_length (by omega), List.rtake]
  congr 2
  omega

theorem lt_length_of_standsAt {i : Nat} (hname : name ≠ []) (h : StandsAt w content name i) :
    i < content.length := by
  have hprefix := h.1.length_le
  rw [List.length_drop] at hprefix
  have := List.length_pos_of_ne_nil hname
  omega

/-- For a name of word characters there is one reference for each offset at which it stands, in the
order of the text, and no other. -/
theorem references_eq_entries (content : List Char) {name : List Char} (w : WordClass)
    (lineOffset : Int) (hname : name ≠ []) (hall : ∀ c ∈ name, w.mem c = true) :
    ∃ offsets : List Nat, offsets.Pairwise (· < ·) ∧
      (∀ i, i ∈ offsets ↔ StandsAt w content name i) ∧
      references content name w lineOffset =
        offsets.map (entryAt content name.length lineOffset) := by
  let offsets := (List.range (content.length + 1)).filter (StandsAt w content name ·)
  have hmem : ∀ i, i ∈ offsets ↔ StandsAt w content name i := by
    intro i
    rw [List.mem_filter, List.mem_range, decide_eq_true_eq, and_iff_right_iff_imp]
    exact fun h => Nat.lt_succ_of_lt (lt_length_of_standsAt hname h)
  have hfound : Search.all (recogniser w name) content = offsets.map (Found.mk · ()) := by
    rw [Search.all_eq_filterMap (apart_recogniser content hall), ← List.filterMap_eq_map,
      List.filterMap_filter]
    refine List.filterMap_congr fun i _ => Option.ext fun found => ?_
    rw [at?_recogniser_eq_some_iff]
    by_cases h : StandsAt w content name i <;> simp [h, eq_comm]
  refine ⟨offsets, List.Pairwise.filter _ List.pairwise_lt_range, hmem, ?_⟩
  rw [references, if_neg hname, hfound, List.map_map]
  refine List.map_congr_left fun i hi => ?_
  exact reference_eq_entryAt (lt_length_of_standsAt hname ((hmem i).1 hi)).le _ _

/-- The name begins with its own end, and the class has the colon instead of the letters. -/
theorem references_eq_entries_colons :
    [':', ':'] ≠ [] ∧ (∀ c ∈ [':', ':'], (WordClass.mk (· = ':')).mem c = true) ∧
      ∃ offsets : List Nat, offsets.Pairwise (· < ·) ∧
        (∀ i, i ∈ offsets ↔ StandsAt ⟨(· = ':')⟩ "a::b :::\n::".toList [':', ':'] i) ∧
        references "a::b :::\n::".toList [':', ':'] ⟨(· = ':')⟩ 3 =
          offsets.map (entryAt "a::b :::\n::".toList 2 3) :=
  ⟨by simp, by simp, references_eq_entries _ _ 3 (by simp) (by simp)⟩

end Occurrence
end DeclScan
