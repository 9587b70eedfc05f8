import DeclScan.Occurrence
import DeclScan.Proofs.Text.Found

/-!
# DeclScan.Proofs.Occurrence

Occurrences of a name are the places where it stands delimited.

* `isWord_eq_false_of_isBlank`, `WordClass.mem_eq_false_of_isBlank`: blanks delimit names.
* `Occurrence.framed_of_mem_references`: every reference is at such a place.
* `Occurrence.exists_reference`: such a place has a reference, unless an occurrence of the name begins
  before it and goes on beyond it. If the character before the place is not part of the name, none
  does.
-/

namespace DeclScan

open Text

/-! ## Word characters -/

theorem isWord_eq (c : Char) :
    isWord c = (isNameRest c || (128 ≤ c.toNat && inRanges wordRanges c.toNat)) := rfl

theorem isWord_eq_false_of_isBlank {c : Char} (h : isBlank c = true) : isWord c = false := by
  have hspaces : ∀ n ∈ [0x85, 0xA0, 0x1680, 0x2028, 0x2029, 0x202F, 0x205F, 0x3000] ++
      List.range' 0x2000 11, inRanges wordRanges n = false := by decide +kernel
  have hname := isNameRest_eq_false_of_isBlank h
  simp only [isBlank, Bool.or_eq_true, Bool.and_eq_true, decide_eq_true_eq] at h
  rw [isWord_eq, hname, Bool.false_or]
  by_cases hascii : 128 ≤ c.toNat
  · rw [hspaces c.toNat, Bool.and_false]
    simp only [List.mem_append, List.mem_cons, List.not_mem_nil, List.mem_range'_1]
    omega
  · simp [hascii]

namespace WordClass

/-- What the classes of the languages have in common: a class has all word characters and no
blank. -/
class IsUsual (w : WordClass) : Prop where
  mem_of_isWord : ∀ {c}, isWord c = true → w.mem c = true
  mem_eq_false_of_isBlank : ∀ {c}, isBlank c = true → w.mem c = false

theorem isUsual_or {sign : Char} (h : isBlank sign = false) :
    IsUsual ⟨fun c => isWord c || c = sign⟩ where
  mem_of_isWord := fun hc => by simp [hc]
  mem_eq_false_of_isBlank := fun {c} hc => by
    have hsign : c ≠ sign := by
      rintro rfl
      rw [hc] at h
      cases h
    simp [isWord_eq_false_of_isBlank hc, hsign]

instance : IsUsual plain := ⟨id, isWord_eq_false_of_isBlank⟩
instance : IsUsual dollar := isUsual_or (by decide)
instance : IsUsual hyphen := isUsual_or (by decide)

theorem mem_of_isNameRest (w : WordClass) [w.IsUsual] {c : Char} (h : isNameRest c = true) :
    w.mem c = true :=
  IsUsual.mem_of_isWord (isWord_of_isNameRest h)

theorem mem_eq_false_of_isBlank (w : WordClass) [w.IsUsual] {c : Char} (h : isBlank c = true) :
    w.mem c = false :=
  IsUsual.mem_eq_false_of_isBlank h

theorem le_toNat_of_mem_plain {c : Char} (h : plain.mem c = true) (hname : isNameRest c = false) :
    128 ≤ c.toNat := by
  simp only [plain, isWord_eq, hname, Bool.false_or, Bool.and_eq_true, decide_eq_true_eq] at h
  exact h.1

end WordClass

namespace Occurrence

variable {content name : List Char} {w : WordClass}

theorem recogniser_eq_some_iff {before : Option Char} {s : List Char} {a : Unit} {length : Nat} :
    recogniser w name before s = some (a, length) ↔
      isBoundary w before = true ∧ ∃ rest, s = name ++ rest ∧ isBoundary w rest.head? = true ∧
        name.length = length := by
  rw [recogniser]
  constructor
  · intro h
    split at h
    · rename_i hbefore
      split at h
      · rename_i rest hrest
        split at h
        · rename_i hbehind
          cases h
          exact ⟨hbefore, rest, eq_append_of_dropLiteral hrest, hbehind, rfl⟩
        · cases h
      · cases h
    · cases h
  · rintro ⟨hbefore, rest, rfl, hbehind, rfl⟩
    simp only [hbefore, dropLiteral_append, hbehind, if_true]

/-- A reference points at its name, which stands delimited there. -/
theorem framed_of_mem_references {r : Reference} (h : r ∈ references content name w 0) :
    name ≠ [] ∧ Framed (isBoundary w) (isBoundary w) content r.line r.character name := by
  rw [references] at h
  split at h
  · cases h
  · rename_i hname
    obtain ⟨found, hfound, rfl⟩ := List.mem_map.1 h
    obtain ⟨pre, tail, length, hcontent, hoffset, heq⟩ := Search.mem_all hfound
    obtain ⟨hbefore, rest, rfl, hbehind, -⟩ := recogniser_eq_some_iff.1 heq
    have hframed : FramedAt (isBoundary w) (isBoundary w) content found.offset name :=
      ⟨pre, rest, by simpa using hcontent, hoffset.symm, hbefore, hbehind⟩
    refine ⟨hname, ?_⟩
    simp only [reference, Int.add_zero]
    exact framed_of_framedAt hframed ""

theorem isSome_recogniser (name : List Char) {pre rest : List Char}
    (hbefore : isBoundary w pre.getLast? = true) (hbehind : isBoundary w rest.head? = true) :
    (recogniser w name pre.getLast? (name ++ rest)).isSome :=
  Option.isSome_iff_exists.2
    ⟨((), name.length), recogniser_eq_some_iff.2 ⟨hbefore, rest, rfl, hbehind, rfl⟩⟩

theorem exists_reference_covering {pre rest : List Char} (hname : name ≠ [])
    (hbefore : isBoundary w pre.getLast? = true) (hbehind : isBoundary w rest.head? = true) :
    ∃ r ∈ references (pre ++ name ++ rest) name w 0, ∃ first last,
      pre ++ name ++ rest = first ++ name ++ last ∧
        r.line = (Position.after first).line + 1 ∧ r.character = (Position.after first).character ∧
        first.length ≤ pre.length ∧ (first = pre ∨ pre.length < first.length + name.length) := by
  obtain ⟨found, hfound, first, tail, length, hsplit, hoffset, heq, hle, hcovers⟩ :=
    Search.exists_mem_all (isSome_recogniser name hbefore hbehind)
  obtain ⟨-, last, rfl, -, rfl⟩ := recogniser_eq_some_iff.1 heq
  rw [← List.append_assoc, ← List.append_assoc] at hsplit
  have hposition := Document.positionAt_length first (name ++ last) ""
  rw [← List.append_assoc, ← hsplit] at hposition
  refine ⟨reference (Document.ofText (pre ++ name ++ rest) "") name.length 0 found.offset, ?_,
    first, last, hsplit, ?_, ?_, hle, hcovers⟩
  · rw [references, if_neg hname]
    refine List.mem_map.2 ⟨found, ?_, rfl⟩
    rw [List.append_assoc]
    exact hfound
  · simp only [reference, hoffset, hposition, Int.add_zero]
  · simp only [reference, hoffset, hposition]

/-- A name that stands delimited, behind a character that is not part of it, has a reference. -/
theorem exists_reference {before : Option Char → Bool} {line character : Int} (hname : name ≠ [])
    (h : Framed before (isBoundary w) content line character name)
    (hbefore : ∀ o, before o = true → isBoundary w o = true)
    (hapart : ∀ c ∈ name, before (some c) = false) :
    ∃ r ∈ references content name w 0, r.line = line ∧ r.character = character := by
  obtain ⟨pre, rest, rfl, rfl, rfl, hpre, hrest⟩ := h
  obtain ⟨r, hr, first, last, hsplit, hline, hcharacter, hle, hcovers⟩ :=
    exists_reference_covering hname (hbefore _ hpre) hrest
  obtain rfl : first = pre := by
    rcases hcovers with hsame | hcovers
    · exact hsame
    · rw [List.append_assoc] at hsplit
      have hle' := length_le_of_covers hsplit hcovers hpre hapart
      rw [List.append_assoc first] at hsplit
      exact (List.append_inj_left hsplit (by omega)).symm
  exact ⟨r, hr, hline, hcharacter⟩

theorem count_pos {before : Option Char → Bool} {line character : Int}
    (h : Framed before (isBoundary w) content line character name)
    (hbefore : ∀ o, before o = true → isBoundary w o = true) : 0 < count content name w := by
  obtain ⟨pre, rest, rfl, -, -, hpre, hrest⟩ := h
  obtain ⟨found, hfound, -⟩ := Search.exists_mem_all (isSome_recogniser name (hbefore _ hpre) hrest)
  rw [count, List.append_assoc]
  exact List.length_pos_of_mem hfound

end Occurrence
end DeclScan
