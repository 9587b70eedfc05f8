import DeclScan.Text.Document
import Mathlib

/-!
# DeclScan.Proofs.Text.Place

Where a text stands in a larger one. The position behind a text is read off the text itself
(`Position.after`); a document gives the same one, and its lines go on from there.

* `Document.positionAt_length`, `Document.drop_lineAt`: positions and lines of a document.
* `PointsAt`: the line with a number goes on with a text from a column on.
* `Text.placed_of_splitFrom`: where the lines of a text stand in it.
-/

namespace DeclScan

/-! ## Positions -/

namespace Position

def start : Position := ⟨0, 0⟩

/-- The position behind a character: a newline begins a line, anything else takes a column. -/
def advance (p : Position) (c : Char) : Position :=
  if c = '\n' then ⟨p.line + 1, 0⟩ else ⟨p.line, p.character + 1⟩

/-- The position behind a text that begins at the start. -/
def after (s : List Char) : Position := s.foldl advance start

/-- A text that begins at a position adds its lines to those before it. Only in its first line do
the columns before it count. -/
theorem foldl_advance (p : Position) (s : List Char) :
    s.foldl advance p =
      ⟨p.line + (after s).line,
        if (after s).line = 0 then p.character + (after s).character else (after s).character⟩ := by
  induction s using List.reverseRecOn with
  | nil => simp [after, start]
  | append_singleton s c ih =>
    simp only [after, List.foldl_append, List.foldl_cons, List.foldl_nil] at ih ⊢
    rw [ih]
    by_cases hc : c = '\n'
    · simp [advance, hc, Nat.add_assoc]
    · simp only [advance, hc, if_false]
      split <;> simp [*, Nat.add_assoc]

theorem after_append (s t : List Char) :
    after (s ++ t) =
      ⟨(after s).line + (after t).line,
        if (after t).line = 0 then (after s).character + (after t).character
        else (after t).character⟩ := by
  rw [after, List.foldl_append]
  exact foldl_advance (after s) t

theorem after_of_not_mem {s : List Char} (h : '\n' ∉ s) : after s = ⟨0, s.length⟩ := by
  induction s using List.reverseRecOn with
  | nil => rfl
  | append_singleton s c ih =>
    simp only [List.mem_append, List.mem_singleton, not_or] at h
    have hs : s.foldl advance start = ⟨0, s.length⟩ := ih h.1
    simp [after, hs, advance, Ne.symm h.2]

end Position

/-! ## Documents -/

theorem Line.start_le_of_mem_split {start offset : Nat} {piece s : List Char} {l : Line}
    (h : l ∈ Line.split start offset piece s) (hle : start ≤ offset) : start ≤ l.start := by
  induction s generalizing start offset piece with
  | nil =>
    obtain rfl := List.mem_singleton.1 h
    exact le_refl _
  | cons c s ih =>
    rw [Line.split] at h
    split at h
    · rcases List.mem_cons.1 h with rfl | hrest
      · exact le_refl _
      · have := ih hrest (le_refl _)
        omega
    · exact ih h (by omega)

/-- The line that is being read goes on up to the next newline, and all later ones start behind what
has been read. -/
theorem Line.split_eq_cons {start offset : Nat} (hle : start ≤ offset) (piece s : List Char) :
    ∃ rest, Line.split start offset piece s =
        ⟨start, piece.reverse ++ s.takeWhile (· ≠ '\n')⟩ :: rest ∧
      ∀ l ∈ rest, offset < l.start := by
  induction s generalizing offset piece with
  | nil => exact ⟨[], by simp [Line.split], by simp⟩
  | cons c s ih =>
    by_cases hc : c = '\n'
    · refine ⟨Line.split (offset + 1) (offset + 1) [] s, by simp [Line.split, hc], ?_⟩
      intro l hl
      have := start_le_of_mem_split hl (le_refl _)
      omega
    · have hnext : start ≤ offset + 1 := by omega
      obtain ⟨rest, heq, hrest⟩ := ih hnext (c :: piece)
      refine ⟨rest, by simp [Line.split, hc, heq], ?_⟩
      intro l hl
      have := hrest l hl
      omega

/-- Behind a part of the text that has been read, the lines are those that start before its end, the
last of them at the column of the position, and those that start later. -/
theorem Line.split_append {start offset : Nat} {piece : List Char}
    (hpiece : start + piece.length = offset) (pre s : List Char) (n : Nat) :
    let p := pre.foldl Position.advance ⟨n, piece.length⟩
    ∃ before l rest, Line.split start offset piece (pre ++ s) = before ++ l :: rest ∧
      n + before.length = p.line ∧ l.start + p.character = offset + pre.length ∧
      l.text.drop p.character = s.takeWhile (· ≠ '\n') ∧
      (∀ x ∈ before, x.start ≤ offset + pre.length) ∧ ∀ x ∈ rest, offset + pre.length < x.start := by
  induction pre generalizing start offset piece n with
  | nil =>
    have hle : start ≤ offset := by omega
    obtain ⟨rest, heq, hrest⟩ := Line.split_eq_cons hle piece s
    refine ⟨[], _, rest, heq, rfl, hpiece, ?_, by simp, hrest⟩
    exact List.drop_left' List.length_reverse
  | cons c pre ih =>
    by_cases hc : c = '\n'
    · have hempty : offset + 1 + ([] : List Char).length = offset + 1 := rfl
      obtain ⟨before, l, rest, heq, hline, hstart, htext, hbefore, hrest⟩ := ih hempty (n + 1)
      have hadvance : Position.advance ⟨n, piece.length⟩ c = ⟨n + 1, ([] : List Char).length⟩ := by
        simp [Position.advance, hc]
      simp only [List.foldl_cons, hadvance, List.length_cons]
      refine ⟨⟨start, piece.reverse⟩ :: before, l, rest, by simp [Line.split, hc, heq], ?_, ?_,
        htext, ?_, ?_⟩
      · rw [← hline, List.length_cons]
        omega
      · omega
      · intro x hx
        rcases List.mem_cons.1 hx with rfl | hx
        · simp only
          omega
        · have := hbefore x hx
          omega
      · intro x hx
        have := hrest x hx
        omega
    · have hlonger : start + (c :: piece).length = offset + 1 := by
        rw [List.length_cons]
        omega
      obtain ⟨before, l, rest, heq, hline, hstart, htext, hbefore, hrest⟩ := ih hlonger n
      have hadvance : Position.advance ⟨n, piece.length⟩ c = ⟨n, (c :: piece).length⟩ := by
        simp [Position.advance, hc]
      rw [List.length_cons, List.foldl_cons, hadvance]
      refine ⟨before, l, rest, by simp [Line.split, hc, heq], hline, by omega, htext, ?_, ?_⟩
      · intro x hx
        have := hbefore x hx
        omega
      · intro x hx
        have := hrest x hx
        omega

namespace Document

theorem ofText_lines (pre s : List Char) (fileName : String) :
    let p := Position.after pre
    ∃ before l rest, (ofText (pre ++ s) fileName).lines = before ++ l :: rest ∧
      before.length = p.line ∧ l.start + p.character = pre.length ∧
      l.text.drop p.character = s.takeWhile (· ≠ '\n') ∧
      (∀ x ∈ before, x.start ≤ pre.length) ∧ ∀ x ∈ rest, pre.length < x.start := by
  have hempty : 0 + ([] : List Char).length = 0 := rfl
  obtain ⟨before, l, rest, h⟩ := Line.split_append hempty pre s 0
  simp only [Nat.zero_add] at h
  exact ⟨before, l, rest, h⟩

/-- The position of an offset is the one behind the text before it. -/
theorem positionAt_length (pre s : List Char) (fileName : String) :
    (ofText (pre ++ s) fileName).positionAt pre.length = Position.after pre := by
  obtain ⟨before, l, rest, hlines, hline, hstart, -, hbefore, hrest⟩ := ofText_lines pre s fileName
  have hoffset : min (pre.length : Int).toNat (pre ++ s).length = pre.length := by simp
  have hseen : (ofText (pre ++ s) fileName).lines.takeWhile (fun x => x.start ≤ pre.length) =
      before ++ [l] := by
    rw [hlines, List.takeWhile_append_of_pos (by simpa using hbefore), List.takeWhile_cons_of_pos]
    · cases rest with
      | nil => rfl
      | cons x rest =>
        have : ¬ x.start ≤ pre.length := by
          have := hrest x List.mem_cons_self
          omega
        rw [List.takeWhile_cons_of_neg (by simpa using this)]
    · simp only [decide_eq_true_eq]
      omega
  have htext : (ofText (pre ++ s) fileName).text = pre ++ s := rfl
  simp only [positionAt, htext, hoffset]
  rw [hseen, List.getLast?_concat, ← hstart]
  simp [hline]

/-- The line of a position goes on with what comes behind, up to the next newline. -/
theorem drop_lineAt (pre s : List Char) (fileName : String) :
    (((ofText (pre ++ s) fileName).lineAt (Position.after pre).line).drop
      (Position.after pre).character) = s.takeWhile (· ≠ '\n') := by
  obtain ⟨before, l, rest, hlines, hline, -, htext, -, -⟩ := ofText_lines pre s fileName
  have hindex : (ofText (pre ++ s) fileName).lines[(Position.after pre).line]? = some l := by
    rw [hlines, ← hline]
    simp
  simp only [lineAt, Int.toNat_natCast, hindex]
  rw [if_neg (by omega), htext]

theorem line_lt_lineCount (pre s : List Char) (fileName : String) :
    (Position.after pre).line < (ofText (pre ++ s) fileName).lineCount := by
  obtain ⟨before, l, rest, hlines, hline, -⟩ := ofText_lines pre s fileName
  rw [lineCount, hlines, ← hline]
  simp

end Document

/-! ## Pointing at a text -/

/-- The 1-based line `line` of a content is one of its lines, and from the 0-based column
`character` on it begins with `name`. -/
def PointsAt (content : List Char) (line character : Int) (name : List Char) : Prop :=
  let d := Document.ofText content ""
  1 ≤ line ∧ line ≤ d.lineCount ∧ 0 ≤ character ∧
    name <+: (d.lineAt (line - 1)).drop character.toNat

/-- `name` stands somewhere in the content, and line and column are those of the text before it. -/
def PlacedAt (content : List Char) (line character : Int) (name : List Char) : Prop :=
  ∃ pre rest, content = pre ++ name ++ rest ∧ line = (Position.after pre).line + 1 ∧
    character = (Position.after pre).character

section

variable {content name : List Char} {line character : Int}

theorem PlacedAt.pointsAt (h : PlacedAt content line character name) (hname : '\n' ∉ name) :
    PointsAt content line character name := by
  obtain ⟨pre, rest, rfl, rfl, rfl⟩ := h
  have hline := Document.line_lt_lineCount pre (name ++ rest) ""
  have hdrop := Document.drop_lineAt pre (name ++ rest) ""
  rw [List.append_assoc]
  refine ⟨by omega, by omega, by omega, ?_⟩
  rw [Int.add_sub_cancel, Int.toNat_natCast, hdrop]
  have hall : ∀ c ∈ name, decide (c ≠ '\n') = true := by
    intro c hc
    simpa using fun e : c = '\n' => hname (e ▸ hc)
  rw [List.takeWhile_append_of_pos hall]
  exact List.prefix_append name _

end

/-! ## Lines -/

namespace Text

/-- The lines of a text stand in it, each at the start of the line with its number and up to the
next newline. -/
theorem placed_of_splitFrom {piece s line : List Char} {i : Nat} (hpiece : '\n' ∉ piece)
    (h : (splitFrom '\n' piece s)[i]? = some line) :
    ∃ pre rest, piece.reverse ++ s = pre ++ line ++ rest ∧ Position.after pre = ⟨i, 0⟩ ∧
      rest.head?.all (· = '\n') = true := by
  induction s generalizing piece i with
  | nil =>
    cases i with
    | zero =>
      obtain rfl : piece.reverse = line := by simpa [splitFrom] using h
      exact ⟨[], [], by simp, rfl, rfl⟩
    | succ i => simp [splitFrom] at h
  | cons c s ih =>
    by_cases hc : c = '\n'
    · rw [splitFrom, if_pos hc] at h
      cases i with
      | zero =>
        obtain rfl : piece.reverse = line := by simpa using h
        exact ⟨[], c :: s, by simp, rfl, by simpa using hc⟩
      | succ i =>
        have hempty : '\n' ∉ ([] : List Char) := List.not_mem_nil
        obtain ⟨pre, rest, hs, hafter, hrest⟩ := ih hempty (by simpa using h)
        have hs : s = pre ++ line ++ rest := by simpa using hs
        refine ⟨piece.reverse ++ c :: pre, rest, by simp [hs], ?_, hrest⟩
        rw [Position.after, List.foldl_append, List.foldl_cons, Position.advance, if_pos hc]
        change pre.foldl Position.advance ⟨(Position.after piece.reverse).line + 1, 0⟩ = _
        rw [Position.foldl_advance, hafter, Position.after_of_not_mem (by simpa using hpiece)]
        simp [Nat.add_comm]
    · rw [splitFrom, if_neg hc] at h
      have hlonger : '\n' ∉ c :: piece := by simp [hpiece, Ne.symm hc]
      obtain ⟨pre, rest, hs, hafter, hrest⟩ := ih hlonger h
      exact ⟨pre, rest, by simpa using hs, hafter, hrest⟩

end Text

end DeclScan
