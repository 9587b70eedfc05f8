import DeclScan.Proofs.References

/-!
# DeclScan.Proofs.Text.Coordinates

Offsets and positions are two ways to name the places of a text. The position of an offset is in its line
and leads back to the offset; the offset of a position within a line leads back to the position. Offsets
go on as positions do, and nothing of the text is outside of its lines.

* `Position.Precedes`: the order of positions, by line and then by column.
* `Document.joinWith_lineAt`: the lines put together are the text.
* `Document.offsetAt_positionAt`, `Document.positionAt_offsetAt`: there and back.
* `Document.precedes_positionAt`: later offsets have later positions.
* `Document.coordinates_faithful`: all of these.
-/

namespace DeclScan

open Text

/-! ## The order of positions -/

namespace Position

/-- An earlier line, or the same line and an earlier column. -/
def Precedes (p q : Position) : Prop :=
  p.line < q.line ∨ p.line = q.line ∧ p.character < q.character

instance (p q : Position) : Decidable (p.Precedes q) := inferInstanceAs (Decidable (_ ∨ _))

theorem precedes_after_append (s : List Char) {t : List Char} (ht : t ≠ []) :
    (after s).Precedes (after (s ++ t)) := by
  rw [after_append]
  by_cases hline : (after t).line = 0
  · have hnewline : '\n' ∉ t := by
      rw [line_after] at hline
      exact List.count_eq_zero.1 hline
    have hpos := List.length_pos_of_ne_nil ht
    refine Or.inr ⟨?_, ?_⟩
    · simp only [hline, Nat.add_zero]
    · simp only [if_true, after_of_not_mem hnewline]
      omega
  · refine Or.inl ?_
    simp only
    omega

end Position

/-! ## Lines -/

theorem Line.map_text_split (start offset : Nat) (piece s : List Char) :
    (Line.split start offset piece s).map Line.text = splitFrom '\n' piece s := by
  induction s generalizing start offset piece with
  | nil => rfl
  | cons c s ih =>
    rw [Line.split, splitFrom]
    split
    · rw [List.map_cons, ih]
    · exact ih start (offset + 1) (c :: piece)

namespace Document

variable (content : List Char) (fileName : String)

theorem map_text_lines : (ofText content fileName).lines.map Line.text = splitOn '\n' content :=
  Line.map_text_split 0 0 [] content

theorem map_lineAt (d : Document) :
    (List.range d.lineCount).map (fun i : Nat => d.lineAt i) = d.lines.map Line.text := by
  refine List.ext_getElem (by simp [lineCount]) ?_
  intro i hi hi'
  have hline : i < d.lines.length := by simpa using hi'
  simp [lineAt, hline]

/-- Nothing but the newlines is outside of the lines. -/
theorem joinWith_lineAt :
    let d := ofText content fileName
    joinWith '\n' ((List.range d.lineCount).map fun i : Nat => d.lineAt i) = content := by
  intro d
  rw [map_lineAt, map_text_lines, joinWith_splitOn]

theorem exists_of_lt_lineCount {line : Nat} (h : line < (ofText content fileName).lineCount) :
    ∃ pre rest, content = pre ++ (ofText content fileName).lineAt line ++ rest ∧
      Position.after pre = ⟨line, 0⟩ ∧ '\n' ∉ (ofText content fileName).lineAt line := by
  have hlength : line < (splitOn '\n' content).length := by
    rw [← map_text_lines content fileName, List.length_map]
    exact h
  have hline : (splitOn '\n' content)[line]? = some ((ofText content fileName).lineAt line) := by
    rw [← map_text_lines content fileName, List.getElem?_map]
    have hsome := List.getElem?_eq_getElem h
    simp [lineAt, hsome]
  obtain ⟨pre, rest, hcontent, hafter, -⟩ := placed_of_splitFrom List.not_mem_nil hline
  exact ⟨pre, rest, hcontent, hafter, not_mem_of_mem_splitOn (List.mem_of_getElem? hline)⟩

/-! ## There and back -/

theorem offsetAt_after (pre s : List Char) :
    (ofText (pre ++ s) fileName).offsetAt (Position.after pre).line (Position.after pre).character =
      pre.length := by
  obtain ⟨before, l, rest, hlines, hline, hstart, -⟩ := ofText_lines pre s fileName
  have hcount := line_lt_lineCount pre s fileName
  have hindex : min (Position.after pre).line ((ofText (pre ++ s) fileName).lineCount - 1) =
      (Position.after pre).line := by omega
  have hlast : (ofText (pre ++ s) fileName).lines[(Position.after pre).line]? = some l := by
    rw [hlines, ← hline]
    simp
  have htext : (ofText (pre ++ s) fileName).text.length = pre.length + s.length := List.length_append
  simp only [offsetAt, Int.toNat_natCast, hindex, hlast, htext]
  omega

theorem positionAt_clamp (o : Int) :
    (ofText content fileName).positionAt o =
      (ofText content fileName).positionAt (min o.toNat content.length : Nat) := by
  have htext : (ofText content fileName).text = content := rfl
  simp only [positionAt, htext, Int.toNat_natCast, Nat.min_assoc, Nat.min_self]

theorem positionAt_eq_after {i : Nat} (hi : i ≤ content.length) :
    (ofText content fileName).positionAt i = Position.after (content.take i) := by
  have hposition := positionAt_length (content.take i) (content.drop i) fileName
  rwa [List.take_append_drop, List.length_take_of_le hi] at hposition

/-- The position of an offset is within its line, and leads back to the offset. -/
theorem offsetAt_positionAt {i : Nat} (hi : i ≤ content.length) :
    let d := ofText content fileName
    let p := d.positionAt i
    p.line = (content.take i).count '\n' ∧ p.line < d.lineCount ∧
      p.character ≤ (d.lineAt p.line).length ∧ d.offsetAt p.line p.character = i := by
  intro d p
  have hp : p = ⟨(content.take i).count '\n', (lineBefore content i).length⟩ :=
    positionAt_eq hi fileName
  have hafter : Position.after (content.take i) = p := (positionAt_eq_after content fileName hi).symm
  have hcount := line_lt_lineCount (content.take i) (content.drop i) fileName
  have hback := offsetAt_after fileName (content.take i) (content.drop i)
  rw [List.take_append_drop, hafter] at hcount hback
  rw [List.length_take_of_le hi] at hback
  refine ⟨by rw [hp], hcount, ?_, hback⟩
  rw [hp, lineAt_eq, List.length_append]
  exact Nat.le_add_right _ _

/-- Later offsets have later positions. -/
theorem precedes_positionAt {i j : Nat} (hij : i < j) (hj : j ≤ content.length) :
    ((ofText content fileName).positionAt i).Precedes ((ofText content fileName).positionAt j) := by
  have hsplit : content.take j = content.take i ++ (content.drop i).take (j - i) := by
    rw [← List.take_add, Nat.add_sub_cancel' hij.le]
  have hne : (content.drop i).take (j - i) ≠ [] := by
    intro hnil
    have hlength := congrArg List.length hnil
    simp only [List.length_take, List.length_drop, List.length_nil] at hlength
    omega
  rw [positionAt_eq_after content fileName (hij.le.trans hj), positionAt_eq_after content fileName hj,
    hsplit]
  exact Position.precedes_after_append _ hne

/-- A column of a line leads to the offset that has it as its position. -/
theorem positionAt_offsetAt {line character : Nat}
    (hline : line < (ofText content fileName).lineCount)
    (hcharacter : character ≤ ((ofText content fileName).lineAt line).length) :
    (ofText content fileName).positionAt ((ofText content fileName).offsetAt line character) =
      ⟨line, character⟩ := by
  obtain ⟨pre, rest, hcontent, hpre, hnewline⟩ := exists_of_lt_lineCount content fileName hline
  set text := (ofText content fileName).lineAt line
  have hafter : Position.after (pre ++ text.take character) = ⟨line, character⟩ := by
    have hnone : '\n' ∉ text.take character := fun hmem => hnewline (List.mem_of_mem_take hmem)
    rw [Position.after_append_of_not_mem pre hnone, hpre, Nat.zero_add,
      List.length_take_of_le hcharacter]
  have hwhole : content = pre ++ text.take character ++ (text.drop character ++ rest) := by
    rw [hcontent, List.append_assoc, List.append_assoc, ← List.append_assoc (text.take character),
      List.take_append_drop]
  have hoffset := offsetAt_after fileName (pre ++ text.take character) (text.drop character ++ rest)
  have hposition := positionAt_length (pre ++ text.take character) (text.drop character ++ rest)
    fileName
  rw [← hwhole, hafter] at hoffset hposition
  rw [hoffset, hposition]

/-- Offsets and positions name the same places. The lines put together are the text. An offset, clamped to
the text, has the number of newlines before it as its line and a column within that line, and is what
its position leads back to. Later offsets have later positions. And a column within a line is the position
of the offset that it leads to. -/
theorem coordinates_faithful :
    let d : Document := ofText content fileName
    joinWith '\n' ((List.range d.lineCount).map fun i : Nat => d.lineAt i) = content ∧
      (∀ o : Int,
        let c := max 0 (min o content.length)
        let p := d.positionAt o
        p.line = (content.take c.toNat).count '\n' ∧ p.line < d.lineCount ∧
          p.character ≤ (d.lineAt p.line).length ∧ d.offsetAt p.line p.character = c) ∧
      (∀ o o' : Nat, o < o' → o' ≤ content.length →
        (d.positionAt o).Precedes (d.positionAt o')) ∧
      ∀ line character : Nat, line < d.lineCount → character ≤ (d.lineAt line).length →
        d.positionAt (d.offsetAt line character) = ⟨line, character⟩ := by
  intro d
  refine ⟨joinWith_lineAt content fileName, fun o => ?_, fun o o' => ?_, fun line character => ?_⟩
  · have hle : min o.toNat content.length ≤ content.length := Nat.min_le_right _ _
    have hclamp : max 0 (min o content.length) = ((min o.toNat content.length : Nat) : Int) := by
      omega
    simp only [hclamp, Int.toNat_natCast, d, positionAt_clamp content fileName o]
    exact offsetAt_positionAt content fileName hle
  · exact precedes_positionAt content fileName
  · exact positionAt_offsetAt content fileName

/-- An empty line and one behind the last newline, with offsets on both sides of the text. -/
theorem coordinates_of_lines :
    let content := "ab\n\nc\n".toList
    let d := ofText content ""
    2 < 3 ∧ 3 ≤ content.length ∧ (d.positionAt (2 : Nat)).Precedes (d.positionAt (3 : Nat)) ∧
      3 < d.lineCount ∧ 0 ≤ (d.lineAt (3 : Nat)).length ∧
      d.positionAt (d.offsetAt (3 : Nat) (0 : Nat)) = ⟨3, 0⟩ ∧
      d.positionAt 9 = ⟨3, 0⟩ ∧ d.positionAt (-1) = ⟨0, 0⟩ := by
  intro content d
  obtain ⟨-, -, hprecedes, hback⟩ := coordinates_faithful content ""
  have hlines : 3 < d.lineCount := by decide +kernel
  exact ⟨by decide, by decide, hprecedes 2 3 (by decide) (by decide), hlines, Nat.zero_le _,
    hback 3 0 hlines (Nat.zero_le _), by decide +kernel, by decide +kernel⟩

end Document
end DeclScan
