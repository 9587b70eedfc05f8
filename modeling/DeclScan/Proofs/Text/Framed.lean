import DeclScan.Proofs.Text.Place

/-!
# DeclScan.Proofs.Text.Framed

Names with the characters beside them. What comes before and behind a name is told by a test on an
optional character: at the ends of a text there is none.

* `Text.FramedAt`: a name stands at an offset, between characters that pass the tests.
* `Text.EndsBehind`: what is left to read, behind a character that passes a test.
* `Framed`: a name stands at a line and a column, between such characters. Lines and parts of a text
  hand their names on to the whole (`framed_of_line`, `Framed.of_part`).
* `Position.after_inj`, `Framed.split`: a position is that of one place only.
-/

namespace DeclScan

namespace Text

/-- `name` stands at an offset of `s`, between characters that pass the tests. -/
def FramedAt (before behind : Option Char → Bool) (s : List Char) (offset : Nat)
    (name : List Char) : Prop :=
  ∃ pre rest, s = pre ++ name ++ rest ∧ pre.length = offset ∧ before pre.getLast? = true ∧
    behind rest.head? = true

/-! ## Tests -/

theorem all_imp {p q : Char → Bool} (h : ∀ c, p c = true → q c = true) (o : Option Char)
    (ho : o.all p = true) : o.all q = true := by
  cases o with
  | none => rfl
  | some c => exact h c ho

theorem any_imp {p q : Char → Bool} (h : ∀ c, p c = true → q c = true) (o : Option Char)
    (ho : o.any p = true) : o.any q = true := by
  cases o with
  | none => cases ho
  | some c => exact h c ho

theorem all_of_any {p q : Char → Bool} (h : ∀ c, p c = true → q c = true) (o : Option Char)
    (ho : o.any p = true) : o.all q = true := by
  cases o with
  | none => rfl
  | some c => exact h c ho

/-! ## Names at an offset -/

section FramedAt

variable {before behind : Option Char → Bool} {s r name : List Char} {offset : Nat}

theorem FramedAt.mem (h : FramedAt before behind s offset name) {c : Char} (hc : c ∈ name) :
    c ∈ s := by
  obtain ⟨pre, rest, rfl, -⟩ := h
  simp [hc]

theorem FramedAt.mono {before' behind' : Option Char → Bool}
    (h : FramedAt before behind s offset name) (hbefore : ∀ o, before o = true → before' o = true)
    (hbehind : ∀ o, behind o = true → behind' o = true) : FramedAt before' behind' s offset name := by
  obtain ⟨pre, rest, hs, hlength, hpre, hrest⟩ := h
  exact ⟨pre, rest, hs, hlength, hbefore _ hpre, hbehind _ hrest⟩

/-- The test before a text that goes on at the front: an end of the part is the place that it has in
the whole. -/
theorem test_getLast?_append {pre first : List Char} (hfirst : before first.getLast? = true)
    (hpre : before none = true → before pre.getLast? = true) :
    before (pre ++ first).getLast? = true := by
  rw [List.getLast?_append]
  cases hc : first.getLast? with
  | none => exact hpre (hc ▸ hfirst)
  | some c =>
    rw [hc] at hfirst
    exact hfirst

theorem test_head?_append {last rest : List Char} (hlast : behind last.head? = true)
    (hrest : behind none = true → behind rest.head? = true) :
    behind (last ++ rest).head? = true := by
  rw [List.head?_append]
  cases hc : last.head? with
  | none => exact hrest (hc ▸ hlast)
  | some c =>
    rw [hc] at hlast
    exact hlast

/-- What stands in a part of a text stands in the text. At the ends of the part, what is beside it
there must pass the tests. -/
theorem FramedAt.of_part {pre rest : List Char} (h : FramedAt before behind r offset name)
    (hs : s = pre ++ r ++ rest) (hbefore : before none = true → before pre.getLast? = true)
    (hbehind : behind none = true → behind rest.head? = true) :
    FramedAt before behind s (pre.length + offset) name := by
  obtain ⟨first, last, rfl, rfl, hfirst, hlast⟩ := h
  exact ⟨pre ++ first, last ++ rest, by simp [hs], by simp, test_getLast?_append hfirst hbefore,
    test_head?_append hlast hbehind⟩

theorem FramedAt.of_suffix (h : FramedAt before behind r offset name) (hr : r <:+ s)
    (hnone : before none = false) :
    FramedAt before behind s (s.length - r.length + offset) name := by
  obtain ⟨pre, rfl⟩ := hr
  have hs : pre ++ r = pre ++ r ++ [] := (List.append_nil _).symm
  simpa using h.of_part hs (by simp [hnone]) id

theorem FramedAt.of_isPrefix (h : FramedAt before behind r offset name) (hr : r <+: s)
    (hnone : behind none = false) : FramedAt before behind s offset name := by
  obtain ⟨rest, rfl⟩ := hr
  have hs : r ++ rest = [] ++ r ++ rest := rfl
  simpa using h.of_part hs id (by simp [hnone])

end FramedAt

/-! ## Reading up to a name -/

/-- `r` is the end of `s` behind a character that passes the test. -/
def EndsBehind (before : Option Char → Bool) (s r : List Char) : Prop :=
  ∃ pre, s = pre ++ r ∧ before pre.getLast? = true

section EndsBehind

variable {before behind : Option Char → Bool} {s t r name rest : List Char}

theorem EndsBehind.mono {before' : Option Char → Bool} (h : EndsBehind before s r)
    (hbefore : ∀ o, before o = true → before' o = true) : EndsBehind before' s r := by
  obtain ⟨pre, hs, hpre⟩ := h
  exact ⟨pre, hs, hbefore _ hpre⟩

theorem EndsBehind.of_suffix (h : EndsBehind before t r) (ht : t <:+ s)
    (hnone : before none = false) : EndsBehind before s r := by
  obtain ⟨pre, rfl, hpre⟩ := h
  obtain ⟨more, rfl⟩ := ht
  exact ⟨more ++ pre, by simp, test_getLast?_append hpre (by simp [hnone])⟩

theorem EndsBehind.framedAt (h : EndsBehind before s r) (hr : r = name ++ rest)
    (hrest : behind rest.head? = true) :
    FramedAt before behind s (s.length - r.length) name := by
  obtain ⟨pre, rfl, hpre⟩ := h
  subst hr
  exact ⟨pre, rest, by simp, by simp, hpre, hrest⟩

theorem endsBehind_of_dropLiteral {literal : List Char} (h : dropLiteral literal s = some r) :
    EndsBehind (· = literal.getLast?) s r :=
  ⟨literal, eq_append_of_dropLiteral h, by simp⟩

theorem getLast?_takeWhile (p : Char → Bool) (s : List Char) :
    (s.takeWhile p).getLast?.all p = true := by
  cases hlast : (s.takeWhile p).getLast? with
  | none => rfl
  | some c =>
    have hc : p c = true := List.mem_takeWhile_imp (List.mem_of_getLast? hlast)
    simpa using hc

theorem head?_dropWhile (p : Char → Bool) (s : List Char) :
    (s.dropWhile p).head?.all (fun c => !p c) = true := by
  have := List.head?_dropWhile_not p s
  cases hhead : (s.dropWhile p).head? with
  | none => rfl
  | some c => simpa [hhead] using this

theorem endsBehind_of_dropBlanks? (h : dropBlanks? s = some r) :
    EndsBehind (·.any isBlank) s r := by
  cases s with
  | nil => cases h
  | cons c s =>
    rw [dropBlanks?] at h
    split at h
    · rename_i hc
      cases h
      refine ⟨c :: s.takeWhile isBlank, ?_, ?_⟩
      · rw [trimStart, List.cons_append, List.takeWhile_append_dropWhile]
      · have hall := getLast?_takeWhile isBlank s
        rw [List.getLast?_cons]
        cases hlast : (s.takeWhile isBlank).getLast? with
        | none => simpa using hc
        | some d => simpa [hlast] using hall
    · cases h

theorem EndsBehind.trimStart (h : EndsBehind before s r)
    (hblank : ∀ c, isBlank c = true → before (some c) = true) :
    EndsBehind before s (trimStart r) := by
  obtain ⟨pre, rfl, hpre⟩ := h
  refine ⟨pre ++ r.takeWhile isBlank, ?_, ?_⟩
  · rw [Text.trimStart, List.append_assoc, List.takeWhile_append_dropWhile]
  · have hall := getLast?_takeWhile isBlank r
    rw [List.getLast?_append]
    cases hlast : (r.takeWhile isBlank).getLast? with
    | none => exact hpre
    | some c => exact hblank c (by simpa [hlast] using hall)

theorem endsBehind_trimStart (s : List Char) : EndsBehind (·.all isBlank) s (trimStart s) :=
  ⟨s.takeWhile isBlank, List.takeWhile_append_dropWhile.symm, getLast?_takeWhile isBlank s⟩

end EndsBehind

/-! ## Names -/

/-- A name that goes on as long as its characters do: all of them are of one kind. -/
structure IsRun (inner : Char → Bool) (name : List Char) : Prop where
  ne_nil : name ≠ []
  all : ∀ c ∈ name, inner c = true

theorem isRun_takeWhile {inner : Char → Bool} {c : Char} (hc : inner c = true) (s : List Char) :
    IsRun inner (c :: s.takeWhile inner) where
  ne_nil := List.cons_ne_nil _ _
  all d hd := by
    rcases List.mem_cons.1 hd with rfl | hd
    · exact hc
    · exact List.mem_takeWhile_imp hd

theorem isNameRest_eq_false_of_isBlank {c : Char} (h : isBlank c = true) : isNameRest c = false := by
  refine Bool.eq_false_iff.2 fun hrest => ?_
  rw [isBlank_eq_false_of_isNameRest hrest] at h
  cases h

theorem takeName?_eq_some {s name r : List Char} (h : takeName? s = some (name, r)) :
    s = name ++ r ∧ IsRun isNameRest name ∧ r.head?.all (fun c => !isNameRest c) = true := by
  refine ⟨eq_append_of_takeName? h, ?_⟩
  cases s with
  | nil => cases h
  | cons c s =>
    rw [takeName?] at h
    split at h
    · rename_i hc
      cases h
      exact ⟨isRun_takeWhile (isNameRest_of_isNameStart hc) s, head?_dropWhile isNameRest s⟩
    · cases h

theorem exists_split_within {pre rest first name last : List Char}
    (h : pre ++ rest = first ++ name ++ last) (hle : first.length ≤ pre.length)
    (hlt : pre.length < first.length + name.length) :
    ∃ part more, pre = first ++ part ∧ name = part ++ more ∧ more ≠ [] ∧ rest = more ++ last := by
  rw [List.append_assoc] at h
  obtain ⟨part, rfl⟩ : first <+: pre :=
    List.prefix_of_prefix_length_le (h ▸ List.prefix_append first _) (List.prefix_append pre rest) hle
  rw [List.append_assoc] at h
  have hname : part ++ rest = name ++ last := List.append_cancel_left h
  have hpart : part.length < name.length := by
    rw [List.length_append] at hlt
    omega
  obtain ⟨more, rfl⟩ : part <+: name :=
    List.prefix_of_prefix_length_le (hname ▸ List.prefix_append part _) (List.prefix_append name last)
      (Nat.le_of_lt hpart)
  rw [List.append_assoc] at hname
  refine ⟨part, more, rfl, rfl, ?_, List.append_cancel_left hname⟩
  rintro rfl
  simp at hpart

/-- A name that goes on beyond a place does not begin before it, if the character before the place is
not part of the name. -/
theorem length_le_of_covers {before : Option Char → Bool} {pre rest first name last : List Char}
    (h : pre ++ rest = first ++ name ++ last) (hcovers : pre.length < first.length + name.length)
    (hpre : before pre.getLast? = true) (hapart : ∀ c ∈ name, before (some c) = false) :
    pre.length ≤ first.length := by
  by_contra hlt
  obtain ⟨part, more, rfl, hname, -, -⟩ := exists_split_within h (by omega) hcovers
  rcases List.eq_nil_or_concat' part with rfl | ⟨part, c, rfl⟩
  · simp at hlt
  · rw [← List.append_assoc, List.getLast?_concat, hapart c (by simp [hname])] at hpre
    cases hpre

end Text

/-! ## Positions -/

namespace Position

theorem after_append_ne {s t : List Char} (ht : t ≠ []) : after (s ++ t) ≠ after s := by
  intro h
  rw [after_append] at h
  have hline : (after t).line = 0 := by
    have := congrArg Position.line h
    simp only at this
    omega
  have hcharacter : (after t).character = 0 := by
    have := congrArg Position.character h
    simp only [hline, if_true] at this
    omega
  obtain ⟨u, c, rfl⟩ := List.eq_nil_or_concat' t |>.resolve_left ht
  by_cases hc : c = '\n'
  · have : (after (u ++ [c])).line = (after u).line + 1 := by simp [after, advance, hc]
    omega
  · have : (after (u ++ [c])).character = (after u).character + 1 := by simp [after, advance, hc]
    omega

/-- Of one text, only one beginning ends at a position. -/
theorem after_inj {pre rest pre' rest' : List Char} (h : pre ++ rest = pre' ++ rest')
    (hafter : after pre = after pre') : pre = pre' := by
  rcases List.append_eq_append_iff.1 h with ⟨more, rfl, -⟩ | ⟨more, rfl, -⟩
  · by_cases hmore : more = []
    · rw [hmore, List.append_nil]
    · exact absurd hafter.symm (after_append_ne hmore)
  · by_cases hmore : more = []
    · rw [hmore, List.append_nil]
    · exact absurd hafter (after_append_ne hmore)

theorem after_append_of_not_mem (s : List Char) {t : List Char} (h : '\n' ∉ t) :
    after (s ++ t) = ⟨(after s).line, (after s).character + t.length⟩ := by
  rw [after_append, after_of_not_mem h]
  simp

theorem getLast?_of_character_eq_zero {s : List Char} (h : (after s).character = 0) :
    s.getLast?.all (· = '\n') = true := by
  rcases List.eq_nil_or_concat' s with rfl | ⟨t, c, rfl⟩
  · rfl
  · by_cases hc : c = '\n'
    · simp [hc]
    · simp [after, advance, hc] at h

end Position

open Text

/-- `name` stands in the content between characters that pass the tests, and line and column are
those of the text before it. -/
def Framed (before behind : Option Char → Bool) (content : List Char) (line character : Int)
    (name : List Char) : Prop :=
  ∃ pre rest, content = pre ++ name ++ rest ∧ line = (Position.after pre).line + 1 ∧
    character = (Position.after pre).character ∧ before pre.getLast? = true ∧
    behind rest.head? = true

section Framed

variable {before behind : Option Char → Bool} {content name : List Char} {line character : Int}

theorem Framed.placedAt (h : Framed before behind content line character name) :
    PlacedAt content line character name := by
  obtain ⟨pre, rest, hcontent, hline, hcharacter, -, -⟩ := h
  exact ⟨pre, rest, hcontent, hline, hcharacter⟩

theorem framed_of_framedAt {offset : Nat} (h : FramedAt before behind content offset name)
    (fileName : String) :
    let p := (Document.ofText content fileName).positionAt offset
    Framed before behind content (p.line + 1) p.character name := by
  obtain ⟨pre, rest, rfl, rfl, hpre, hrest⟩ := h
  refine ⟨pre, rest, rfl, ?_, ?_, hpre, hrest⟩ <;>
    rw [List.append_assoc, Document.positionAt_length]

/-- What stands in a part of the content stands in the content. At the ends of the part, what is
beside it there must pass the tests. -/
theorem Framed.of_part {part pre rest : List Char}
    (h : Framed before behind part line character name) (hcontent : content = pre ++ part ++ rest)
    (hbefore : before none = true → before pre.getLast? = true)
    (hbehind : behind none = true → behind rest.head? = true) :
    Framed before behind content (line + (Position.after pre).line)
      (if line = 1 then character + (Position.after pre).character else character) name := by
  obtain ⟨first, last, rfl, rfl, rfl, hfirst, hlast⟩ := h
  refine ⟨pre ++ first, last ++ rest, by simp [hcontent], ?_, ?_, ?_, ?_⟩
  · rw [Position.after_append]
    simp only
    omega
  · rw [Position.after_append]
    simp only
    split <;> split <;> omega
  · exact test_getLast?_append hfirst hbefore
  · exact test_head?_append hlast hbehind

/-- What stands in one of the lines stands in the content. -/
theorem framed_of_line {i offset : Nat} {text : List Char}
    (hline : (splitOn '\n' content)[i]? = some text) (h : FramedAt before behind text offset name)
    (hbefore : before none = true → before (some '\n') = true)
    (hbehind : behind none = true → behind (some '\n') = true) :
    Framed before behind content ((i + 1 : Nat) : Int) offset name := by
  obtain ⟨pre, rest, hcontent, hafter, hrest⟩ := placed_of_splitFrom List.not_mem_nil hline
  have hpre := Position.getLast?_of_character_eq_zero (congrArg Position.character hafter)
  have hcontent : content = pre ++ text ++ rest := by simpa using hcontent
  obtain ⟨first, last, rfl, rfl, hfirst, hlast⟩ := h
  have hnewline : '\n' ∉ first := by
    have := not_mem_of_mem_splitOn (List.mem_of_getElem? hline)
    simp only [List.mem_append, not_or] at this
    exact this.1.1
  have hpart : Framed before behind (first ++ name ++ last) 1 first.length name :=
    ⟨first, last, rfl, by simp [Position.after_of_not_mem hnewline],
      by simp [Position.after_of_not_mem hnewline], hfirst, hlast⟩
  have hplaced := hpart.of_part hcontent ?_ ?_
  · simpa [hafter, Int.add_comm] using hplaced
  · intro hnone
    cases hc : pre.getLast? with
    | none => exact hnone
    | some c =>
      obtain rfl : c = '\n' := by simpa [hc] using hpre
      exact hbefore hnone
  · intro hnone
    cases hc : rest.head? with
    | none => exact hnone
    | some c =>
      obtain rfl : c = '\n' := by simpa [hc] using hrest
      exact hbehind hnone

/-- A name at the position of another stands at its place. -/
theorem Framed.split {pre rest : List Char} (h : Framed before behind content line character name)
    (hcontent : content = pre ++ rest) (hline : line = (Position.after pre).line + 1)
    (hcharacter : character = (Position.after pre).character) :
    ∃ last, rest = name ++ last ∧ before pre.getLast? = true ∧ behind last.head? = true := by
  obtain ⟨first, last, hsplit, hline', hcharacter', hfirst, hlast⟩ := h
  have hafter : Position.after first = Position.after pre := by
    cases hp : Position.after first
    cases hq : Position.after pre
    simp only [hp, hq] at hline hcharacter hline' hcharacter'
    simp only [Position.mk.injEq]
    omega
  rw [List.append_assoc] at hsplit
  have hsame := hsplit.symm.trans hcontent
  obtain rfl := Position.after_inj hsame hafter
  exact ⟨last, (List.append_cancel_left hsame).symm, hfirst, hlast⟩

end Framed
end DeclScan
