import DeclScan.Language.Vue
import DeclScan.Proofs.Text.Places

/-!
# DeclScan.Proofs.Language.Blocks

The blocks of a component as they are written: an opening tag with any attributes, a body, and the first
closing tag behind it. The letters of a tag may have any case.

* `IsBlock`, `IsFirstBlock`: a block, and the first one of a text.
* `bodyUpTo?_eq_some_iff`, `block_eq_some_iff`: what is read at one place.
* `findBlock?_eq_some_iff`, `findBlock?_eq_none_iff`: the first block is found, at the position behind
  its opening tag.
* `isFirstBlock_of_not_mem`: a block before which, and in which, no tag begins.
-/

namespace DeclScan
namespace Vue

open Text

/-! ## Blocks as they are written -/

/-- The text begins with the literal, which is in small letters, in letters of any case. -/
def Begins (literal s : List Char) : Prop :=
  ∃ first rest, s = first ++ rest ∧ first.map foldCase = literal

def closingTag (tag : String) : List Char := '<' :: '/' :: tag.toList ++ ['>']

/-- An opening tag, with any attributes. -/
def IsOpening (tag : String) (s : List Char) : Prop :=
  ∃ name attributes, s = name ++ (attributes ++ ['>']) ∧ name.map foldCase = '<' :: tag.toList ∧
    '>' ∉ attributes

/-- A block in three parts: the opening tag, the body, and the text from the closing tag on, before which
no other closing tag begins. -/
structure IsBlock (tag : String) (opening body behind : List Char) : Prop where
  opens : IsOpening tag opening
  closes : Begins (closingTag tag) behind
  first : ∀ u v, body = u ++ v → v ≠ [] → ¬ Begins (closingTag tag) (v ++ behind)

def BeginsBlock (tag : String) (s : List Char) : Prop :=
  ∃ opening body behind, s = opening ++ (body ++ behind) ∧ IsBlock tag opening body behind

/-- The text is cut into what stands before the body of its first block, the body, and what stands
behind. -/
structure IsFirstBlock (tag : String) (content before body behind : List Char) : Prop where
  content_eq : content = before ++ (body ++ behind)
  exists_opening : ∃ earlier opening, before = earlier ++ opening ∧ IsBlock tag opening body behind ∧
    ∀ u v, earlier = u ++ v → v ≠ [] → ¬ BeginsBlock tag (v ++ (opening ++ (body ++ behind)))

/-! ## Brackets of tags -/

theorem eq_of_foldCase_eq {c : Char} (h : '<' = foldCase c) : c = '<' := by
  rw [foldCase] at h
  split at h
  · rename_i hc
    simp only [Bool.and_eq_true, decide_eq_true_eq, Char.le_def, UInt32.le_iff_toNat_le] at hc
    have hA : ('A' : Char).val.toNat = 65 := rfl
    have hZ : ('Z' : Char).val.toNat = 90 := rfl
    have hlt : ('<' : Char).toNat = 60 := rfl
    have hc' : c.toNat = c.val.toNat := rfl
    have hcode := congrArg Char.toNat h
    rw [hlt, Char.toNat_ofNat] at hcode
    split at hcode <;> omega
  · split at h
    · cases h
    · split at h
      · cases h
      · split at h
        · cases h
        · exact h.symm

theorem head?_of_begins {literal s : List Char} (h : Begins ('<' :: literal) s) :
    s.head? = some '<' := by
  obtain ⟨first, rest, rfl, hfirst⟩ := h
  cases first with
  | nil => cases hfirst
  | cons c first =>
    obtain rfl : c = '<' := eq_of_foldCase_eq (List.cons.inj hfirst).1.symm
    rfl

theorem IsOpening.getLast? {tag : String} {s : List Char} (h : IsOpening tag s) (earlier : List Char) :
    (earlier ++ s).getLast? = some '>' := by
  obtain ⟨name, attributes, rfl, -, -⟩ := h
  simp

theorem IsFirstBlock.getLast?_before {tag : String} {content before body behind : List Char}
    (h : IsFirstBlock tag content before body behind) : before.getLast? = some '>' := by
  obtain ⟨earlier, opening, rfl, hblock, -⟩ := h.exists_opening
  exact hblock.opens.getLast? earlier

theorem IsFirstBlock.head?_behind {tag : String} {content before body behind : List Char}
    (h : IsFirstBlock tag content before body behind) : behind.head? = some '<' := by
  obtain ⟨earlier, opening, rfl, hblock, -⟩ := h.exists_opening
  exact head?_of_begins hblock.closes

/-! ## Reading a block -/

theorem dropIgnoringCase_eq_some_iff {literal s rest : List Char} :
    dropIgnoringCase literal s = some rest ↔
      ∃ first, s = first ++ rest ∧ first.map foldCase = literal := by
  induction literal generalizing s with
  | nil =>
    constructor
    · intro h
      exact ⟨[], Option.some.inj h, rfl⟩
    · rintro ⟨first, rfl, hfirst⟩
      rw [List.map_eq_nil_iff.1 hfirst]
      rfl
  | cons p literal ih =>
    cases s with
    | nil =>
      constructor
      · intro h
        cases h
      · rintro ⟨first, hs, hfirst⟩
        rw [(List.append_eq_nil_iff.1 hs.symm).1] at hfirst
        cases hfirst
    | cons c s =>
      rw [dropIgnoringCase]
      constructor
      · intro h
        split at h
        · rename_i hc
          obtain ⟨first, rfl, hfirst⟩ := ih.1 h
          exact ⟨c :: first, rfl, by rw [List.map_cons, hfirst, hc]⟩
        · cases h
      · rintro ⟨first, hs, hfirst⟩
        cases first with
        | nil => cases hfirst
        | cons d first =>
          obtain ⟨rfl, rfl⟩ := List.cons.inj hs
          obtain ⟨hc, hfirst⟩ := List.cons.inj hfirst
          rw [if_pos hc.symm]
          exact ih.2 ⟨first, rfl, hfirst⟩

theorem suffix_of_dropIgnoringCase {literal s r : List Char}
    (h : dropIgnoringCase literal s = some r) : r <:+ s := by
  obtain ⟨first, rfl, -⟩ := dropIgnoringCase_eq_some_iff.1 h
  exact List.suffix_append first r

theorem begins_iff {literal s : List Char} :
    Begins literal s ↔ (dropIgnoringCase literal s).isSome = true := by
  rw [Option.isSome_iff_exists]
  constructor
  · rintro ⟨first, rest, hs, hfirst⟩
    exact ⟨rest, dropIgnoringCase_eq_some_iff.2 ⟨first, hs, hfirst⟩⟩
  · rintro ⟨rest, hrest⟩
    obtain ⟨first, hs, hfirst⟩ := dropIgnoringCase_eq_some_iff.1 hrest
    exact ⟨first, rest, hs, hfirst⟩

/-- The body goes up to the first place where the closing tag begins. -/
theorem bodyUpTo?_eq_some_iff {close seen s body : List Char} (hne : close ≠ []) :
    bodyUpTo? close seen s = some body ↔
      ∃ inside behind, s = inside ++ behind ∧ body = seen.reverse ++ inside ∧ Begins close behind ∧
        ∀ u v, inside = u ++ v → v ≠ [] → ¬ Begins close (v ++ behind) := by
  constructor
  · intro h
    induction s generalizing seen with
    | nil => cases h
    | cons c s ih =>
      rw [bodyUpTo?] at h
      split at h
      · rename_i hclose
        refine ⟨[], c :: s, rfl, by simpa using (Option.some.inj h).symm, begins_iff.2 hclose, ?_⟩
        intro u v huv hv
        exact absurd (List.append_eq_nil_iff.1 huv.symm).2 hv
      · rename_i hopen
        obtain ⟨inside, behind, rfl, rfl, hclose, hfirst⟩ := ih h
        refine ⟨c :: inside, behind, rfl, by simp, hclose, ?_⟩
        intro u v huv hv
        cases u with
        | nil =>
          obtain rfl : c :: inside = v := huv
          exact fun hbegins => hopen (begins_iff.1 hbegins)
        | cons d u => exact hfirst u v (List.cons.inj huv).2 hv
  · rintro ⟨inside, behind, rfl, rfl, hclose, hfirst⟩
    induction inside generalizing seen with
    | nil =>
      cases behind with
      | nil =>
        obtain ⟨first, rest, hnil, rfl⟩ := hclose
        rw [(List.append_eq_nil_iff.1 hnil.symm).1] at hne
        exact absurd rfl hne
      | cons c behind => rw [List.nil_append, bodyUpTo?, if_pos (begins_iff.1 hclose), List.append_nil]
    | cons c inside ih =>
      have hopen := hfirst [] (c :: inside) rfl (List.cons_ne_nil c inside)
      rw [begins_iff] at hopen
      rw [List.cons_append] at hopen
      rw [List.cons_append, bodyUpTo?, if_neg hopen, ih]
      · simp
      · intro u v huv hv
        exact hfirst (c :: u) v (by rw [huv, List.cons_append]) hv

theorem exists_isOpening_iff {tag : String} {s inside : List Char} :
    (∃ opening, s = opening ++ inside ∧ IsOpening tag opening) ↔
      ∃ r, dropIgnoringCase ('<' :: tag.toList) s = some r ∧
        r.dropWhile (· ≠ '>') = '>' :: inside := by
  constructor
  · rintro ⟨-, rfl, name, attributes, rfl, hname, hattributes⟩
    refine ⟨attributes ++ '>' :: inside, dropIgnoringCase_eq_some_iff.2 ⟨name, by simp, hname⟩, ?_⟩
    refine (span_append ?_ ?_).2
    · rintro c hc
      refine decide_eq_true ?_
      rintro rfl
      exact hattributes hc
    · rintro c hc
      obtain rfl : '>' = c := Option.some.inj hc
      rfl
  · rintro ⟨r, hopen, hinside⟩
    obtain ⟨name, rfl, hname⟩ := dropIgnoringCase_eq_some_iff.1 hopen
    refine ⟨name ++ (r.takeWhile (· ≠ '>') ++ ['>']), ?_, name, _, rfl, hname, ?_⟩
    · rw [List.append_assoc, List.append_assoc, List.singleton_append, ← hinside,
        List.takeWhile_append_dropWhile]
    · intro hmem
      have := List.mem_takeWhile_imp hmem
      simp at this

theorem block_eq_some_iff {tag : String} {before : Option Char} {s body : List Char}
    {lead length : Nat} :
    block tag before s = some ((body, lead), length) ↔
      ∃ opening behind, s = opening ++ (body ++ behind) ∧ IsBlock tag opening body behind ∧
        lead = opening.length ∧ length = lead + body.length + (closingTag tag).length := by
  have hne : closingTag tag ≠ [] := List.cons_ne_nil _ _
  have hlength : ∀ opening inside : List Char,
      (opening ++ inside).length - inside.length = opening.length := by
    intro opening inside
    rw [List.length_append, Nat.add_sub_cancel]
  constructor
  · intro h
    simp only [block] at h
    split at h
    · cases h
    · rename_i r hopen
      split at h
      · cases h
      · rename_i c inside hinside
        obtain ⟨found, hbody, heq⟩ := Option.map_eq_some_iff.1 h
        cases heq
        obtain rfl : c = '>' := by
          have := head?_dropWhile (· ≠ '>') r
          rw [hinside] at this
          simpa using this
        obtain ⟨opening, rfl, hopening⟩ := exists_isOpening_iff.2 ⟨r, hopen, hinside⟩
        obtain ⟨inside, behind, rfl, rfl, hclose, hfirst⟩ := (bodyUpTo?_eq_some_iff hne).1 hbody
        refine ⟨opening, behind, rfl, ⟨hopening, hclose, hfirst⟩, hlength _ _, rfl⟩
  · rintro ⟨opening, behind, rfl, hblock, rfl, rfl⟩
    have hopening : ∃ first, opening ++ (body ++ behind) = first ++ (body ++ behind) ∧
        IsOpening tag first := ⟨opening, rfl, hblock.opens⟩
    obtain ⟨r, hopen, hinside⟩ := exists_isOpening_iff.1 hopening
    have hbody : bodyUpTo? (closingTag tag) [] (body ++ behind) = some body :=
      (bodyUpTo?_eq_some_iff hne).2 ⟨body, behind, rfl, rfl, hblock.closes, hblock.first⟩
    rw [closingTag] at hbody
    simp only [block, hopen, hinside, hbody, hlength, Option.map_some, closingTag]

theorem block_eq_none_iff {tag : String} {before : Option Char} {s : List Char} :
    block tag before s = none ↔ ¬ BeginsBlock tag s := by
  rw [Option.eq_none_iff_forall_ne_some, BeginsBlock]
  constructor
  · rintro h ⟨opening, body, behind, hs, hblock⟩
    exact h _ (block_eq_some_iff.2 ⟨opening, behind, hs, hblock, rfl, rfl⟩)
  · rintro h ⟨⟨body, lead⟩, length⟩ hfound
    obtain ⟨opening, behind, hs, hblock, -⟩ := block_eq_some_iff.1 hfound
    exact h ⟨opening, body, behind, hs, hblock⟩

/-! ## The first block -/

theorem findBlock?_eq_some_iff {tag : String} {content : List Char} {b : Block} :
    findBlock? tag content = some b ↔
      ∃ before behind, IsFirstBlock tag content before b.text behind ∧
        b.start = Position.after before := by
  have hstart : ∀ earlier opening rest : List Char,
      (Document.ofText (earlier ++ (opening ++ rest)) "").positionAt
        (earlier.length + opening.length : Nat) = Position.after (earlier ++ opening) := by
    intro earlier opening rest
    rw [← List.append_assoc, ← List.length_append, Document.positionAt_length]
  rw [findBlock?, Option.map_eq_some_iff]
  constructor
  · rintro ⟨⟨offset, body, lead⟩, hfound, rfl⟩
    obtain ⟨earlier, rest, length, rfl, rfl, hhere, hfirst⟩ := Search.first?_eq_some_iff.1 hfound
    obtain ⟨opening, behind, rfl, hblock, rfl, -⟩ := block_eq_some_iff.1 hhere
    refine ⟨earlier ++ opening, behind, ⟨(List.append_assoc _ _ _).symm, earlier, opening, rfl, hblock,
      ?_⟩, hstart earlier opening (body ++ behind)⟩
    intro u v huv hv
    exact block_eq_none_iff.1 (hfirst u v huv hv)
  · obtain ⟨body, start⟩ := b
    rintro ⟨before, behind, ⟨rfl, earlier, opening, rfl, hblock, hfirst⟩, rfl⟩
    refine ⟨⟨earlier.length, body, opening.length⟩, Search.first?_eq_some_iff.2 ?_, ?_⟩
    · refine ⟨earlier, opening ++ (body ++ behind), _, List.append_assoc _ _ _, rfl,
        block_eq_some_iff.2 ⟨opening, behind, rfl, hblock, rfl, rfl⟩, ?_⟩
      intro u v huv hv
      exact block_eq_none_iff.2 (hfirst u v huv hv)
    · rw [List.append_assoc, hstart]

/-- Wherever a block begins, there is a first one. -/
theorem findBlock?_eq_none_iff {tag : String} {content : List Char} :
    findBlock? tag content = none ↔
      ∀ before body behind, ¬ IsFirstBlock tag content before body behind := by
  rw [Option.eq_none_iff_forall_ne_some]
  constructor
  · intro h before body behind hfirst
    exact h ⟨body, Position.after before⟩ (findBlock?_eq_some_iff.2 ⟨before, behind, hfirst, rfl⟩)
  · intro h b hfound
    obtain ⟨before, behind, hfirst, -⟩ := findBlock?_eq_some_iff.1 hfound
    exact h before b.text behind hfirst

theorem not_begins_append {literal v : List Char} (hv : v ≠ []) (h : '<' ∉ v) (s : List Char) :
    ¬ Begins ('<' :: literal) (v ++ s) := by
  intro hbegins
  have hhead := head?_of_begins hbegins
  rw [List.head?_append_of_ne_nil v hv] at hhead
  exact h (List.mem_of_head? hhead)

theorem begins_of_beginsBlock {tag : String} {s : List Char} (h : BeginsBlock tag s) :
    Begins ('<' :: tag.toList) s := by
  obtain ⟨-, body, behind, rfl, ⟨⟨name, attributes, rfl, hname, -⟩, -, -⟩⟩ := h
  exact ⟨name, _, List.append_assoc _ _ _, hname⟩

/-- A block is the first one if no tag begins before it, and it has this body if no tag begins in it. -/
theorem isFirstBlock_of_not_mem {tag : String} {earlier opening body behind : List Char}
    (hearlier : '<' ∉ earlier) (hopening : IsOpening tag opening) (hbody : '<' ∉ body)
    (hclose : Begins (closingTag tag) behind) :
    IsFirstBlock tag (earlier ++ opening ++ (body ++ behind)) (earlier ++ opening) body behind where
  content_eq := rfl
  exists_opening := by
    refine ⟨earlier, opening, rfl, ⟨hopening, hclose, ?_⟩, ?_⟩
    · rintro u v rfl hv
      exact not_begins_append hv (fun hmem => hbody (List.mem_append_right u hmem)) behind
    · rintro u v rfl hv hblock
      have hbegins := begins_of_beginsBlock hblock
      exact not_begins_append hv (fun hmem => hearlier (List.mem_append_right u hmem)) _ hbegins

end Vue
end DeclScan
