import DeclScan.Json.Comments
import DeclScan.Proofs.Text.Blanks

/-!
# DeclScan.Proofs.Json.Comments

What removing comments makes of a text. Every text is cut into *sections*, from left to right: string
literals, comments, and characters outside of these. Removing the comments keeps the others.

* `sections`, `stripComments_eq`: the sections of a text, and what is kept.
* `literalTail?_eq_some_iff`, `blockTail?_eq_some_iff`: where a literal and a block comment end.
* `Cut`, `cut_sections`: what sections there are; `stripComments_eq_self`: a text without comments.
* `Fragment`, `Commented`: texts that are put together from literals, comments and other text;
  `stripComments_text`: they lose their comments, and nothing else.
-/

namespace DeclScan
namespace Json

open Text

/-! ## Sections -/

/-- A string literal or a comment, or a character outside of these. -/
inductive Section where
  | piece (kind : Piece) (text : List Char)
  | char (c : Char)
  deriving Repr, DecidableEq

namespace Section

def text : Section → List Char
  | piece _ text => text
  | char c => [c]

def isComment : Section → Bool
  | piece kind _ => kind = .comment
  | char _ => false

@[simp] theorem text_piece (kind : Piece) (text : List Char) : (piece kind text).text = text := rfl

@[simp] theorem text_char (c : Char) : (char c).text = [c] := rfl

@[simp] theorem isComment_piece (kind : Piece) (text : List Char) :
    (piece kind text).isComment = decide (kind = .comment) := rfl

@[simp] theorem isComment_char (c : Char) : (char c).isComment = false := rfl

end Section

/-- The text of sections that follow one another. -/
def textOf (xs : List Section) : List Char := xs.flatMap Section.text

def withoutComments (xs : List Section) : List Section := xs.filter fun x => !x.isComment

@[simp] theorem textOf_nil : textOf [] = [] := rfl

@[simp] theorem textOf_cons (x : Section) (xs : List Section) :
    textOf (x :: xs) = x.text ++ textOf xs := rfl

@[simp] theorem textOf_append (xs ys : List Section) :
    textOf (xs ++ ys) = textOf xs ++ textOf ys :=
  List.flatMap_append

@[simp] theorem withoutComments_nil : withoutComments [] = [] := rfl

@[simp] theorem withoutComments_append (xs ys : List Section) :
    withoutComments (xs ++ ys) = withoutComments xs ++ withoutComments ys :=
  List.filter_append xs ys

/-- The sections of a text; `skip` characters belong to one that is dealt with. -/
def sectionsFrom : Nat → List Char → List Section
  | _, [] => []
  | skip + 1, _ :: s => sectionsFrom skip s
  | 0, c :: s =>
    match piece? (c :: s) with
    | some (kind, n) => .piece kind ((c :: s).take n) :: sectionsFrom (n - 1) s
    | none => .char c :: sectionsFrom 0 s

def sections (s : List Char) : List Section := sectionsFrom 0 s

theorem sectionsFrom_eq (skip : Nat) (s : List Char) :
    sectionsFrom skip s = sections (s.drop skip) := by
  induction s generalizing skip with
  | nil => simp [sections, sectionsFrom]
  | cons c s ih =>
    cases skip with
    | zero => rfl
    | succ skip => rw [sectionsFrom, ih, List.drop_succ_cons]

theorem sections_piece {kind : Piece} {s t : List Char} (hne : t ≠ [])
    (h : piece? (t ++ s) = some (kind, t.length)) :
    sections (t ++ s) = .piece kind t :: sections s := by
  obtain ⟨c, t, rfl⟩ := List.exists_cons_of_ne_nil hne
  rw [List.cons_append] at h
  rw [sections, List.cons_append, sectionsFrom, h]
  simp only
  rw [← List.cons_append, List.take_left, sectionsFrom_eq, List.length_cons, Nat.add_sub_cancel,
    List.drop_left]

theorem sections_char {c : Char} {s : List Char} (h : piece? (c :: s) = none) :
    sections (c :: s) = .char c :: sections s := by
  rw [sections, sectionsFrom, h]
  rfl

theorem stripFrom_eq (out : List Char) (skip : Nat) (s : List Char) :
    stripFrom out skip s = out.reverse ++ textOf (withoutComments (sectionsFrom skip s)) := by
  induction s generalizing out skip with
  | nil => cases skip <;> simp [stripFrom, sectionsFrom]
  | cons c s ih =>
    cases skip with
    | succ skip => rw [stripFrom, sectionsFrom, ih]
    | zero =>
      rw [stripFrom, sectionsFrom]
      cases piece? (c :: s) with
      | none => simp [ih, withoutComments]
      | some found =>
        obtain ⟨kind, n⟩ := found
        cases kind <;> simp [ih, withoutComments]

theorem stripComments_eq (s : List Char) :
    stripComments s = textOf (withoutComments (sections s)) :=
  stripFrom_eq [] 0 s

/-! ## Literals and comments -/

/-- What stands between the quotes of a string literal. -/
inductive IsLiteralBody : List Char → Prop where
  | nil : IsLiteralBody []
  | plain {c : Char} {body : List Char} (hquote : c ≠ '"') (hbackslash : c ≠ '\\')
      (h : IsLiteralBody body) : IsLiteralBody (c :: body)
  | escape {c : Char} {body : List Char} (hnewline : c ≠ '\n') (h : IsLiteralBody body) :
      IsLiteralBody ('\\' :: c :: body)

def quoted (body : List Char) : List Char := '"' :: (body ++ ['"'])

def blockMark : List Char := ['*', '/']

variable {n m : Nat} {s : List Char}

/-- A literal goes up to the first quote that is not escaped. -/
theorem literalTail?_eq_some_iff : literalTail? n s = some m ↔
    ∃ body rest, s = body ++ '"' :: rest ∧ IsLiteralBody body ∧ m = n + body.length + 1 := by
  constructor
  · intro h
    fun_induction literalTail? n s with
    | case1 => cases h
    | case2 n rest => exact ⟨[], rest, rfl, .nil, (Option.some.inj h).symm⟩
    | case3 => cases h
    | case4 n c s hc ih =>
      obtain ⟨body, rest, rfl, hbody, rfl⟩ := ih h
      refine ⟨'\\' :: c :: body, rest, rfl, .escape hc hbody, ?_⟩
      simp only [List.length_cons]
      omega
    | case5 => cases h
    | case6 n c s hquote hescape hlast ih =>
      obtain ⟨body, rest, rfl, hbody, rfl⟩ := ih h
      have hbackslash : c ≠ '\\' := by
        rintro rfl
        cases body with
        | nil => exact hescape '"' rest rfl rfl
        | cons d body => exact hescape d _ rfl rfl
      refine ⟨c :: body, rest, rfl, .plain hquote hbackslash hbody, ?_⟩
      simp only [List.length_cons]
      omega
  · rintro ⟨body, rest, rfl, hbody, rfl⟩
    induction hbody generalizing n with
    | nil => rfl
    | @plain c body hquote hbackslash hbody ih =>
      have hstep : literalTail? n (c :: (body ++ '"' :: rest)) =
          literalTail? (n + 1) (body ++ '"' :: rest) := by
        rw [literalTail?.eq_def]
        split <;> simp_all
      rw [List.cons_append, hstep, ih, List.length_cons]
      congr 1
      omega
    | @escape c body hc hbody ih =>
      rw [List.cons_append, List.cons_append, literalTail?, if_neg hc, ih, List.length_cons,
        List.length_cons]
      congr 1
      omega

/-- A block comment goes up to the first star with a slash behind it. -/
theorem blockTail?_eq_some_iff : blockTail? n s = some m ↔
    ∃ body rest, s = body ++ (blockMark ++ rest) ∧ ¬ blockMark <:+: body ∧
      m = n + body.length + 2 := by
  constructor
  · intro h
    fun_induction blockTail? n s with
    | case1 => cases h
    | case2 n rest =>
      exact ⟨[], rest, rfl, by simp [blockMark], (Option.some.inj h).symm⟩
    | case3 n c s hstop ih =>
      obtain ⟨body, rest, rfl, hbody, rfl⟩ := ih h
      refine ⟨c :: body, rest, rfl, ?_, by simp only [List.length_cons]; omega⟩
      rw [List.infix_cons_iff, not_or]
      refine ⟨?_, hbody⟩
      rintro ⟨t, ht⟩
      obtain ⟨rfl, hbody⟩ := List.cons.inj ht
      exact hstop (t ++ (blockMark ++ rest)) rfl (by rw [← hbody]; rfl)
  · rintro ⟨body, rest, rfl, hbody, rfl⟩
    induction body generalizing n with
    | nil => rfl
    | cons c body ih =>
      rw [List.infix_cons_iff, not_or] at hbody
      have hstep : blockTail? n (c :: (body ++ (blockMark ++ rest))) =
          blockTail? (n + 1) (body ++ (blockMark ++ rest)) := by
        rw [blockTail?.eq_def]
        split
        · rename_i heq
          cases heq
        · rename_i r heq
          obtain ⟨rfl, hnext⟩ := List.cons.inj heq
          cases body with
          | nil => cases hnext
          | cons d body =>
            obtain ⟨rfl, -⟩ := List.cons.inj hnext
            exact absurd ⟨body, rfl⟩ hbody.1
        · rename_i heq
          obtain ⟨-, rfl⟩ := List.cons.inj heq
          rfl
      rw [List.cons_append, hstep, ih hbody.2, List.length_cons]
      congr 1
      omega

theorem blockTail?_eq_none_iff : blockTail? n s = none ↔ ¬ blockMark <:+: s := by
  fun_induction blockTail? n s with
  | case1 => simp [blockMark]
  | case2 n rest =>
    simp only [reduceCtorEq, false_iff, Decidable.not_not]
    exact (List.prefix_append blockMark rest).isInfix
  | case3 n c s hstop ih =>
    have hfirst : ¬ blockMark <+: c :: s := by
      rintro ⟨t, ht⟩
      obtain ⟨rfl, rfl⟩ := List.cons.inj ht
      exact hstop t rfl rfl
    rw [ih, List.infix_cons_iff, or_iff_right hfirst]

theorem quoted_ne_nil (body : List Char) : quoted body ≠ [] := List.cons_ne_nil _ _

theorem quoted_append (body s : List Char) : quoted body ++ s = '"' :: (body ++ '"' :: s) := by
  simp [quoted]

theorem length_quoted (body : List Char) : (quoted body).length = 1 + body.length + 1 := by
  simp [quoted]
  omega

theorem sections_quoted {body : List Char} (h : IsLiteralBody body) (s : List Char) :
    sections (quoted body ++ s) = .piece .literal (quoted body) :: sections s := by
  refine sections_piece (quoted_ne_nil body) ?_
  have htail : literalTail? 1 (body ++ '"' :: s) = some (quoted body).length :=
    literalTail?_eq_some_iff.2 ⟨body, s, rfl, h, length_quoted body⟩
  rw [quoted_append, piece?, htail, Option.map_some]

theorem sections_block {body : List Char} (h : ¬ blockMark <:+: body) (s : List Char) :
    sections ('/' :: '*' :: (body ++ blockMark) ++ s) =
      .piece .comment ('/' :: '*' :: (body ++ blockMark)) :: sections s := by
  refine sections_piece (List.cons_ne_nil _ _) ?_
  have htail : blockTail? 2 (body ++ blockMark ++ s) =
      some ('/' :: '*' :: (body ++ blockMark)).length := by
    refine blockTail?_eq_some_iff.2 ⟨body, s, List.append_assoc _ _ _, h, ?_⟩
    simp [blockMark]
    omega
  rw [List.cons_append, List.cons_append, piece?, htail, Option.map_some]

theorem sections_line {body s : List Char} (h : '\n' ∉ body) (hs : ∀ c ∈ s.head?, c = '\n') :
    sections ('/' :: '/' :: body ++ s) = .piece .comment ('/' :: '/' :: body) :: sections s := by
  refine sections_piece (List.cons_ne_nil _ _) ?_
  have hall : ∀ c ∈ body, decide (c ≠ '\n') = true := by
    intro c hc
    simpa using fun heq : c = '\n' => h (heq ▸ hc)
  have hstop : ∀ c ∈ s.head?, decide (c ≠ '\n') = false := fun c hc => by simp [hs c hc]
  rw [List.cons_append, List.cons_append, piece?, (span_append hall hstop).1, List.length_cons,
    List.length_cons, Nat.add_comm]

theorem piece?_eq_none {c : Char} (hquote : c ≠ '"') (hslash : c ≠ '/') :
    piece? (c :: s) = none := by
  rw [piece?.eq_def]
  split <;> simp_all

theorem sections_plain {text : List Char} (h : ∀ c ∈ text, c ≠ '"' ∧ c ≠ '/') (s : List Char) :
    sections (text ++ s) = text.map .char ++ sections s := by
  induction text with
  | nil => rfl
  | cons c text ih =>
    obtain ⟨hc, htext⟩ := List.forall_mem_cons.1 h
    rw [List.cons_append, sections_char (piece?_eq_none hc.1 hc.2), ih htext, List.map_cons,
      List.cons_append]

/-! ## How a text is cut -/

/-- A text with its sections: literals, comments, and characters that begin neither. -/
inductive Cut : List Char → List Section → Prop where
  | nil : Cut [] []
  | literal {body s : List Char} {xs : List Section} (hbody : IsLiteralBody body) (h : Cut s xs) :
      Cut (quoted body ++ s) (.piece .literal (quoted body) :: xs)
  | comment {t s : List Char} {xs : List Section} (hne : t ≠ [])
      (hpiece : piece? (t ++ s) = some (.comment, t.length)) (h : Cut s xs) :
      Cut (t ++ s) (.piece .comment t :: xs)
  | char {c : Char} {s : List Char} {xs : List Section} (hpiece : piece? (c :: s) = none)
      (h : Cut s xs) : Cut (c :: s) (.char c :: xs)

theorem exists_of_piece? {kind : Piece} (h : piece? s = some (kind, n)) :
    ∃ t r, s = t ++ r ∧ t.length = n ∧ t ≠ [] ∧
      (kind = .literal → ∃ body, t = quoted body ∧ IsLiteralBody body) := by
  unfold piece? at h
  split at h
  · rename_i rest
    obtain ⟨m, hm, heq⟩ := Option.map_eq_some_iff.1 h
    obtain ⟨rfl, rfl⟩ := Prod.mk.inj heq
    obtain ⟨body, r, rfl, hbody, rfl⟩ := literalTail?_eq_some_iff.1 hm
    exact ⟨quoted body, r, (quoted_append body r).symm, length_quoted body, quoted_ne_nil body,
      fun _ => ⟨body, rfl, hbody⟩⟩
  · rename_i rest
    obtain ⟨rfl, rfl⟩ := Prod.mk.inj (Option.some.inj h)
    refine ⟨'/' :: '/' :: rest.takeWhile (· ≠ '\n'), rest.dropWhile (· ≠ '\n'), ?_, ?_,
      List.cons_ne_nil _ _, fun h => Piece.noConfusion h⟩
    · simp only [List.cons_append, List.takeWhile_append_dropWhile]
    · simp only [List.length_cons]
      omega
  · rename_i rest
    obtain ⟨m, hm, heq⟩ := Option.map_eq_some_iff.1 h
    obtain ⟨rfl, rfl⟩ := Prod.mk.inj heq
    obtain ⟨body, r, rfl, -, rfl⟩ := blockTail?_eq_some_iff.1 hm
    refine ⟨'/' :: '*' :: (body ++ blockMark), r, by simp, ?_, List.cons_ne_nil _ _,
      fun h => Piece.noConfusion h⟩
    simp [blockMark]
    omega
  · cases h

/-- The sections of a text are what it is cut into. -/
theorem cut_sections (s : List Char) : Cut s (sections s) := by
  induction h : s.length using Nat.strongRecOn generalizing s with
  | ind n ih =>
    subst h
    cases s with
    | nil => exact .nil
    | cons c s =>
      cases hpiece : piece? (c :: s) with
      | none =>
        rw [sections_char hpiece]
        exact .char hpiece (ih s.length (Nat.lt_succ_self _) s rfl)
      | some found =>
        obtain ⟨kind, n⟩ := found
        obtain ⟨t, r, htext, rfl, hne, hliteral⟩ := exists_of_piece? hpiece
        have hshorter : r.length < (c :: s).length := by
          rw [htext, List.length_append]
          exact Nat.lt_add_of_pos_left (List.length_pos_iff.2 hne)
        have hrest := ih r.length hshorter r rfl
        rw [htext] at hpiece ⊢
        rw [sections_piece hne hpiece]
        cases kind with
        | literal =>
          obtain ⟨body, rfl, hbody⟩ := hliteral rfl
          exact .literal hbody hrest
        | comment => exact .comment hne hpiece hrest

theorem Cut.textOf_eq {xs : List Section} (h : Cut s xs) : textOf xs = s := by
  induction h with
  | nil => rfl
  | literal hbody h ih => rw [textOf_cons, ih, Section.text_piece]
  | comment hne hpiece h ih => rw [textOf_cons, ih, Section.text_piece]
  | char hpiece h ih => rw [textOf_cons, ih, Section.text_char, List.singleton_append]

/-- A text without comments stays as it is. -/
theorem stripComments_eq_self (h : ∀ x ∈ sections s, x.isComment = false) : stripComments s = s := by
  have hkeep : withoutComments (sections s) = sections s :=
    List.filter_eq_self.2 fun x hx => by rw [h x hx, Bool.not_false]
  rw [stripComments_eq, hkeep, (cut_sections s).textOf_eq]

/-! ## Commented texts -/

/-- A part of a text: a string literal, text without quotes and slashes, a block comment, or a comment
up to the end of its line. -/
inductive Fragment where
  | literal (body : List Char) (h : IsLiteralBody body)
  | plain (text : List Char) (h : ∀ c ∈ text, c ≠ '"' ∧ c ≠ '/')
  | block (body : List Char) (h : ¬ blockMark <:+: body)
  | line (body : List Char) (h : '\n' ∉ body)

namespace Fragment

def text : Fragment → List Char
  | literal body _ => quoted body
  | plain text _ => text
  | block body _ => '/' :: '*' :: (body ++ blockMark)
  | line body _ => '/' :: '/' :: body

def isComment : Fragment → Bool
  | literal _ _ => false
  | plain _ _ => false
  | block _ _ => true
  | line _ _ => true

/-- What a fragment is cut into. -/
def sections : Fragment → List Section
  | literal body _ => [.piece .literal (quoted body)]
  | plain text _ => text.map .char
  | block body _ => [.piece .comment ('/' :: '*' :: (body ++ blockMark))]
  | line body _ => [.piece .comment ('/' :: '/' :: body)]

/-- Other text begins with a newline. -/
def IsBreak : Fragment → Prop
  | plain text _ => text.head? = some '\n'
  | _ => False

end Fragment

/-- Behind a comment that ends with its line, the text ends or goes on with the next line. -/
def EndLines : List Fragment → Prop
  | [] => True
  | .line _ _ :: rest => (∀ f ∈ rest.head?, f.IsBreak) ∧ EndLines rest
  | _ :: rest => EndLines rest

/-- Fragments that follow one another. -/
structure Commented where
  fragments : List Fragment
  endLines : EndLines fragments

namespace Commented

def text (t : Commented) : List Char := t.fragments.flatMap Fragment.text

/-- The text without its comments. -/
def uncommented (t : Commented) : List Char :=
  (t.fragments.filter fun f => !f.isComment).flatMap Fragment.text

end Commented

theorem sections_flatMap_text {fs : List Fragment} (h : EndLines fs) :
    sections (fs.flatMap Fragment.text) = fs.flatMap Fragment.sections := by
  induction fs with
  | nil => rfl
  | cons f fs ih =>
    rw [List.flatMap_cons, List.flatMap_cons]
    cases f with
    | literal body hbody =>
      rw [← ih h]
      exact sections_quoted hbody _
    | plain text htext =>
      rw [← ih h]
      exact sections_plain htext _
    | block body hbody =>
      rw [← ih h]
      exact sections_block hbody _
    | line body hbody =>
      rw [← ih h.2]
      refine sections_line hbody fun c hc => ?_
      cases fs with
      | nil => cases hc
      | cons f fs =>
        have hbreak := h.1 f rfl
        cases f with
        | plain text htext =>
          have hhead : text.head? = some '\n' := hbreak
          obtain ⟨rest, rfl⟩ := List.head?_eq_some_iff.1 hhead
          exact (Option.some.inj hc).symm
        | literal body hbody => exact hbreak.elim
        | block body hbody => exact hbreak.elim
        | line body hbody => exact hbreak.elim

theorem Fragment.textOf_withoutComments_sections (f : Fragment) :
    textOf (withoutComments f.sections) = if f.isComment then [] else f.text := by
  cases f with
  | literal body h => exact List.append_nil _
  | plain text h =>
    have hkeep : withoutComments (text.map .char) = text.map .char :=
      List.filter_eq_self.2 fun x hx => by
        obtain ⟨c, -, rfl⟩ := List.mem_map.1 hx
        rfl
    rw [sections, hkeep, textOf, List.flatMap_map]
    exact List.flatMap_singleton' text
  | block body h => rfl
  | line body h => rfl

/-- Removing comments removes the comments of a text and nothing else. -/
theorem stripComments_text (t : Commented) : stripComments t.text = t.uncommented := by
  rw [stripComments_eq, Commented.text, sections_flatMap_text t.endLines, Commented.uncommented]
  generalize t.fragments = fs
  induction fs with
  | nil => rfl
  | cons f fs ih =>
    rw [List.flatMap_cons, withoutComments_append, textOf_append, ih,
      f.textOf_withoutComments_sections]
    cases h : f.isComment <;> simp [h]

namespace Marked

/-- A literal with a quote and the mark of a comment in it, and comments of both kinds. -/
def commented : Commented where
  fragments :=
    [.literal ['a', '\\', '"', '/', '/'] (.plain (by decide) (by decide) (.escape (by decide)
        (.plain (by decide) (by decide) (.plain (by decide) (by decide) .nil)))),
      .block ['b'] (by decide), .plain [':'] (by simp), .line ['*', '/'] (by simp),
      .plain ['\n', '1'] (by simp)]
  endLines := by simp [EndLines, Fragment.IsBreak]

theorem stripComments_commented : commented.text = "\"a\\\"//\"/*b*/://*/\n1".toList ∧
    stripComments commented.text = "\"a\\\"//\":\n1".toList :=
  ⟨by decide, (stripComments_text commented).trans (by decide)⟩

end Marked

end Json
end DeclScan
