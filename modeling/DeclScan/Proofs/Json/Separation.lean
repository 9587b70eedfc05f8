import DeclScan.Extractor
import DeclScan.Proofs.Json.Grammar
import DeclScan.Proofs.Text.Words

/-!
# DeclScan.Proofs.Json.Separation

What is lost where comments are removed and nothing takes their place: a comment between two
characters of words holds these apart. Where no comment does, a text without its comments is read as
the text with a blank for each of them.

* `tokens`, `lexes_tokens`: the tokens of a commented text.
* `spaceComments`, `joinsWords`: blanks for comments, and comments that hold words apart.
* `tokens_withoutComments`, `not_setApart_of_joinsWords`: the tokens without the comments.
* `read_spaceComments_iff`: what is read with blanks for comments.
* `Extractor.vars_spaceComments_eq_iff`: the variables of a text with blanks for its comments.
-/

namespace DeclScan
namespace Json

open Text

/-! ## The tokens of a commented text -/

/-- Whether a character of a word comes next. -/
def startsWord : List Section → Bool
  | .char c :: _ => isWordChar c
  | _ => false

/-- Puts a character of a word in front of tokens, into the first of them if it is `joined` to it. -/
def addChar (c : Char) : Bool → List Token → List Token
  | true, .word u :: ts => .word (c :: u) :: ts
  | _, ts => .word [c] :: ts

/-- The tokens of sections. A comment ends a word, as white space does. -/
def tokens : List Section → List Token
  | [] => []
  | .piece .comment _ :: xs => tokens xs
  | .piece .literal text :: xs => .literal text :: tokens xs
  | .char c :: xs =>
    if isSpace c then tokens xs
    else if isMark c then .mark c :: tokens xs
    else addChar c (startsWord xs) (tokens xs)

/-- Literals, comments, and characters outside of these that are no quotes. -/
def Section.IsClosed : Section → Prop
  | .piece .literal text => ∃ body, IsLiteralBody body ∧ text = quoted body
  | .piece .comment _ => True
  | .char c => c ≠ '"'

section

variable {c d : Char} {s : List Char} {ts : List Token} {xs : List Section}

theorem addChar_false (c : Char) (ts : List Token) : addChar c false ts = .word [c] :: ts := rfl

theorem tokens_space (hc : isSpace c = true) : tokens (.char c :: xs) = tokens xs := by
  rw [tokens, if_pos hc]

theorem tokens_mark (hc : isMark c = true) : tokens (.char c :: xs) = .mark c :: tokens xs := by
  rw [tokens, if_neg (by simp [isSpace_of_isMark hc]), if_pos hc]

theorem tokens_wordChar (hc : isWordChar c = true) :
    tokens (.char c :: xs) = addChar c (startsWord xs) (tokens xs) := by
  obtain ⟨hspace, hmark, -⟩ := isWordChar_eq_true_iff.1 hc
  rw [tokens, if_neg (by simp [hspace]), if_neg (by simp [hmark])]

theorem isWordChar_of_ne_quote (hc : c ≠ '"') (hspace : ¬ isSpace c = true)
    (hmark : ¬ isMark c = true) : isWordChar c = true :=
  isWordChar_eq_true_iff.2 ⟨by simpa using hspace, by simpa using hmark, hc⟩

theorem Lexes.addChar_true (hc : isWordChar c = true) (hd : isWordChar d = true)
    (h : Lexes (d :: s) ts) : Lexes (c :: d :: s) (addChar c true ts) := by
  obtain ⟨hspace, hmark, hquote⟩ := isWordChar_eq_true_iff.1 hd
  rcases h.of_cons with ⟨hd', -⟩ | ⟨hd', -⟩ | ⟨hd', -⟩ | ⟨-, u, r, rest, hu, hr, htext, rfl, hrest⟩
  · exact absurd hd' (by simp [hspace])
  · exact absurd hd' (by simp [hmark])
  · exact absurd hd' hquote
  · rw [htext]
    exact .word (List.cons_ne_nil c u) (List.forall_mem_cons.2 ⟨hc, hu⟩) hr hrest

theorem Lexes.addChar_false (hc : isWordChar c = true) (hs : Stops s) (h : Lexes s ts) :
    Lexes (c :: s) (addChar c false ts) :=
  .word (u := [c]) (List.cons_ne_nil c []) (List.forall_mem_singleton.2 hc) hs h

theorem lexes_addChar (hc : isWordChar c = true) (hclosed : ∀ x ∈ xs, x.IsClosed)
    (hclean : ∀ x ∈ xs, x.isComment = false) (h : Lexes (textOf xs) ts) :
    Lexes (c :: textOf xs) (addChar c (startsWord xs) ts) := by
  cases xs with
  | nil => exact h.addChar_false hc (by simp [Stops])
  | cons x xs =>
    match x, hclosed x List.mem_cons_self, hclean x List.mem_cons_self with
    | .piece .literal _, ⟨body, _, rfl⟩, _ =>
      exact h.addChar_false hc fun d hd => Option.some.inj hd ▸ rfl
    | .piece .comment _, _, hcomment => cases hcomment
    | .char d, _, _ =>
      cases hd : isWordChar d with
      | true => exact (congrArg (addChar c · ts) hd) ▸ h.addChar_true hc hd
      | false =>
        exact (congrArg (addChar c · ts) hd) ▸ h.addChar_false hc fun e he => Option.some.inj he ▸ hd

/-- The tokens of sections without comments are those of their text. -/
theorem lexes_tokens (hclosed : ∀ x ∈ xs, x.IsClosed) (hclean : ∀ x ∈ xs, x.isComment = false) :
    Lexes (textOf xs) (tokens xs) := by
  induction xs with
  | nil => exact .nil
  | cons x xs ih =>
    obtain ⟨hx, hxs⟩ := List.forall_mem_cons.1 hclosed
    obtain ⟨hx', hxs'⟩ := List.forall_mem_cons.1 hclean
    have h := ih hxs hxs'
    match x, hx, hx' with
    | .piece .literal _, ⟨body, hbody, rfl⟩, _ => exact .literal hbody h
    | .piece .comment _, _, hcomment => cases hcomment
    | .char c, hquote, _ =>
      by_cases hspace : isSpace c = true
      · rw [tokens_space hspace]
        exact .space hspace h
      by_cases hmark : isMark c = true
      · rw [tokens_mark hmark]
        exact .mark hmark h
      have hc := isWordChar_of_ne_quote hquote hspace hmark
      rw [tokens_wordChar hc]
      exact lexes_addChar hc hxs hxs' h

/-! ## Blanks for comments -/

/-- A blank for each comment. -/
def spacedOut (xs : List Section) : List Section :=
  xs.map fun x => if x.isComment then .char ' ' else x

/-- The text with a blank for each of its comments. -/
def spaceComments (s : List Char) : List Char := textOf (spacedOut (sections s))

/-- Each quote outside of comments begins or ends a string literal. -/
def Closes (s : List Char) : Prop := Section.char '"' ∉ sections s

theorem tokens_spacedOut (xs : List Section) : tokens (spacedOut xs) = tokens xs := by
  induction xs with
  | nil => rfl
  | cons x xs ih =>
    have hstarts : startsWord (spacedOut xs) = startsWord xs := by
      cases xs with
      | nil => rfl
      | cons x xs =>
        match x with
        | .piece .literal _ => rfl
        | .piece .comment _ => rfl
        | .char c => rfl
    match x with
    | .piece .literal text => exact congrArg (.literal text :: ·) ih
    | .piece .comment _ => exact (tokens_space rfl).trans ih
    | .char c =>
      show tokens (.char c :: spacedOut xs) = _
      rw [tokens, tokens, ih, hstarts]

/-! ## Comments between words -/

/-- A comment holds what is in front of it and a word behind it apart, with other comments. -/
def hidesWord (xs : List Section) : Bool :=
  !startsWord xs && startsWord (withoutComments xs)

/-- Whether two characters of words have nothing but comments between them, and at least one. -/
def joinsWords : List Section → Bool
  | [] => false
  | .char c :: xs => isWordChar c && hidesWord xs || joinsWords xs
  | .piece _ _ :: xs => joinsWords xs

theorem startsWord_withoutComments (h : startsWord xs = true) :
    startsWord (withoutComments xs) = true := by
  cases xs with
  | nil => cases h
  | cons x xs =>
    match x, h with
    | .char c, h => exact h

/-- Where no comment holds words apart, the tokens do without the comments. -/
theorem tokens_withoutComments (hclosed : ∀ x ∈ xs, x.IsClosed) (h : joinsWords xs = false) :
    tokens (withoutComments xs) = tokens xs := by
  induction xs with
  | nil => rfl
  | cons x xs ih =>
    obtain ⟨hx, hxs⟩ := List.forall_mem_cons.1 hclosed
    match x, hx, h with
    | .piece .literal text, _, h => exact congrArg (.literal text :: ·) (ih hxs h)
    | .piece .comment _, _, h => exact ih hxs h
    | .char c, hquote, h =>
      rw [joinsWords, Bool.or_eq_false_iff] at h
      have htokens := ih hxs h.2
      show tokens (.char c :: withoutComments xs) = _
      by_cases hspace : isSpace c = true
      · rw [tokens_space hspace, tokens_space hspace, htokens]
      by_cases hmark : isMark c = true
      · rw [tokens_mark hmark, tokens_mark hmark, htokens]
      have hc := isWordChar_of_ne_quote hquote hspace hmark
      have hstarts : startsWord (withoutComments xs) = startsWord xs := by
        have hhides := h.1
        rw [hc, Bool.true_and, hidesWord] at hhides
        cases hword : startsWord xs with
        | true => exact startsWord_withoutComments hword
        | false => simpa [hword] using hhides
      rw [tokens_wordChar hc, tokens_wordChar hc, htokens, hstarts]

theorem exists_word_of_startsWord (h : startsWord (withoutComments xs) = true) :
    ∃ u ts, tokens xs = .word u :: ts := by
  induction xs with
  | nil => cases h
  | cons x xs ih =>
    match x, h with
    | .piece .comment _, h => exact ih h
    | .char c, h =>
      have hc : isWordChar c = true := h
      rw [tokens_wordChar hc]
      unfold addChar
      split
      · exact ⟨_, _, rfl⟩
      · exact ⟨_, _, rfl⟩

theorem setApart_of_addChar {joined : Bool} (h : SetApart (addChar c joined ts)) : SetApart ts := by
  unfold addChar at h
  split at h
  · rename_i u ts
    cases ts with
    | nil => exact .singleton _
    | cons t ts => exact .cons_cons (fun _ => h.rel rfl) h.of_cons
  · exact h.of_cons

theorem setApart_of_cons {x : Section} (h : SetApart (tokens (x :: xs))) : SetApart (tokens xs) := by
  match x, h with
  | .piece .literal _, h => exact h.of_cons
  | .piece .comment _, h => exact h
  | .char c, h =>
    rw [tokens] at h
    split_ifs at h
    · exact h
    · exact h.of_cons
    · exact setApart_of_addChar h

/-- Where a comment holds words apart, words are next to each other. -/
theorem not_setApart_of_joinsWords (h : joinsWords xs = true) : ¬ SetApart (tokens xs) := by
  intro hapart
  induction xs with
  | nil => cases h
  | cons x xs ih =>
    match x, h, hapart with
    | .piece _ _, h, hapart => exact ih h (setApart_of_cons hapart)
    | .char c, h, hapart =>
      rw [joinsWords, Bool.or_eq_true, Bool.and_eq_true] at h
      rcases h with ⟨hc, hhides⟩ | h
      · rw [hidesWord, Bool.and_eq_true, Bool.not_eq_true'] at hhides
        obtain ⟨u, ts, htokens⟩ := exists_word_of_startsWord hhides.2
        rw [tokens_wordChar hc, hhides.1, addChar_false, htokens] at hapart
        exact Bool.noConfusion (hapart.rel rfl)
      · exact ih h (setApart_of_cons hapart)

/-! ## Texts with blanks for their comments -/

theorem piece?_slash_eq_none_iff : piece? ('/' :: s) = none ↔
    s.head? ≠ some '/' ∧ ∀ r, s = '*' :: r → ¬ blockMark <:+: r := by
  rw [piece?.eq_def]
  split
  · rename_i heq
    cases heq
  · rename_i r heq
    cases heq
    simp
  · rename_i r heq
    cases heq
    simp [blockTail?_eq_none_iff]
  · rename_i hline hblock
    refine iff_of_true rfl ⟨fun hhead => ?_, fun r hr => absurd rfl (hr ▸ hblock r)⟩
    obtain ⟨r, rfl⟩ := List.head?_eq_some_iff.1 hhead
    exact hline r rfl

theorem Cut.of_spacedOut (h : Cut s xs) {r : List Char} (hr : textOf (spacedOut xs) = c :: r)
    (hblank : c ≠ ' ') (hquote : c ≠ '"') :
    ∃ s' xs', s = c :: s' ∧ xs = .char c :: xs' ∧ Cut s' xs' ∧ r = textOf (spacedOut xs') := by
  cases h with
  | nil => cases hr
  | literal hbody h => exact absurd (List.cons.inj hr).1.symm hquote
  | comment hne hpiece h => exact absurd (List.cons.inj hr).1.symm hblank
  | char hpiece h =>
    obtain ⟨rfl, rfl⟩ := List.cons.inj hr
    exact ⟨_, _, rfl, rfl, h, rfl⟩

theorem Cut.infix_of_spacedOut (h : Cut s xs) (hmark : blockMark <:+: textOf (spacedOut xs)) :
    blockMark <:+: s := by
  induction h with
  | nil => exact hmark
  | @literal body s xs hbody h ih =>
    have hquoted : ∀ t, quoted body ++ t = ('"' :: body) ++ '"' :: t := quoted_append body
    have hspaced : textOf (spacedOut (.piece .literal (quoted body) :: xs)) =
        quoted body ++ textOf (spacedOut xs) := rfl
    rw [hspaced, hquoted, infix_append_cons_iff (by decide)] at hmark
    rw [hquoted, infix_append_cons_iff (by decide)]
    exact hmark.imp_right ih
  | @comment t s xs hne hpiece h ih =>
    have hspaced : textOf (spacedOut (.piece .comment t :: xs)) =
        [] ++ ' ' :: textOf (spacedOut xs) := rfl
    rw [hspaced, infix_append_cons_iff (by decide), or_iff_right (by simp [blockMark])] at hmark
    exact (ih hmark).trans (List.suffix_append t s).isInfix
  | @char c s xs hpiece h ih =>
    have hspaced : textOf (spacedOut (.char c :: xs)) = c :: textOf (spacedOut xs) := rfl
    rw [hspaced, List.infix_cons_iff] at hmark
    rw [List.infix_cons_iff]
    refine hmark.imp (fun hfront => ?_) ih
    obtain ⟨r, hr⟩ := hfront
    obtain ⟨rfl, hslash⟩ := List.cons.inj hr
    obtain ⟨s', xs', rfl, -⟩ := h.of_spacedOut hslash.symm (by decide) (by decide)
    exact ⟨s', rfl⟩

theorem Cut.piece?_spacedOut (h : Cut s xs) (hquote : c ≠ '"') (hpiece : piece? (c :: s) = none) :
    piece? (c :: textOf (spacedOut xs)) = none := by
  by_cases hslash : c = '/'
  · subst hslash
    obtain ⟨hline, hblock⟩ := piece?_slash_eq_none_iff.1 hpiece
    refine piece?_slash_eq_none_iff.2 ⟨fun hhead => hline ?_, fun r hr hmark => ?_⟩
    · obtain ⟨r, hr⟩ := List.head?_eq_some_iff.1 hhead
      obtain ⟨s', xs', rfl, -⟩ := h.of_spacedOut hr (by decide) (by decide)
      rfl
    · obtain ⟨s', xs', rfl, -, hcut, rfl⟩ := h.of_spacedOut hr (by decide) (by decide)
      exact hblock s' rfl (hcut.infix_of_spacedOut hmark)
  · exact piece?_eq_none hquote hslash

theorem Cut.sections_spacedOut (h : Cut s xs) (hclosed : .char '"' ∉ xs) :
    sections (textOf (spacedOut xs)) = spacedOut xs := by
  induction h with
  | nil => rfl
  | @literal body s xs hbody h ih =>
    rw [List.mem_cons, not_or] at hclosed
    exact (sections_quoted hbody _).trans (congrArg _ (ih hclosed.2))
  | @comment t s xs hne hpiece h ih =>
    rw [List.mem_cons, not_or] at hclosed
    exact (sections_char rfl).trans (congrArg _ (ih hclosed.2))
  | @char c s xs hpiece h ih =>
    rw [List.mem_cons, not_or] at hclosed
    have hquote : c ≠ '"' := fun hc => hclosed.1 (hc ▸ rfl)
    exact (sections_char (h.piece?_spacedOut hquote hpiece)).trans (congrArg _ (ih hclosed.2))

theorem stripComments_spaceComments {s : List Char} (h : Closes s) :
    stripComments (spaceComments s) = spaceComments s := by
  refine stripComments_eq_self fun x hx => ?_
  rw [spaceComments, (cut_sections s).sections_spacedOut h] at hx
  obtain ⟨y, -, rfl⟩ := List.mem_map.1 hx
  split
  · rfl
  · rename_i hy
    simpa using hy

theorem Cut.isClosed (h : Cut s xs) (hclosed : .char '"' ∉ xs) : ∀ x ∈ xs, x.IsClosed := by
  induction h with
  | nil => exact List.forall_mem_nil _
  | @literal body s xs hbody h ih =>
    rw [List.mem_cons, not_or] at hclosed
    exact List.forall_mem_cons.2 ⟨⟨body, hbody, rfl⟩, ih hclosed.2⟩
  | comment hne hpiece h ih =>
    rw [List.mem_cons, not_or] at hclosed
    exact List.forall_mem_cons.2 ⟨trivial, ih hclosed.2⟩
  | @char c s xs hpiece h ih =>
    rw [List.mem_cons, not_or] at hclosed
    exact List.forall_mem_cons.2 ⟨fun hc => hclosed.1 (hc ▸ rfl), ih hclosed.2⟩

theorem lexes_spaceComments {s : List Char} (h : Closes s) :
    Lexes (spaceComments s) (tokens (sections s)) := by
  have hclosed := (cut_sections s).isClosed h
  rw [← tokens_spacedOut, spaceComments]
  refine lexes_tokens (fun x hx => ?_) (fun x hx => ?_) <;>
    obtain ⟨y, hy, rfl⟩ := List.mem_map.1 hx
  · split
    · exact (by decide : ' ' ≠ '"')
    · exact hclosed y hy
  · split
    · rfl
    · rename_i hcomment
      simpa using hcomment

theorem lexes_stripComments {s : List Char} (h : Closes s) :
    Lexes (stripComments s) (tokens (withoutComments (sections s))) := by
  rw [stripComments_eq]
  refine lexes_tokens (fun x hx => ?_) (fun x hx => ?_) <;> obtain ⟨hmem, hx⟩ := List.mem_filter.1 hx
  · exact (cut_sections s).isClosed h x hmem
  · simpa using hx

/-- What is read with blanks for comments is what is read without the comments, unless one of them holds
two words apart. -/
theorem read_spaceComments_iff {s : List Char} {v : Json} (h : Closes s) :
    read (spaceComments s) = .ok v ↔
      read (stripComments s) = .ok v ∧ joinsWords (sections s) = false := by
  rw [(lexes_spaceComments h).read_eq_ok_iff, (lexes_stripComments h).read_eq_ok_iff]
  cases hjoins : joinsWords (sections s) with
  | false => rw [tokens_withoutComments ((cut_sections s).isClosed h) hjoins, and_iff_left rfl]
  | true =>
    refine iff_of_false (fun hreads => ?_) (fun hfalse => Bool.noConfusion hfalse.2)
    exact not_setApart_of_joinsWords hjoins (hreads.setApart .nil (by simp))

end

end Json

/-! ## The variables of a commented text -/

namespace Extractor

open Json

theorem vars_jsonVariables {path : String} (hpath : Path.lower (Path.suffix path) = commentedExtension)
    (content : List Char) : (jsonVariables content path).vars =
      match Json.read (stripComments content) with
      | .ok document => JsonDocument.ofDocument path document
      | .error _ => [] := by
  have hcomments : decide (Path.lower (Path.suffix path) = commentedExtension) = true :=
    decide_eq_true hpath
  unfold jsonVariables JsonDocument.extract?
  simp only [hcomments, if_true]
  cases Json.read (stripComments content) <;> rfl

/-- Blanks for comments leave the variables as they are, unless a comment holds two words apart: then
there are none. -/
theorem vars_spaceComments_eq_iff {content : List Char} {path : String} (hcloses : Closes content)
    (hpath : Path.lower (Path.suffix path) = commentedExtension) :
    (jsonVariables (spaceComments content) path).vars = (jsonVariables content path).vars ↔
      (joinsWords (sections content) = true → (jsonVariables content path).vars = []) := by
  have hspaced : (jsonVariables (spaceComments content) path).vars =
      match Json.read (spaceComments content) with
      | .ok document => JsonDocument.ofDocument path document
      | .error _ => [] := by
    rw [vars_jsonVariables hpath, stripComments_spaceComments hcloses]
  have hread := fun v => read_spaceComments_iff (v := v) hcloses
  rw [hspaced]
  cases hjoins : joinsWords (sections content) with
  | false =>
    simp only [hjoins, and_true] at hread
    refine iff_of_true ?_ Bool.noConfusion
    rw [vars_jsonVariables hpath]
    cases hstripped : Json.read (stripComments content) with
    | ok document => rw [(hread document).2 hstripped]
    | error e =>
      cases hread' : Json.read (spaceComments content) with
      | ok document => exact absurd ((hread document).1 hread') (by simp [hstripped])
      | error e => rfl
  | true =>
    simp only [hjoins, reduceCtorEq, and_false, iff_false] at hread
    cases hread' : Json.read (spaceComments content) with
    | ok document => exact absurd hread' (hread document)
    | error e => exact ⟨fun h _ => h.symm, fun h => (h rfl).symm⟩

namespace Neighbours

def path : String := "x.jsonc"

/-- Comments with a comma between them. -/
def apart : List Char := "\x7b\"a\": 1/**/, /**/\"b\": 2\x7d".toList

/-- A comment between two digits. -/
def joined : List Char := "\x7b\"a\": 1/**/2\x7d".toList

theorem vars_apart : Closes apart ∧ Path.lower (Path.suffix path) = commentedExtension ∧
    (jsonVariables (spaceComments apart) path).vars = (jsonVariables apart path).vars := by
  have hcloses : Closes apart := by
    unfold Closes
    decide +kernel
  have hpath : Path.lower (Path.suffix path) = commentedExtension := by decide +kernel
  exact ⟨hcloses, hpath, (vars_spaceComments_eq_iff hcloses hpath).2
    fun hjoins => absurd hjoins (by decide +kernel)⟩

/-- The two numbers are read as one, where with a blank between them nothing is read. -/
theorem vars_joined : (jsonVariables (spaceComments joined) path).vars = [] ∧
    (jsonVariables joined path).vars.map (fun v => (v.name, v.value)) = [("a", some "12")] := by
  decide +kernel

/-- Behind a quote that begins no literal, a comment that is removed is one of a string. -/
example : let content := "\x7b\"a\": \"b,/*\\\n*/c\"\x7d".toList
    Section.char '"' ∈ sections content ∧
      (jsonVariables (spaceComments content) path).vars.map (·.value) = [some "b, c"] ∧
      (jsonVariables content path).vars.map (·.value) = [some "b,c"] := by
  decide +kernel

end Neighbours

end Extractor
end DeclScan
