import DeclScan.Proofs.Json.Locality
import DeclScan.Proofs.Json.RoundTrip

/-!
# DeclScan.Proofs.Json.Grammar

The texts that are read, told by their tokens. What is between the tokens does not matter.

* `Token`, `Lexes`: a text and its tokens.
* `Reads`: the grammar, as the three readers follow it.
* `sound`, `Reads.complete`: what is read is in the grammar, and the other way round.
* `Lexes.read_eq_ok_iff`: the same for a whole text.
* `Reads.setApart`: no two numbers or words are next to each other.
-/

namespace DeclScan
namespace Json

open Text

/-! ## Tokens -/

/-- A string with its quotes, a number or a word, or one of the marks between them. -/
inductive Token where
  | literal (text : List Char)
  | word (text : List Char)
  | mark (c : Char)
  deriving Repr, DecidableEq

namespace Token

def text : Token → List Char
  | literal text => text
  | word text => text
  | mark c => [c]

def isWord : Token → Bool
  | word _ => true
  | _ => false

end Token

/-- A text has these tokens. White space may be anywhere between them, and two words are not next to
each other without it. -/
inductive Lexes : List Char → List Token → Prop where
  | nil : Lexes [] []
  | space {c : Char} {s : List Char} {ts : List Token} (hc : isSpace c = true) (h : Lexes s ts) :
      Lexes (c :: s) ts
  | mark {c : Char} {s : List Char} {ts : List Token} (hc : isMark c = true) (h : Lexes s ts) :
      Lexes (c :: s) (.mark c :: ts)
  | literal {body s : List Char} {ts : List Token} (hbody : IsLiteralBody body) (h : Lexes s ts) :
      Lexes (quoted body ++ s) (.literal (quoted body) :: ts)
  | word {u s : List Char} {ts : List Token} (hne : u ≠ [])
      (hu : ∀ c ∈ u, isWordChar c = true) (hs : Stops s) (h : Lexes s ts) :
      Lexes (u ++ s) (.word u :: ts)

theorem isWordChar_eq_true_iff {c : Char} :
    isWordChar c = true ↔ isSpace c = false ∧ isMark c = false ∧ c ≠ '"' := by
  simp [isWordChar, and_assoc]

theorem isSpace_of_isMark {c : Char} (h : isMark c = true) : isSpace c = false := by
  simp only [isMark, Bool.or_eq_true, decide_eq_true_eq] at h
  rcases h with ((((rfl | rfl) | rfl) | rfl) | rfl) | rfl <;> rfl

theorem quoted_append_inj {body body' s s' : List Char} (hbody : IsLiteralBody body)
    (hbody' : IsLiteralBody body') (h : quoted body ++ s = quoted body' ++ s') :
    quoted body = quoted body' ∧ s = s' := by
  have htail : body ++ '"' :: s = body' ++ '"' :: s' := by
    rw [quoted_append, quoted_append] at h
    exact (List.cons.inj h).2
  have hlength : 0 + body.length + 1 = 0 + body'.length + 1 := by
    refine Option.some.inj ((literalTail?_eq_some_iff.2 ⟨body, s, rfl, hbody, rfl⟩).symm.trans ?_)
    rw [htail]
    exact literalTail?_eq_some_iff.2 ⟨body', s', rfl, hbody', rfl⟩
  refine List.append_inj h ?_
  rw [length_quoted, length_quoted]
  omega

theorem word_append_inj {u u' s s' : List Char} (hu : ∀ c ∈ u, isWordChar c = true)
    (hu' : ∀ c ∈ u', isWordChar c = true) (hs : Stops s) (hs' : Stops s') (h : u ++ s = u' ++ s') :
    u = u' ∧ s = s' := by
  have heq : u = u' := by rw [← (span_append hu hs).1, h, (span_append hu' hs').1]
  exact ⟨heq, List.append_cancel_left (heq ▸ h)⟩

namespace Lexes

variable {s r u : List Char} {ts : List Token} {c : Char}

theorem of_cons (h : Lexes (c :: s) ts) :
    (isSpace c = true ∧ Lexes s ts) ∨
      (isMark c = true ∧ ∃ rest, ts = .mark c :: rest ∧ Lexes s rest) ∨
      (c = '"' ∧ ∃ body r rest, IsLiteralBody body ∧ c :: s = quoted body ++ r ∧
        ts = .literal (quoted body) :: rest ∧ Lexes r rest) ∨
      (isWordChar c = true ∧ ∃ u r rest, (∀ d ∈ u, isWordChar d = true) ∧ Stops r ∧
        c :: s = u ++ r ∧ ts = .word u :: rest ∧ Lexes r rest) := by
  generalize htext : c :: s = text at h
  cases h with
  | nil => cases htext
  | space hc h =>
    cases htext
    exact .inl ⟨hc, h⟩
  | mark hc h =>
    cases htext
    exact .inr (.inl ⟨hc, _, rfl, h⟩)
  | @literal body r rest hbody h =>
    exact .inr (.inr (.inl ⟨(List.cons.inj htext).1, body, r, rest, hbody, rfl, rfl, h⟩))
  | @word u r rest hne hu hr h =>
    obtain ⟨d, u, rfl⟩ := List.exists_cons_of_ne_nil hne
    have hc : isWordChar c = true := (List.cons.inj htext).1 ▸ hu d List.mem_cons_self
    exact .inr (.inr (.inr ⟨hc, _, r, rest, hu, hr, rfl, rfl, h⟩))

theorem of_space (hc : isSpace c = true) (h : Lexes (c :: s) ts) : Lexes s ts := by
  rcases h.of_cons with ⟨-, h⟩ | ⟨hc', -⟩ | ⟨rfl, -⟩ | ⟨hc', -⟩
  · exact h
  · exact absurd hc (by simp [isSpace_of_isMark hc'])
  · exact absurd hc (by decide)
  · exact absurd hc (by simp [(isWordChar_eq_true_iff.1 hc').1])

theorem of_mark (hc : isMark c = true) (h : Lexes (c :: s) ts) :
    ∃ rest, ts = .mark c :: rest ∧ Lexes s rest := by
  rcases h.of_cons with ⟨hc', -⟩ | ⟨-, h⟩ | ⟨rfl, -⟩ | ⟨hc', -⟩
  · exact absurd hc' (by simp [isSpace_of_isMark hc])
  · exact h
  · exact absurd hc (by decide)
  · exact absurd hc (by simp [(isWordChar_eq_true_iff.1 hc').2.1])

theorem of_literal {body : List Char} (hbody : IsLiteralBody body)
    (h : Lexes (quoted body ++ s) ts) :
    ∃ rest, ts = .literal (quoted body) :: rest ∧ Lexes s rest := by
  rcases of_cons (c := '"') h with
    ⟨hc, -⟩ | ⟨hc, -⟩ | ⟨-, body', r, rest, hbody', htext, rfl, h⟩ | ⟨hc, -⟩
  · exact absurd hc (by decide)
  · exact absurd hc (by decide)
  · obtain ⟨heq, rfl⟩ := quoted_append_inj hbody hbody' htext
    exact ⟨rest, heq ▸ rfl, h⟩
  · exact absurd hc (by decide)

theorem of_word (hne : u ≠ []) (hu : ∀ c ∈ u, isWordChar c = true) (hs : Stops s)
    (h : Lexes (u ++ s) ts) : ∃ rest, ts = .word u :: rest ∧ Lexes s rest := by
  obtain ⟨c, u, rfl⟩ := List.exists_cons_of_ne_nil hne
  obtain ⟨hspace, hmark, hquote⟩ := isWordChar_eq_true_iff.1 (hu c List.mem_cons_self)
  rcases of_cons (c := c) h with
    ⟨hc, -⟩ | ⟨hc, -⟩ | ⟨hc, -⟩ | ⟨-, u', r, rest, hu', hr, htext, rfl, h⟩
  · exact absurd hc (by simp [hspace])
  · exact absurd hc (by simp [hmark])
  · exact absurd hc hquote
  · obtain ⟨heq, rfl⟩ := word_append_inj hu hu' hs hr htext
    exact ⟨rest, heq ▸ rfl, h⟩

theorem dropSpace (h : Lexes s ts) : Lexes (Json.dropSpace s) ts := by
  induction s with
  | nil => exact h
  | cons c s ih =>
    by_cases hc : isSpace c = true
    · rw [Json.dropSpace, List.dropWhile_cons_of_pos hc]
      exact ih (h.of_space hc)
    · rwa [Json.dropSpace, List.dropWhile_cons_of_neg hc]

theorem exists_of_cons {t : Token} (h : Lexes s (t :: ts)) :
    ∃ r, Json.dropSpace s = t.text ++ r ∧ Lexes r ts ∧ (t.isWord = true → Stops r) := by
  generalize hts : t :: ts = all at h
  induction h with
  | nil => cases hts
  | space hc h ih =>
    obtain ⟨r, hr, hrest⟩ := ih hts
    exact ⟨r, (List.dropWhile_cons_of_pos hc).trans hr, hrest⟩
  | mark hc h =>
    cases hts
    exact ⟨_, dropSpace_cons (isSpace_of_isMark hc) _, h, fun hword => Bool.noConfusion hword⟩
  | literal hbody h =>
    cases hts
    exact ⟨_, dropSpace_cons (c := '"') rfl _, h, fun hword => Bool.noConfusion hword⟩
  | @word u s ts hne hu hs h =>
    cases hts
    obtain ⟨c, u, rfl⟩ := List.exists_cons_of_ne_nil hne
    have hc := isWordChar_eq_true_iff.1 (hu c List.mem_cons_self)
    exact ⟨s, dropSpace_cons hc.1 _, h, fun _ => hs⟩

end Lexes

/-! ## The grammar -/

/-- What is read next: a value, or the rest of a container behind what is read of it, last first. -/
inductive Part where
  | value
  | items (before : List Json)
  | members (before : List (String × Json))

def readPart : Part → Nat → Nat → List Char → Except Failure (Json × List Char)
  | .value, fuel, depth, s => readValue fuel depth s
  | .items before, fuel, depth, s => readItems fuel depth before s
  | .members before, fuel, depth, s => readMembers fuel depth before s

namespace Container

def opening : Container → Char
  | array => '['
  | object => '\x7b'

def closing : Container → Char
  | array => ']'
  | object => '\x7d'

def empty : Container → Json
  | array => .arr []
  | object => .obj []

/-- What is read behind the opening bracket, unless the container is empty. -/
def inside : Container → Part
  | array => .items []
  | object => .members []

end Container

/-- Tokens begin with a part that is a value, or the end of one, with containers `depth` deep. -/
inductive Reads : Part → Nat → List Token → Json → List Token → Prop where
  | string {depth : Nat} {body text : List Char} {rest : List Token} (h : Spells body text) :
      Reads .value depth (.literal (quoted body) :: rest) (.str (String.ofList text)) rest
  | scalar {depth : Nat} {u : List Char} {v : Json} {rest : List Token} (h : IsScalar u v) :
      Reads .value depth (.word u :: rest) v rest
  | emptyContainer {depth : Nat} {rest : List Token} (k : Container) :
      Reads .value (depth + 1) (.mark k.opening :: .mark k.closing :: rest) k.empty rest
  | container {depth : Nat} {ts rest : List Token} {v : Json} (k : Container)
      (h : Reads k.inside depth ts v rest) : Reads .value (depth + 1) (.mark k.opening :: ts) v rest
  | lastItem {depth : Nat} {ts rest : List Token} {before : List Json} {item : Json}
      (h : Reads .value depth ts item (.mark ']' :: rest)) :
      Reads (.items before) depth ts (.arr (item :: before).reverse) rest
  | nextItem {depth : Nat} {ts more rest : List Token} {before : List Json} {item v : Json}
      (h : Reads .value depth ts item (.mark ',' :: more))
      (hmore : Reads (.items (item :: before)) depth more v rest) :
      Reads (.items before) depth ts v rest
  | lastMember {depth : Nat} {body key : List Char} {ts rest : List Token}
      {before : List (String × Json)} {value : Json} (hkey : Spells body key)
      (h : Reads .value depth ts value (.mark '\x7d' :: rest)) :
      Reads (.members before) depth (.literal (quoted body) :: .mark ':' :: ts)
        (.obj (Table.ofPairs ((String.ofList key, value) :: before).reverse)) rest
  | nextMember {depth : Nat} {body key : List Char} {ts more rest : List Token}
      {before : List (String × Json)} {value v : Json} (hkey : Spells body key)
      (h : Reads .value depth ts value (.mark ',' :: more))
      (hmore : Reads (.members ((String.ofList key, value) :: before)) depth more v rest) :
      Reads (.members before) depth (.literal (quoted body) :: .mark ':' :: ts) v rest

/-! ## What is read is in the grammar -/

section

variable {fuel depth : Nat} {s r after : List Char} {ts : List Token} {v : Json} {c : Char}

theorem stops_of_dropSpace (h : dropSpace s = c :: after) (hc : isMark c = true) : Stops s := by
  intro d hd
  obtain ⟨t, rfl⟩ := List.head?_eq_some_iff.1 hd
  by_contra hword
  rw [Bool.not_eq_false, isWordChar_eq_true_iff] at hword
  rw [dropSpace, List.dropWhile_cons_of_neg (by simp [hword.1])] at h
  rw [(List.cons.inj h).1, hc] at hword
  exact Bool.noConfusion hword.2.1

theorem Lexes.of_readString {opening fuel : Nat} {t : List Char} (h : Lexes ('"' :: s) ts)
    (hs : readString opening fuel [] s = .ok (t, r)) :
    ∃ body rest, ts = .literal (quoted body) :: rest ∧ Spells body t ∧ Lexes r rest := by
  obtain ⟨body, text, rfl, rfl, hspells⟩ := readString_eq_ok hs
  rw [← quoted_append] at h
  obtain ⟨rest, rfl, hrest⟩ := h.of_literal hspells.isLiteralBody
  exact ⟨body, rest, rfl, hspells, hrest⟩

theorem Lexes.of_dropSpace (h : Lexes s ts) (hs : Json.dropSpace s = c :: after)
    (hc : isMark c = true) : ∃ rest, ts = .mark c :: rest ∧ Lexes after rest :=
  (hs ▸ h.dropSpace).of_mark hc

/-- What the readers take in with some fuel is in the grammar. A value is only taken to be read if
nothing goes on with it. -/
def Sound (fuel : Nat) : Prop :=
  ∀ part {depth s ts v r}, Lexes s ts → readPart part fuel depth s = .ok (v, r) →
    (part = .value → Stops r) → ∃ rest, Lexes r rest ∧ Reads part depth ts v rest

theorem Sound.inside (ih : Sound fuel) (part : Part) (hpart : part ≠ .value) (h : Lexes s ts)
    (hv : readPart part fuel depth (dropSpace s) = .ok (v, r)) :
    ∃ rest, Lexes r rest ∧ Reads part depth ts v rest :=
  ih part h.dropSpace hv fun heq => absurd heq hpart

theorem Sound.readValue (ih : Sound fuel) (h : Lexes s ts)
    (hv : readValue (fuel + 1) depth s = .ok (v, r)) (hr : Stops r) :
    ∃ rest, Lexes r rest ∧ Reads .value depth ts v rest := by
  unfold Json.readValue at hv
  split at hv
  · split at hv
    · cases hv
    · rename_i hs
      cases hv
      obtain ⟨body, rest, rfl, hspells, hrest⟩ := h.of_readString hs
      exact ⟨rest, hrest, .string hspells⟩
  · split at hv
    · cases hv
    · rename_i hdepth
      obtain ⟨depth, rfl⟩ := Nat.exists_eq_succ_of_ne_zero hdepth
      obtain ⟨inside, rfl, hinside⟩ := h.of_mark rfl
      split at hv
      · rename_i hclose
        cases hv
        obtain ⟨rest, rfl, hrest⟩ := hinside.of_dropSpace hclose rfl
        exact ⟨rest, hrest, .emptyContainer .array⟩
      · obtain ⟨rest, hrest, hitems⟩ := ih.inside (.items []) Part.noConfusion hinside hv
        exact ⟨rest, hrest, .container .array hitems⟩
  · split at hv
    · cases hv
    · rename_i hdepth
      obtain ⟨depth, rfl⟩ := Nat.exists_eq_succ_of_ne_zero hdepth
      obtain ⟨inside, rfl, hinside⟩ := h.of_mark rfl
      split at hv
      · rename_i hclose
        cases hv
        obtain ⟨rest, rfl, hrest⟩ := hinside.of_dropSpace hclose rfl
        exact ⟨rest, hrest, .emptyContainer .object⟩
      · obtain ⟨rest, hrest, hmembers⟩ := ih.inside (.members []) Part.noConfusion hinside hv
        exact ⟨rest, hrest, .container .object hmembers⟩
  · obtain ⟨u, rfl, hu⟩ := readScalar_eq_ok hv
    obtain ⟨rest, rfl, hrest⟩ := h.of_word hu.ne_nil hu.chars hr
    exact ⟨rest, hrest, .scalar hu⟩

theorem Sound.readItems (ih : Sound fuel) {before : List Json} (h : Lexes s ts)
    (hv : readItems (fuel + 1) depth before s = .ok (v, r)) :
    ∃ rest, Lexes r rest ∧ Reads (.items before) depth ts v rest := by
  unfold Json.readItems at hv
  split at hv
  · cases hv
  rename_i item behind hitem
  have hvalue := fun hstops => ih .value h hitem fun _ => hstops
  split at hv
  · rename_i after hclose
    cases hv
    obtain ⟨rest, hbehind, hread⟩ := hvalue (stops_of_dropSpace hclose rfl)
    obtain ⟨rest, rfl, hrest⟩ := hbehind.of_dropSpace hclose rfl
    exact ⟨rest, hrest, .lastItem hread⟩
  · rename_i after hcomma
    obtain ⟨rest, hbehind, hread⟩ := hvalue (stops_of_dropSpace hcomma rfl)
    obtain ⟨more, rfl, hmore⟩ := hbehind.of_dropSpace hcomma rfl
    obtain ⟨rest, hrest, hreads⟩ := ih.inside (.items (item :: before)) Part.noConfusion hmore hv
    exact ⟨rest, hrest, .nextItem hread hreads⟩
  · cases hv

theorem Sound.readMembers (ih : Sound fuel) {before : List (String × Json)} (h : Lexes s ts)
    (hv : readMembers (fuel + 1) depth before s = .ok (v, r)) :
    ∃ rest, Lexes r rest ∧ Reads (.members before) depth ts v rest := by
  unfold Json.readMembers at hv
  split at hv
  · split at hv
    · cases hv
    rename_i key behindKey hkey
    obtain ⟨body, rest, rfl, hspells, hbehindKey⟩ := h.of_readString hkey
    split at hv
    · rename_i behindColon hcolon
      obtain ⟨rest, rfl, hbehindColon⟩ := hbehindKey.of_dropSpace hcolon rfl
      split at hv
      · cases hv
      rename_i value behind hmember
      have hvalue := fun hstops =>
        ih .value hbehindColon.dropSpace hmember fun _ => hstops
      simp only at hv
      split at hv
      · rename_i after hclose
        cases hv
        obtain ⟨rest, hbehind, hread⟩ := hvalue (stops_of_dropSpace hclose rfl)
        obtain ⟨rest, rfl, hrest⟩ := hbehind.of_dropSpace hclose rfl
        exact ⟨rest, hrest, .lastMember hspells hread⟩
      · rename_i after hcomma
        obtain ⟨rest, hbehind, hread⟩ := hvalue (stops_of_dropSpace hcomma rfl)
        obtain ⟨more, rfl, hmore⟩ := hbehind.of_dropSpace hcomma rfl
        obtain ⟨rest, hrest, hreads⟩ := ih.inside (.members _) Part.noConfusion hmore hv
        exact ⟨rest, hrest, .nextMember hspells hread hreads⟩
      · cases hv
    · cases hv
  · cases hv

/-- The three readers call each other with less fuel, so one induction is for all of them. -/
theorem sound (fuel : Nat) : Sound fuel := by
  induction fuel with
  | zero =>
    intro part depth s ts v r h hv hr
    cases part <;> cases hv
  | succ fuel ih =>
    intro part depth s ts v r h hv hr
    cases part with
    | value => exact ih.readValue h hv (hr rfl)
    | items before => exact ih.readItems h hv
    | members before => exact ih.readMembers h hv

end

/-! ## What is in the grammar is read -/

section

variable {part : Part} {fuel depth : Nat} {s r body text : List Char} {ts more rest : List Token}
  {v item value : Json}

theorem Reads.length_lt (h : Reads part depth ts v rest) : rest.length < ts.length := by
  induction h with
  | string | scalar | emptyContainer => simp
  | container k h ih => exact Nat.lt_succ_of_lt ih
  | lastItem h ih => exact Nat.lt_of_succ_lt ih
  | nextItem h hmore ih ihmore => exact ihmore.trans (Nat.lt_of_succ_lt ih)
  | lastMember hkey h ih =>
    simp only [List.length_cons] at ih ⊢
    omega
  | nextMember hkey h hmore ih ihmore =>
    simp only [List.length_cons] at ih ⊢
    omega

theorem Reads.exists_opening {c : Char} (h : Reads .value depth (.mark c :: ts) v rest) :
    ∃ k : Container, c = k.opening := by
  generalize htokens : Token.mark c :: ts = all at h
  cases h with
  | string | scalar => cases htokens
  | emptyContainer k | container k => exact ⟨k, Token.mark.inj (List.cons.inj htokens).1⟩

theorem Reads.not_closing {k : Container}
    (h : Reads k.inside depth (.mark k.closing :: ts) v rest) : False := by
  have hvalue : ∀ {v rest}, ¬ Reads .value depth (.mark k.closing :: ts) v rest := by
    intro v rest h
    obtain ⟨k', hk⟩ := h.exists_opening
    cases k <;> cases k' <;> exact absurd hk (by decide)
  cases k with
  | array =>
    cases h with
    | lastItem h => exact hvalue h
    | nextItem h => exact hvalue h
  | object => cases h

theorem readValue_empty (k : Container) (h : dropSpace s = k.closing :: r) :
    readValue (fuel + 1) (depth + 1) (k.opening :: s) = .ok (k.empty, r) := by
  cases k <;> (rw [Container.opening, readValue, if_neg (Nat.succ_ne_zero depth), h]; rfl)

theorem readValue_container (k : Container) (h : ∀ r, dropSpace s ≠ k.closing :: r) :
    readValue (fuel + 1) (depth + 1) (k.opening :: s) =
      readPart k.inside fuel depth (dropSpace s) := by
  cases k with
  | array =>
    rw [Container.opening, readValue, if_neg (Nat.succ_ne_zero depth)]
    split
    · rename_i r heq
      exact absurd heq (h r)
    · rfl
  | object =>
    rw [Container.opening, readValue, if_neg (Nat.succ_ne_zero depth)]
    split
    · rename_i r heq
      exact absurd heq (h r)
    · rfl

theorem IsScalar.readValue_append (h : IsScalar text v) (hs : Stops s) :
    readValue (fuel + 1) depth (text ++ s) = .ok (v, s) := by
  obtain ⟨c, t, rfl⟩ := List.exists_cons_of_ne_nil h.ne_nil
  have hne : ∀ d, isWordChar d = false → c ≠ d :=
    fun d => ne_of_test (h.chars c List.mem_cons_self)
  rw [← h.reads s hs]
  exact readValue_scalar (hne _ (by decide)) (hne _ (by decide)) (hne _ (by decide)) _

theorem Lexes.exists_of_mark {c : Char} (h : Lexes s (.mark c :: ts)) :
    ∃ r, Json.dropSpace s = c :: r ∧ Lexes r ts := by
  obtain ⟨r, hr, hrest, -⟩ := h.exists_of_cons
  exact ⟨r, hr, hrest⟩

/-- Every text with these tokens is read so, with two calls for each token that is taken in. -/
def Complete (part : Part) (depth : Nat) (ts : List Token) (v : Json) (rest : List Token) : Prop :=
  ∀ {s}, Lexes s ts → ∃ r, Lexes r rest ∧ ∀ fuel, 2 * ts.length ≤ fuel + 1 + 2 * rest.length →
    readPart part (fuel + 1) depth (dropSpace s) = .ok (v, r)

theorem complete_string (h : Spells body text) :
    Complete .value depth (.literal (quoted body) :: rest) (.str (String.ofList text)) rest := by
  intro s hs
  obtain ⟨r, hr, hrest, -⟩ := hs.exists_of_cons
  refine ⟨r, hrest, fun fuel _ => ?_⟩
  rw [hr]
  exact h.readValue_quoted fuel depth r

theorem complete_scalar (h : IsScalar text v) :
    Complete .value depth (.word text :: rest) v rest := by
  intro s hs
  obtain ⟨r, hr, hrest, hstops⟩ := hs.exists_of_cons
  refine ⟨r, hrest, fun fuel _ => ?_⟩
  rw [hr]
  exact h.readValue_append (hstops rfl)

theorem complete_emptyContainer (k : Container) :
    Complete .value (depth + 1) (.mark k.opening :: .mark k.closing :: rest) k.empty rest := by
  intro s hs
  obtain ⟨inside, hs, hinside⟩ := hs.exists_of_mark
  obtain ⟨r, hclose, hrest⟩ := hinside.exists_of_mark
  refine ⟨r, hrest, fun fuel _ => ?_⟩
  rw [hs]
  exact readValue_empty k hclose

theorem complete_container (k : Container) (h : Reads k.inside depth ts v rest)
    (ih : Complete k.inside depth ts v rest) :
    Complete .value (depth + 1) (.mark k.opening :: ts) v rest := by
  intro s hs
  obtain ⟨inside, hs, hinside⟩ := hs.exists_of_mark
  obtain ⟨r, hrest, hread⟩ := ih hinside
  refine ⟨r, hrest, fun fuel hfuel => ?_⟩
  have hlength := h.length_lt
  rw [List.length_cons] at hfuel
  obtain ⟨fuel, rfl⟩ : ∃ n, fuel = n + 1 := ⟨fuel - 1, by omega⟩
  have hopen : ∀ r, dropSpace inside ≠ k.closing :: r := by
    intro r hclose
    obtain ⟨after, rfl, -⟩ := hinside.of_dropSpace hclose (by cases k <;> rfl)
    exact h.not_closing
  rw [hs, readPart, readValue_container k hopen]
  exact hread fuel (by omega)

theorem complete_lastItem {before : List Json} (h : Reads .value depth ts item (.mark ']' :: rest))
    (ih : Complete .value depth ts item (.mark ']' :: rest)) :
    Complete (.items before) depth ts (.arr (item :: before).reverse) rest := by
  intro s hs
  obtain ⟨behind, hbehind, hread⟩ := ih hs
  obtain ⟨r, hclose, hrest⟩ := hbehind.exists_of_mark
  refine ⟨r, hrest, fun fuel hfuel => ?_⟩
  have hlength := h.length_lt
  rw [List.length_cons] at hlength hread
  obtain ⟨fuel, rfl⟩ : ∃ n, fuel = n + 1 := ⟨fuel - 1, by omega⟩
  rw [readPart, readItems_succ (hread fuel (by omega)), hclose]
  rfl

theorem complete_nextItem {before : List Json} (h : Reads .value depth ts item (.mark ',' :: more))
    (hmore : Reads (.items (item :: before)) depth more v rest)
    (ih : Complete .value depth ts item (.mark ',' :: more))
    (ihmore : Complete (.items (item :: before)) depth more v rest) :
    Complete (.items before) depth ts v rest := by
  intro s hs
  obtain ⟨behind, hbehind, hread⟩ := ih hs
  obtain ⟨after, hcomma, hafter⟩ := hbehind.exists_of_mark
  obtain ⟨r, hrest, hreadmore⟩ := ihmore hafter
  refine ⟨r, hrest, fun fuel hfuel => ?_⟩
  have hlength := h.length_lt
  have hlengthmore := hmore.length_lt
  rw [List.length_cons] at hlength hread
  obtain ⟨fuel, rfl⟩ : ∃ n, fuel = n + 1 := ⟨fuel - 1, by omega⟩
  rw [readPart, readItems_succ (hread fuel (by omega)), hcomma]
  exact hreadmore fuel (by omega)

theorem complete_lastMember {before : List (String × Json)} (hkey : Spells body text)
    (h : Reads .value depth ts value (.mark '\x7d' :: rest))
    (ih : Complete .value depth ts value (.mark '\x7d' :: rest)) :
    Complete (.members before) depth (.literal (quoted body) :: .mark ':' :: ts)
      (.obj (Table.ofPairs ((String.ofList text, value) :: before).reverse)) rest := by
  intro s hs
  obtain ⟨behindKey, hs, hbehindKey, -⟩ := hs.exists_of_cons
  obtain ⟨behindColon, hcolon, hbehindColon⟩ := hbehindKey.exists_of_mark
  obtain ⟨behind, hbehind, hread⟩ := ih hbehindColon
  obtain ⟨r, hclose, hrest⟩ := hbehind.exists_of_mark
  refine ⟨r, hrest, fun fuel hfuel => ?_⟩
  have hlength := h.length_lt
  simp only [List.length_cons] at hlength hread hfuel
  obtain ⟨fuel, rfl⟩ : ∃ n, fuel = n + 1 := ⟨fuel - 1, by omega⟩
  rw [readPart, hs, Token.text, hkey.readMembers_quoted hcolon (hread fuel (by omega)), hclose]
  rfl

theorem complete_nextMember {before : List (String × Json)} (hkey : Spells body text)
    (h : Reads .value depth ts value (.mark ',' :: more))
    (hmore : Reads (.members ((String.ofList text, value) :: before)) depth more v rest)
    (ih : Complete .value depth ts value (.mark ',' :: more))
    (ihmore : Complete (.members ((String.ofList text, value) :: before)) depth more v rest) :
    Complete (.members before) depth (.literal (quoted body) :: .mark ':' :: ts) v rest := by
  intro s hs
  obtain ⟨behindKey, hs, hbehindKey, -⟩ := hs.exists_of_cons
  obtain ⟨behindColon, hcolon, hbehindColon⟩ := hbehindKey.exists_of_mark
  obtain ⟨behind, hbehind, hread⟩ := ih hbehindColon
  obtain ⟨after, hcomma, hafter⟩ := hbehind.exists_of_mark
  obtain ⟨r, hrest, hreadmore⟩ := ihmore hafter
  refine ⟨r, hrest, fun fuel hfuel => ?_⟩
  have hlength := h.length_lt
  have hlengthmore := hmore.length_lt
  simp only [List.length_cons] at hlength hread hfuel
  obtain ⟨fuel, rfl⟩ : ∃ n, fuel = n + 1 := ⟨fuel - 1, by omega⟩
  rw [readPart, hs, Token.text, hkey.readMembers_quoted hcolon (hread fuel (by omega)), hcomma]
  exact hreadmore fuel (by omega)

/-- What is in the grammar is read from every text that has its tokens. -/
theorem Reads.complete (h : Reads part depth ts v rest) : Complete part depth ts v rest := by
  induction h with
  | string h => exact complete_string h
  | scalar h => exact complete_scalar h
  | emptyContainer k => exact complete_emptyContainer k
  | container k h ih => exact complete_container k h ih
  | lastItem h ih => exact complete_lastItem h ih
  | nextItem h hmore ih ihmore => exact complete_nextItem h hmore ih ihmore
  | lastMember hkey h ih => exact complete_lastMember hkey h ih
  | nextMember hkey h hmore ih ihmore => exact complete_nextMember hkey h hmore ih ihmore

/-! ## Whole texts -/

theorem readWhole_eq_ok_iff : readWhole s = .ok v ↔ s.head? ≠ some '\uFEFF' ∧
    ∃ r, readValue (2 * s.length + 2) maxDepth (dropSpace s) = .ok (v, r) ∧ dropSpace r = [] := by
  unfold readWhole
  split
  · simp [failAt]
  · rename_i hmark
    have hhead : s.head? ≠ some '\uFEFF' := by
      intro h
      obtain ⟨r, rfl⟩ := List.head?_eq_some_iff.1 h
      exact hmark r rfl
    cases readValue (2 * s.length + 2) maxDepth (dropSpace s) with
    | error e => simp
    | ok found =>
      obtain ⟨value, r⟩ := found
      simp only
      split
      · rename_i hend
        simp [hhead, hend]
      · rename_i hend
        have hne : dropSpace r ≠ [] := fun heq => hend heq
        simp [failAt, hne]

theorem read_eq_ok_iff_readWhole : read s = .ok v ↔ readWhole s = .ok v := by
  unfold read
  cases readWhole s <;> simp

theorem not_readValue_byteOrderMark
    (h : readValue (fuel + 1) depth ('\uFEFF' :: s) = .ok (v, r)) : False := by
  rw [readValue_scalar (by decide) (by decide) (by decide)] at h
  have hnumber : readNumber ('\uFEFF' :: s) = .ok (v, r) := by
    simpa [readScalar, words, dropLiteral] using h
  obtain ⟨sign, d, more, rfl | rfl, hd, htext, -⟩ := readNumber_eq_ok hnumber
  · rw [← (List.cons.inj htext).1] at hd
    exact absurd hd (by decide)
  · exact absurd (List.cons.inj htext).1 (by decide)

theorem Lexes.length_le (h : Lexes s ts) : ts.length ≤ s.length := by
  induction h with
  | nil => exact Nat.le_refl 0
  | space hc h ih => exact Nat.le_succ_of_le ih
  | mark hc h ih => exact Nat.succ_le_succ ih
  | literal hbody h ih =>
    simp only [quoted, List.length_append, List.length_cons] at ih ⊢
    omega
  | word hne hu hs h ih =>
    have hlength := List.length_pos_iff.2 hne
    rw [List.length_append, List.length_cons]
    omega

theorem Lexes.eq_nil (h : Lexes [] ts) : ts = [] := by
  generalize htext : ([] : List Char) = s at h
  cases h with
  | nil => rfl
  | space | mark | literal => cases htext
  | word hne => exact absurd (List.append_eq_nil_iff.1 htext.symm).1 hne

theorem Lexes.nil_iff : Lexes s [] ↔ Json.dropSpace s = [] := by
  constructor
  · intro h
    generalize hts : ([] : List Token) = ts at h
    induction h with
    | nil => rfl
    | space hc h ih => exact (List.dropWhile_cons_of_pos hc).trans (ih hts)
    | mark | literal | word => cases hts
  · intro h
    have hspace : ∀ c ∈ s, isSpace c = true := List.dropWhile_eq_nil_iff.1 h
    clear h
    induction s with
    | nil => exact .nil
    | cons c s ih =>
      obtain ⟨hc, hs⟩ := List.forall_mem_cons.1 hspace
      exact .space hc (ih hs)

/-- A text is read as a value if its tokens are those of the value and no more. -/
theorem Lexes.read_eq_ok_iff (h : Lexes s ts) :
    read s = .ok v ↔ Reads .value maxDepth ts v [] := by
  rw [read_eq_ok_iff_readWhole, readWhole_eq_ok_iff]
  constructor
  · rintro ⟨-, r, hread, hend⟩
    have hstops : Stops r := by
      intro c hc
      have hspace := List.dropWhile_eq_nil_iff.1 hend c (List.mem_of_mem_head? hc)
      by_contra hword
      rw [Bool.not_eq_false, isWordChar_eq_true_iff] at hword
      exact Bool.noConfusion (hword.1.symm.trans hspace)
    obtain ⟨rest, hrest, hreads⟩ := sound (2 * s.length + 2) .value h.dropSpace hread fun _ => hstops
    obtain rfl : rest = [] := Lexes.eq_nil (hend ▸ hrest.dropSpace)
    exact hreads
  · intro hreads
    obtain ⟨r, hr, hread⟩ := hreads.complete h
    have hvalue := hread (2 * s.length + 1) (by have := h.length_le; rw [List.length_nil]; omega)
    refine ⟨fun hmark => ?_, r, hvalue, Lexes.nil_iff.1 hr⟩
    obtain ⟨t, rfl⟩ := List.head?_eq_some_iff.1 hmark
    rw [dropSpace_cons (by decide), readPart] at hvalue
    exact not_readValue_byteOrderMark hvalue

/-! ## Neighbours -/

/-- No two numbers or words are next to each other. -/
def SetApart (ts : List Token) : Prop :=
  ts.IsChain fun t t' => t.isWord = true → t'.isWord = false

/-- In a value, and behind it if no word follows, words are set apart. -/
theorem Reads.setApart (h : Reads part depth ts v rest) (hrest : SetApart rest)
    (hnext : ∀ t ∈ rest.head?, t.isWord = false) : SetApart ts := by
  have hcons : ∀ {t ts}, SetApart ts → (t.isWord = true → ∀ t' ∈ ts.head?, t'.isWord = false) →
      SetApart (t :: ts) :=
    fun h hnext => h.cons fun t' ht' hword => hnext hword t' ht'
  have hother : ∀ {t ts}, SetApart ts → t.isWord = false → SetApart (t :: ts) :=
    fun h ht => hcons h fun hword => Bool.noConfusion (ht.symm.trans hword)
  induction h with
  | string h => exact hother hrest rfl
  | scalar h => exact hcons hrest fun _ => hnext
  | emptyContainer k => exact hother (hother hrest rfl) rfl
  | container k h ih => exact hother (ih hrest hnext) rfl
  | lastItem h ih => exact ih (hother hrest rfl) fun t ht => Option.some.inj ht ▸ rfl
  | nextItem h hmore ih ihmore =>
    exact ih (hother (ihmore hrest hnext) rfl) fun t ht => Option.some.inj ht ▸ rfl
  | lastMember hkey h ih =>
    exact hother (hother (ih (hother hrest rfl) fun t ht => Option.some.inj ht ▸ rfl) rfl) rfl
  | nextMember hkey h hmore ih ihmore =>
    exact hother (hother (ih (hother (ihmore hrest hnext) rfl) fun t ht =>
      Option.some.inj ht ▸ rfl) rfl) rfl

end

end Json
end DeclScan
