import DeclScan.Proofs.Json.Comments
import DeclScan.Proofs.Json.Tokens

/-!
# DeclScan.Proofs.Json.Locality

What is read at the front of a text is read there whatever follows. A string ends with its closing
quote, a number or a word before a character that cannot go on with one.

* `Spells`, `readString_eq_ok`: a string that is read, and what it depends on; `spells_escaped`: a
  string that is written.
* `isWordChar`, `Stops`: the characters of numbers and words, and texts that do not go on with them.
* `IsScalar`, `readScalar_eq_ok`: a number or a word that is read, and what it depends on.
-/

namespace DeclScan
namespace Json

open Text

/-! ## Escapes -/

theorem isUnit_of_takeHex? {s rest : List Char} {n : Nat} (h : takeHex? s = some (n, rest)) :
    ∃ unit, IsUnit unit n ∧ s = unit ++ rest := by
  unfold takeHex? at h
  split at h
  · rename_i a b c d s
    split at h
    · rename_i a' b' c' d' ha hb hc hd
      cases h
      refine ⟨[a, b, c, d], ⟨rfl, ?_, fun t => ?_⟩, rfl⟩
      · simp [ha, hb, hc, hd]
      · simp only [takeHex?, List.cons_append, List.nil_append, ha, hb, hc, hd]
    · cases h
  · cases h

section

variable {unit body s t : List Char} {n : Nat}

theorem IsLiteralBody.plain_append (ht : ∀ c ∈ t, c ≠ '"' ∧ c ≠ '\\') (h : IsLiteralBody body) :
    IsLiteralBody (t ++ body) := by
  induction t with
  | nil => exact h
  | cons c t ih =>
    obtain ⟨hc, ht⟩ := List.forall_mem_cons.1 ht
    exact .plain hc.1 hc.2 (ih ht)

theorem IsUnit.isLiteralBody (h : IsUnit unit n) (hbody : IsLiteralBody body) :
    IsLiteralBody ('\\' :: 'u' :: (unit ++ body)) := by
  refine .escape (by decide) (hbody.plain_append fun c hc => ?_)
  have hdigit := h.digits c hc
  constructor <;> (rintro rfl; exact absurd hdigit (by decide))

theorem IsUnit.isPrefix (h : IsUnit unit n) (heq : body ++ '"' :: s = unit ++ t) :
    ∃ more, body = unit ++ more := by
  rcases List.append_eq_append_iff.1 heq with ⟨m, hunit, hm⟩ | ⟨m, hbody, -⟩
  · cases m with
    | nil => exact ⟨[], by rw [hunit, List.append_nil, List.append_nil]⟩
    | cons c m =>
      obtain ⟨rfl, -⟩ := List.cons.inj hm
      have hquote := h.digits '"' (hunit ▸ List.mem_append_right _ List.mem_cons_self)
      exact absurd hquote (by decide)
  · exact ⟨m, hbody⟩

theorem unicodeEscape_eq_ok {c : Char} {rest : List Char} (h : unicodeEscape s = .ok (c, rest))
    (hwhole : ∀ digits, rest = '\\' :: 'u' :: digits → 5 ≤ digits.length) :
    (∃ unit n, IsUnit unit n ∧ s = unit ++ rest ∧ StandsAlone n rest ∧ c = charOfUnit n) ∨
      ∃ unit n low m, IsUnit unit n ∧ isHighSurrogate n = true ∧ IsUnit low m ∧
        isLowSurrogate m = true ∧ s = unit ++ '\\' :: 'u' :: (low ++ rest) ∧
        c = Char.ofNat (0x10000 + (n - 0xD800) * 0x400 + (m - 0xDC00)) := by
  unfold unicodeEscape at h
  split at h
  · cases h
  split at h
  · cases h
  rename_i n behind htake
  obtain ⟨unit, hunit, rfl⟩ := isUnit_of_takeHex? htake
  split at h
  · rename_i digits
    split at h
    · rename_i hpair
      split at h
      · cases h
      rename_i second after hsecond
      split at h
      · rename_i hlow
        obtain ⟨hc, rfl⟩ := Prod.mk.inj (Except.ok.inj h)
        obtain ⟨low, hunit', rfl⟩ := isUnit_of_takeHex? hsecond
        exact .inr ⟨unit, n, low, second, hunit, (Bool.and_eq_true_iff.1 hpair).1, hunit', hlow,
          rfl, hc.symm⟩
      · rename_i hlow
        cases h
        refine .inl ⟨unit, n, hunit, rfl, ?_, rfl⟩
        rintro digits' heq -
        cases heq
        exact ⟨second, after, hsecond, by simpa using hlow⟩
    · rename_i hpair
      cases h
      refine .inl ⟨unit, n, hunit, rfl, ?_, rfl⟩
      intro digits' heq hhigh
      have hlong := hwhole digits' heq
      rw [heq, hhigh, Bool.true_and, decide_eq_true_eq] at hpair
      simp only [List.length_cons] at hpair
      omega
  · rename_i hplain
    cases h
    exact .inl ⟨unit, n, hunit, rfl, fun digits heq => absurd heq (hplain digits), rfl⟩

theorem StandsAlone.before_quote {r : List Char} (h : StandsAlone n (body ++ '"' :: r))
    (r' : List Char) : StandsAlone n (body ++ '"' :: r') := by
  intro digits heq hhigh
  obtain ⟨more, hbody, rfl⟩ : ∃ more, body = '\\' :: 'u' :: more ∧ digits = more ++ '"' :: r' := by
    match body, heq with
    | [_], heq => simp at heq
    | a :: b :: more, heq =>
      simp only [List.cons_append, List.cons.injEq] at heq
      obtain ⟨rfl, rfl, rfl⟩ := heq
      exact ⟨more, rfl, rfl⟩
  obtain ⟨second, after, htake, hlow⟩ := h (more ++ '"' :: r) (by rw [hbody]; rfl) hhigh
  obtain ⟨unit, hunit, hdigits⟩ := isUnit_of_takeHex? htake
  obtain ⟨more, rfl⟩ := hunit.isPrefix hdigits
  exact ⟨second, more ++ '"' :: r', by rw [List.append_assoc, hunit.takes], hlow⟩

end

/-! ## Strings -/

/-- What stands between quotes and is read as a text, whatever comes behind the closing quote. -/
structure Spells (body text : List Char) : Prop where
  isLiteralBody : IsLiteralBody body
  reads : ∀ opening fuel read rest, body.length < fuel →
    readString opening fuel read (body ++ '"' :: rest) = .ok (read.reverse ++ text, rest)

namespace Spells

theorem nil : Spells [] [] := by
  refine ⟨.nil, fun opening fuel read rest hfuel => ?_⟩
  obtain ⟨fuel, rfl⟩ : ∃ n, fuel = n + 1 := ⟨fuel - 1, by omega⟩
  rw [List.nil_append, readString, List.append_nil]

theorem cons {t body text : List Char} {c : Char} (h : Spells body text)
    (hbody : IsLiteralBody (t ++ body)) (ht : t ≠ [])
    (hstep : ∀ opening fuel read rest,
      readString opening (fuel + 1) read (t ++ (body ++ '"' :: rest)) =
        readString opening fuel (c :: read) (body ++ '"' :: rest)) :
    Spells (t ++ body) (c :: text) := by
  refine ⟨hbody, fun opening fuel read rest hfuel => ?_⟩
  have hlength := List.length_pos_iff.2 ht
  rw [List.length_append] at hfuel
  obtain ⟨fuel, rfl⟩ : ∃ n, fuel = n + 1 := ⟨fuel - 1, by omega⟩
  rw [List.append_assoc, hstep, h.reads _ _ _ _ (by omega), List.reverse_cons, List.append_assoc]
  rfl

variable {body text : List Char} {c : Char}

theorem letter {e : Char} (he : simpleEscape? e = some c) (h : Spells body text) :
    Spells ('\\' :: e :: body) (c :: text) := by
  have hnewline : e ≠ '\n' := by
    rintro rfl
    cases he
  exact h.cons (t := ['\\', e]) (.escape hnewline h.isLiteralBody) (List.cons_ne_nil _ _)
    fun opening fuel read _ => readString_letter opening fuel read he _

theorem plain (hquote : c ≠ '"') (hbackslash : c ≠ '\\') (hc : 32 ≤ c.toNat)
    (h : Spells body text) : Spells (c :: body) (c :: text) :=
  h.cons (t := [c]) (.plain hquote hbackslash h.isLiteralBody) (List.cons_ne_nil _ _)
    fun opening fuel read _ => readString_plain opening fuel read hquote hbackslash hc _

/-- An escape with its digits. A unit at the front of `body` could only be the second of a pair if it
were a whole one. -/
theorem exists_of_unicodeEscape {s r : List Char}
    (he : unicodeEscape s = .ok (c, body ++ '"' :: r))
    (hwhole : ∀ digits, body ++ '"' :: r = '\\' :: 'u' :: digits → 5 ≤ digits.length)
    (h : Spells body text) :
    ∃ units, s = units ++ '"' :: r ∧ Spells ('\\' :: 'u' :: units) (c :: text) := by
  have hne : ∀ rest, body ++ '"' :: rest ≠ [] := fun rest => by simp
  rcases unicodeEscape_eq_ok he hwhole with
    ⟨unit, n, hunit, rfl, halone, rfl⟩ | ⟨unit, n, low, m, hunit, hhigh, hlow, hm, rfl, hc⟩
  · refine ⟨unit ++ body, (List.append_assoc _ _ _).symm, ?_⟩
    refine h.cons (t := '\\' :: 'u' :: unit) (hunit.isLiteralBody h.isLiteralBody)
      (List.cons_ne_nil _ _) fun opening fuel read rest => ?_
    exact readString_unicode opening fuel read
      (hunit.unicodeEscape_alone (hne rest) (halone.before_quote rest))
  · refine ⟨unit ++ '\\' :: 'u' :: (low ++ body), by simp, ?_⟩
    have hbody := hunit.isLiteralBody (hlow.isLiteralBody h.isLiteralBody)
    have hpair : '\\' :: 'u' :: (unit ++ '\\' :: 'u' :: (low ++ body)) =
        '\\' :: 'u' :: (unit ++ '\\' :: 'u' :: low) ++ body := by simp
    rw [hpair] at hbody ⊢
    refine h.cons hbody (List.cons_ne_nil _ _) fun opening fuel read rest => ?_
    have hread := readString_unicode opening fuel read
      (hunit.unicodeEscape_pair hhigh hlow hm (hne rest))
    rw [← hc] at hread
    rw [← hread]
    simp

end Spells

theorem five_le_of_readString {opening fuel : Nat} {read digits : List Char}
    {found : List Char × List Char}
    (h : readString opening fuel read ('\\' :: 'u' :: digits) = .ok found) : 5 ≤ digits.length := by
  cases fuel with
  | zero => cases h
  | succ fuel =>
    rw [readString] at h
    by_contra hshort
    rw [unicodeEscape, if_pos (by omega)] at h
    cases h

/-- A string that is read goes up to its closing quote, and is read there whatever follows. -/
theorem readString_eq_ok {opening fuel : Nat} {read s t r : List Char}
    (h : readString opening fuel read s = .ok (t, r)) :
    ∃ body text, s = body ++ '"' :: r ∧ t = read.reverse ++ text ∧ Spells body text := by
  induction fuel generalizing read s with
  | zero => cases h
  | succ fuel ih =>
    rw [readString.eq_def] at h
    simp only at h
    split at h
    · cases h
    · cases h
      exact ⟨[], [], rfl, (List.append_nil _).symm, .nil⟩
    · rename_i rest
      split at h
      · cases h
      · rename_i c behind hescape
        obtain ⟨body, text, rfl, rfl, hspells⟩ := ih h
        obtain ⟨units, rfl, hunits⟩ := hspells.exists_of_unicodeEscape hescape
          fun digits heq => five_le_of_readString (heq ▸ h)
        exact ⟨_, _, rfl, by simp, hunits⟩
    · cases h
    · rename_i e rest _ _
      split at h
      · rename_i c he
        obtain ⟨body, text, rfl, rfl, hspells⟩ := ih h
        exact ⟨_, _, rfl, by simp, hspells.letter he⟩
      · cases h
    · rename_i c rest hquote _ _ hescape
      split at h
      · cases h
      · rename_i hcontrol
        obtain ⟨body, text, rfl, rfl, hspells⟩ := ih h
        have hbackslash : c ≠ '\\' := by
          rintro rfl
          cases body with
          | nil => exact hescape '"' r rfl rfl
          | cons d body => exact hescape d _ rfl rfl
        refine ⟨_, _, rfl, by simp, hspells.plain hquote hbackslash (Nat.le_of_not_lt hcontrol)⟩

section

variable {fuel depth : Nat} {s r body text : List Char} {value : Json}

theorem Spells.readString_quoted (h : Spells body text) (s : List Char) :
    ∃ t, quoted body ++ s = '"' :: t ∧
      readString ('"' :: t).length ('"' :: t).length [] t = .ok (text, s) := by
  refine ⟨body ++ '"' :: s, quoted_append body s, h.reads _ _ [] s ?_⟩
  simp only [List.length_append, List.length_cons]
  omega

theorem Spells.readValue_quoted (h : Spells body text) (fuel depth : Nat) (s : List Char) :
    readValue (fuel + 1) depth (quoted body ++ s) = .ok (.str (String.ofList text), s) := by
  obtain ⟨t, ht, hread⟩ := h.readString_quoted s
  rw [ht, readValue, hread]

theorem Spells.readMembers_quoted {behindColon : List Char} (h : Spells body text)
    (hcolon : dropSpace s = ':' :: behindColon)
    (hvalue : readValue fuel depth (dropSpace behindColon) = .ok (value, r))
    (before : List (String × Json)) :
    readMembers (fuel + 1) depth before (quoted body ++ s) =
      match dropSpace r with
      | '\x7d' :: r => .ok (.obj (Table.ofPairs ((String.ofList text, value) :: before).reverse), r)
      | ',' :: r => readMembers fuel depth ((String.ofList text, value) :: before) (dropSpace r)
      | r => failAt .expectedComma r := by
  obtain ⟨t, ht, hread⟩ := h.readString_quoted s
  have hstep := readMembers.eq_2 depth before fuel t
  simp only [hread, hcolon, hvalue] at hstep
  rw [ht]
  exact hstep

end

/-! What is written for a text is read as that text. -/

theorem isLiteralBody_escapeChar {body : List Char} (c : Char) (h : IsLiteralBody body) :
    IsLiteralBody (escapeChar c ++ body) := by
  have hescaped := escaped_escapeChar c
  generalize escapeChar c = written at hescaped ⊢
  cases hescaped with
  | @letter e he =>
    have hnewline : e ≠ '\n' := by
      rintro rfl
      cases he
    exact .escape hnewline h
  | plain hquote hbackslash => exact .plain hquote hbackslash h
  | unit hc => exact (isUnit_unitDigits hc).isLiteralBody h
  | pair hc =>
    have hpair := (isUnit_halves c).1.isLiteralBody ((isUnit_halves c).2.isLiteralBody h)
    simpa [unitEscape, unitDigits] using hpair

theorem spells_escaped (cs : List Char) : Spells (cs.flatMap escapeChar) cs := by
  refine ⟨?_, fun opening fuel read rest hfuel => readString_quoted opening fuel read ?_ rest⟩
  · induction cs with
    | nil => exact .nil
    | cons c cs ih => exact isLiteralBody_escapeChar c ih
  · exact (length_le_length_escaped cs).trans_lt hfuel

/-! ## Numbers and words -/

def isMark (c : Char) : Bool :=
  c = '[' || c = ']' || c = '\x7b' || c = '\x7d' || c = ',' || c = ':'

/-- A character that may belong to a number or a word. -/
def isWordChar (c : Char) : Bool := !isSpace c && !isMark c && c ≠ '"'

/-- The text does not go on with a number or a word that stands before it. -/
def Stops (s : List Char) : Prop := ∀ c ∈ s.head?, isWordChar c = false

theorem isWordChar_of_isAsciiDigit {c : Char} (h : isAsciiDigit c = true) :
    isWordChar c = true := by
  have hne : ∀ d, isAsciiDigit d = false → c ≠ d := fun d => ne_of_test h
  have hspace : isSpace c = false := by
    simp [isSpace, hne ' ' (by decide), hne '\t' (by decide), hne '\n' (by decide),
      hne '\r' (by decide)]
  have hmark : isMark c = false := by
    simp [isMark, hne '[' (by decide), hne ']' (by decide), hne '\x7b' (by decide),
      hne '\x7d' (by decide), hne ',' (by decide), hne ':' (by decide)]
  simp [isWordChar, hspace, hmark, hne '"' (by decide)]

theorem Stops.endsNumber {s : List Char} (h : Stops s) : EndsNumber s := by
  intro c hc
  have hstop := h c hc
  have hne : ∀ d, isWordChar d = true → c ≠ d := fun d hd => (ne_of_test hd hstop).symm
  refine ⟨?_, hne '.' (by decide), hne 'e' (by decide), hne 'E' (by decide)⟩
  by_contra hdigit
  exact hne c (isWordChar_of_isAsciiDigit (by simpa using hdigit)) rfl

section

variable {s t r whole digits : List Char}

theorem takeWhole?_eq_some (h : takeWhole? s = some (whole, r)) :
    s = whole ++ r ∧ whole ≠ [] ∧ (∀ c ∈ whole, isAsciiDigit c = true) ∧
      ∀ rest, (∀ c ∈ rest.head?, isAsciiDigit c = false) →
        takeWhole? (whole ++ rest) = some (whole, rest) := by
  unfold takeWhole? at h
  split at h
  · cases h
    exact ⟨rfl, List.cons_ne_nil _ _, List.forall_mem_singleton.2 rfl, fun _ _ => rfl⟩
  · rename_i hzero
    simp only at h
    split at h
    · cases h
    rename_i hne
    cases h
    have hsplit := List.takeWhile_append_dropWhile (p := isAsciiDigit) (l := s)
    have hdigits : ∀ c ∈ s.takeWhile isAsciiDigit, isAsciiDigit c = true :=
      fun c hc => List.mem_takeWhile_imp hc
    refine ⟨hsplit.symm, hne, hdigits, fun rest hrest => ?_⟩
    obtain ⟨htake, hdrop⟩ := span_append hdigits hrest
    have hfirst : ∀ t, s.takeWhile isAsciiDigit ++ rest ≠ '0' :: t := by
      intro t heq
      obtain ⟨c, more, hwhole⟩ := List.exists_cons_of_ne_nil hne
      rw [hwhole] at heq hsplit
      obtain ⟨rfl, -⟩ := List.cons.inj heq
      exact hzero _ hsplit.symm
    rw [takeWhole?.eq_def]
    split
    · rename_i t heq
      exact absurd heq (hfirst t)
    · simp only [htake, hdrop]
      exact if_neg hne

/-- The text of a fraction with its digits. -/
inductive IsFraction : List Char → List Char → Prop where
  | absent : IsFraction [] []
  | point {digits : List Char} (hne : digits ≠ [])
      (hdigits : ∀ c ∈ digits, isAsciiDigit c = true) : IsFraction ('.' :: digits) digits

theorem takeFraction_eq (h : takeFraction s = (digits, r)) :
    ∃ t, s = t ++ r ∧ IsFraction t digits := by
  unfold takeFraction at h
  split at h
  · rename_i q
    simp only at h
    split at h
    · cases h
      exact ⟨[], rfl, .absent⟩
    · rename_i hne
      cases h
      refine ⟨'.' :: q.takeWhile isAsciiDigit, ?_, .point hne fun c hc => List.mem_takeWhile_imp hc⟩
      rw [List.cons_append, List.takeWhile_append_dropWhile]
  · cases h
    exact ⟨[], rfl, .absent⟩

theorem IsFraction.take (h : IsFraction t digits) {rest : List Char}
    (hrest : ∀ c ∈ rest.head?, isAsciiDigit c = false ∧ c ≠ '.') :
    takeFraction (t ++ rest) = (digits, rest) := by
  cases h with
  | absent =>
    rw [List.nil_append, takeFraction.eq_def]
    split
    · exact absurd rfl (hrest '.' rfl).2
    · rfl
  | point hne hdigits =>
    obtain ⟨htake, hdrop⟩ := span_append hdigits fun c hc => (hrest c hc).1
    rw [List.cons_append, takeFraction]
    simp only [htake, hdrop]
    exact if_neg hne

theorem IsFraction.isWordChar (h : IsFraction t digits) : ∀ c ∈ t, isWordChar c = true := by
  cases h with
  | absent => exact List.forall_mem_nil _
  | point hne hdigits =>
    exact List.forall_mem_cons.2
      ⟨by decide, fun c hc => isWordChar_of_isAsciiDigit (hdigits c hc)⟩

/-- The text of an exponent with its value. -/
inductive IsExponent : List Char → Option Int → Prop where
  | absent : IsExponent [] none
  | mark {m : Char} {sign digits : List Char} {negative : Bool} (hmark : m = 'e' ∨ m = 'E')
      (hsign : (sign = ['-'] ∧ negative = true) ∨ (sign = ['+'] ∨ sign = []) ∧ negative = false)
      (hne : digits ≠ []) (hdigits : ∀ c ∈ digits, isAsciiDigit c = true) :
      IsExponent (m :: (sign ++ digits))
        (some (if negative then -(natOfDigits digits : Int) else natOfDigits digits))

variable {e : Option Int}

theorem takeExponent_eq (h : takeExponent s = (e, r)) : ∃ t, s = t ++ r ∧ IsExponent t e := by
  unfold takeExponent at h
  split at h
  · rename_i m q
    split at h
    · rename_i hmark
      rw [Bool.or_eq_true, decide_eq_true_eq, decide_eq_true_eq] at hmark
      split at h
      rename_i negative body hbody
      obtain ⟨sign, rfl, hsign⟩ : ∃ sign, q = sign ++ body ∧
          ((sign = ['-'] ∧ negative = true) ∨ (sign = ['+'] ∨ sign = []) ∧ negative = false) := by
        split at hbody <;> cases hbody
        · exact ⟨['-'], rfl, .inl ⟨rfl, rfl⟩⟩
        · exact ⟨['+'], rfl, .inr ⟨.inl rfl, rfl⟩⟩
        · exact ⟨[], rfl, .inr ⟨.inr rfl, rfl⟩⟩
      simp only at h
      split at h
      · cases h
        exact ⟨[], rfl, .absent⟩
      · rename_i hne
        cases h
        refine ⟨m :: (sign ++ body.takeWhile isAsciiDigit), ?_,
          .mark hmark hsign hne fun c hc => List.mem_takeWhile_imp hc⟩
        rw [List.cons_append, List.append_assoc, List.takeWhile_append_dropWhile]
    · cases h
      exact ⟨[], rfl, .absent⟩
  · cases h
    exact ⟨[], rfl, .absent⟩

theorem IsExponent.take (h : IsExponent t e) {rest : List Char} (hrest : EndsNumber rest) :
    takeExponent (t ++ rest) = (e, rest) := by
  cases h with
  | absent => exact takeExponent_of_endsNumber hrest
  | @mark m sign digits negative hmark hsign hne hdigits =>
    obtain ⟨htake, hdrop⟩ := span_append hdigits fun c hc => (hrest c hc).1
    have hletter : (decide (m = 'e') || decide (m = 'E')) = true := by
      rcases hmark with rfl | rfl <;> rfl
    have hunsigned : ∀ c, isAsciiDigit c = false → ∀ t, digits ++ rest = c :: t → False := by
      intro c hc t heq
      obtain ⟨d, more, rfl⟩ := List.exists_cons_of_ne_nil hne
      obtain ⟨rfl, -⟩ := List.cons.inj heq
      exact Bool.noConfusion (hc.symm.trans (hdigits d List.mem_cons_self))
    rw [List.cons_append, List.append_assoc]
    rcases hsign with ⟨rfl, rfl⟩ | ⟨rfl | rfl, rfl⟩
    · simp only [List.cons_append, List.nil_append, takeExponent.eq_1, hletter, htake, hdrop, hne,
        if_true, if_false]
    · simp only [List.cons_append, List.nil_append, takeExponent.eq_2, hletter, htake, hdrop, hne,
        if_true, if_false]
    · rw [List.nil_append, takeExponent.eq_3 m (digits ++ rest) (hunsigned '-' (by decide))
        (hunsigned '+' (by decide))]
      simp only [hletter, htake, hdrop, hne, if_true, if_false]

theorem IsExponent.isWordChar (h : IsExponent t e) : ∀ c ∈ t, isWordChar c = true := by
  cases h with
  | absent => exact List.forall_mem_nil _
  | @mark m sign digits negative hmark hsign hne hdigits =>
    have hm : Json.isWordChar m = true := by rcases hmark with rfl | rfl <;> decide
    have hsigns : ∀ c ∈ sign, Json.isWordChar c = true := by
      rcases hsign with ⟨rfl, -⟩ | ⟨rfl | rfl, -⟩
      · exact List.forall_mem_singleton.2 (by decide)
      · exact List.forall_mem_singleton.2 (by decide)
      · exact List.forall_mem_nil _
    refine List.forall_mem_cons.2 ⟨hm, List.forall_mem_append.2 ⟨hsigns, fun c hc => ?_⟩⟩
    exact isWordChar_of_isAsciiDigit (hdigits c hc)

theorem IsExponent.head (h : IsExponent t e) {rest : List Char} (hrest : EndsNumber rest) :
    ∀ c ∈ (t ++ rest).head?, isAsciiDigit c = false ∧ c ≠ '.' := by
  cases h with
  | absent => exact fun c hc => ⟨(hrest c hc).1, (hrest c hc).2.1⟩
  | mark hmark =>
    intro c hc
    obtain rfl := Option.some.inj hc
    rcases hmark with rfl | rfl <;> decide

/-- A number that is read begins with a digit or with a sign and a digit, and is read before every text
that does not go on with it. -/
theorem readNumber_eq_ok {v : Json} (h : readNumber s = .ok (v, r)) :
    ∃ sign d more, (sign = [] ∨ sign = ['-']) ∧ isAsciiDigit d = true ∧
      s = sign ++ d :: (more ++ r) ∧ (∀ c ∈ more, isWordChar c = true) ∧
        ∀ rest, Stops rest → readNumber (sign ++ d :: (more ++ rest)) = .ok (v, rest) := by
  obtain @⟨negative, body, whole, behindWhole, fraction, behindFraction, e, hsign, hwhole, hfraction,
    hexponent, hvalue⟩ := readNumber_eq_ok_iff.1 h
  obtain ⟨rfl, hne, hdigits, htake⟩ := takeWhole?_eq_some hwhole
  obtain ⟨t, rfl, ht⟩ := takeFraction_eq hfraction
  obtain ⟨u, rfl, hu⟩ := takeExponent_eq hexponent
  obtain ⟨d, more, rfl⟩ := List.exists_cons_of_ne_nil hne
  obtain ⟨hd, hmore⟩ := List.forall_mem_cons.1 hdigits
  have hchars : ∀ c ∈ more ++ (t ++ u), isWordChar c = true :=
    List.forall_mem_append.2 ⟨fun c hc => isWordChar_of_isAsciiDigit (hmore c hc),
      List.forall_mem_append.2 ⟨ht.isWordChar, hu.isWordChar⟩⟩
  have hparts : ∀ {rest s}, Stops rest → Signed s negative (d :: more ++ (t ++ (u ++ rest))) →
      readNumber s = .ok (v, rest) := by
    intro rest s hrest hsign
    have hfollows := hu.head hrest.endsNumber
    refine readNumber_eq_ok_iff.2 (.of_parts hsign (htake _ ?_) (ht.take hfollows)
      (hu.take hrest.endsNumber) hvalue)
    cases ht with
    | absent => exact fun c hc => (hfollows c hc).1
    | point => exact fun c hc => Option.some.inj hc ▸ by decide
  rcases signed_iff.1 hsign with ⟨rfl, rfl⟩ | ⟨-, rfl, rfl⟩
  · refine ⟨['-'], d, more ++ (t ++ u), .inr rfl, hd, by simp, hchars, fun rest hrest => ?_⟩
    exact hparts hrest (by simp [Signed])
  · refine ⟨[], d, more ++ (t ++ u), .inl rfl, hd, by simp, hchars, fun rest hrest => ?_⟩
    refine hparts hrest ?_
    simpa using signed_digit hd (more ++ (t ++ (u ++ rest)))

end

/-- A number or a word, which is read before every text that does not go on with it. -/
structure IsScalar (text : List Char) (v : Json) : Prop where
  ne_nil : text ≠ []
  chars : ∀ c ∈ text, isWordChar c = true
  reads : ∀ rest, Stops rest → readScalar (text ++ rest) = .ok (v, rest)

theorem isScalar_of_mem_words {word : List Char} {v : Json} (h : (word, v) ∈ words) :
    IsScalar word v := by
  simp only [words, List.mem_cons, List.not_mem_nil, or_false, Prod.mk.injEq] at h
  rcases h with ⟨rfl, rfl⟩ | ⟨rfl, rfl⟩ | ⟨rfl, rfl⟩ | ⟨rfl, rfl⟩ | ⟨rfl, rfl⟩ | ⟨rfl, rfl⟩ <;>
    exact ⟨by simp, List.all_eq_true.1 (by decide), fun rest _ => by
      simp [readScalar, words, dropLiteral]⟩

theorem readScalar_eq_ok {s r : List Char} {v : Json} (h : readScalar s = .ok (v, r)) :
    ∃ text, s = text ++ r ∧ IsScalar text v := by
  unfold readScalar at h
  split at h
  · rename_i found hfound
    cases h
    obtain ⟨⟨word, value⟩, hmem, hword⟩ := List.exists_of_findSome?_eq_some hfound
    obtain ⟨rest, hrest, hv⟩ := Option.map_eq_some_iff.1 hword
    cases hv
    exact ⟨word, eq_append_of_dropLiteral hrest, isScalar_of_mem_words hmem⟩
  · obtain ⟨sign, d, more, hsign, hd, rfl, hmore, hread⟩ := readNumber_eq_ok h
    refine ⟨sign ++ d :: more, by simp, ?_⟩
    have hsigned : ∀ c ∈ sign, isWordChar c = true := by
      rcases hsign with rfl | rfl
      · exact List.forall_mem_nil _
      · exact List.forall_mem_singleton.2 (by decide)
    refine ⟨by simp, List.forall_mem_append.2 ⟨hsigned, List.forall_mem_cons.2
      ⟨isWordChar_of_isAsciiDigit hd, hmore⟩⟩, fun rest hrest => ?_⟩
    obtain ⟨hplain, hminus⟩ := readScalar_eq_readNumber hd (more ++ rest)
    rw [List.append_assoc, List.cons_append, ← hread rest hrest]
    rcases hsign with rfl | rfl
    · exact hplain
    · exact hminus

end Json
end DeclScan
