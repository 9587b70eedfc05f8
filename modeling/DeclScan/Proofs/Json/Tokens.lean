import DeclScan.Json.Reader
import DeclScan.Json.Writer
import DeclScan.Proofs.Text.Blanks
import Mathlib.Tactic

/-!
# DeclScan.Proofs.Json.Tokens

The texts of strings and of whole numbers are read back as what was written, whatever comes behind
them.

* `Json.readString_escapeChar`: one character. The induction over a text is `Json.readString_quoted`.
* `Json.readScalar_int`: a whole number of at most `maxDigits` digits, before anything that does not
  go on with it (`Json.EndsNumber`).
-/

namespace DeclScan
namespace Json

open Text

theorem ne_of_test {test : Char → Bool} {c d : Char} (hc : test c = true) (hd : test d = false) :
    c ≠ d := by
  rintro rfl
  exact Bool.noConfusion (hd.symm.trans hc)

/-! ## Hexadecimal digits -/

theorem hexValue?_hexDigit {d : Nat} (h : d < 16) : hexValue? (hexDigit d) = some d := by
  have hall : ∀ d : Fin 16, hexValue? (hexDigit d) = some d.val := by decide
  exact hall ⟨d, h⟩

/-- The digits of an escape without the `\u` in front of them. -/
def unitDigits (n : Nat) : List Char :=
  [hexDigit (n / 4096 % 16), hexDigit (n / 256 % 16), hexDigit (n / 16 % 16), hexDigit (n % 16)]

/-- Four hexadecimal digits, and what they are worth. -/
structure IsUnit (unit : List Char) (n : Nat) : Prop where
  length : unit.length = 4
  digits : ∀ c ∈ unit, (hexValue? c).isSome = true
  takes : ∀ s, takeHex? (unit ++ s) = some (n, s)

theorem isUnit_unitDigits {n : Nat} (h : n < 0x10000) : IsUnit (unitDigits n) n := by
  have hdigit : ∀ m, hexValue? (hexDigit (m % 16)) = some (m % 16) :=
    fun m => hexValue?_hexDigit (Nat.mod_lt m (by decide))
  have hvalue : ((n / 4096 % 16 * 16 + n / 256 % 16) * 16 + n / 16 % 16) * 16 + n % 16 = n := by
    omega
  refine ⟨rfl, fun c hc => ?_, fun s => ?_⟩
  · simp only [unitDigits, List.mem_cons, List.not_mem_nil, or_false] at hc
    rcases hc with rfl | rfl | rfl | rfl <;> exact Option.isSome_of_eq_some (hdigit _)
  · simp only [unitDigits, List.cons_append, List.nil_append, takeHex?, hdigit, hvalue]

/-! ## Characters -/

section

variable {unit s : List Char} {n : Nat}

/-- A unit that is not the first of a pair: it is no high one, or no low one follows. -/
def StandsAlone (n : Nat) (rest : List Char) : Prop :=
  ∀ digits, rest = '\\' :: 'u' :: digits → isHighSurrogate n = true →
    ∃ second after, takeHex? digits = some (second, after) ∧ isLowSurrogate second = false

theorem standsAlone_of_not_high (h : isHighSurrogate n = false) (rest : List Char) :
    StandsAlone n rest :=
  fun _ _ hhigh => Bool.noConfusion (h.symm.trans hhigh)

theorem IsUnit.unicodeEscape_alone (h : IsUnit unit n) (hs : s ≠ []) (halone : StandsAlone n s) :
    unicodeEscape (unit ++ s) = .ok (charOfUnit n, s) := by
  have hlength : ¬ (unit ++ s).length < 5 := by
    have := List.length_pos_iff.2 hs
    rw [List.length_append, h.length]
    omega
  rw [unicodeEscape, if_neg hlength, h.takes]
  simp only
  split
  · rename_i digits
    split
    · rename_i hpair
      obtain ⟨second, after, htake, hlow⟩ := halone digits rfl (Bool.and_eq_true_iff.1 hpair).1
      simp only [htake, hlow, Bool.false_eq_true, if_false]
    · rfl
  · rfl

theorem IsUnit.unicodeEscape_pair {low : List Char} {m : Nat} (h : IsUnit unit n)
    (hhigh : isHighSurrogate n = true) (hlow : IsUnit low m) (hm : isLowSurrogate m = true)
    (hs : s ≠ []) :
    unicodeEscape (unit ++ '\\' :: 'u' :: (low ++ s)) =
      .ok (Char.ofNat (0x10000 + (n - 0xD800) * 0x400 + (m - 0xDC00)), s) := by
  have hlength : 0 < s.length := List.length_pos_iff.2 hs
  have hfive : ¬ (unit ++ '\\' :: 'u' :: (low ++ s)).length < 5 := by
    simp only [List.length_append, List.length_cons, h.length, hlow.length]
    omega
  have hsix : 6 < ('\\' :: 'u' :: (low ++ s)).length := by
    simp only [List.length_append, List.length_cons, hlow.length]
    omega
  rw [unicodeEscape, if_neg hfive, h.takes]
  simp only [hhigh, hsix, decide_true, Bool.and_self, if_true, hlow.takes, hm]

end

theorem isSurrogate_toNat (c : Char) :
    isHighSurrogate c.toNat = false ∧ isLowSurrogate c.toNat = false := by
  have hvalid := c.valid
  simp only [isHighSurrogate, isLowSurrogate, Bool.and_eq_false_iff, decide_eq_false_iff_not]
  have hc : c.toNat < 0xD800 ∨ 0xDFFF < c.toNat := by
    rcases hvalid with h | h
    · exact Or.inl h
    · exact Or.inr h.1
  omega

theorem charOfUnit_toNat (c : Char) : charOfUnit c.toNat = c := by
  obtain ⟨hhigh, hlow⟩ := isSurrogate_toNat c
  rw [charOfUnit, hhigh, hlow, Bool.or_self, if_neg Bool.false_ne_true, Char.ofNat_toNat]

theorem toNat_lt (c : Char) : c.toNat < 0x110000 := by
  rcases c.valid with h | h
  · exact Nat.lt_trans h (by decide)
  · exact h.2

theorem isUnit_halves (c : Char) :
    IsUnit (unitDigits (0xD800 + (c.toNat - 0x10000) / 0x400))
        (0xD800 + (c.toNat - 0x10000) / 0x400) ∧
      IsUnit (unitDigits (0xDC00 + (c.toNat - 0x10000) % 0x400))
        (0xDC00 + (c.toNat - 0x10000) % 0x400) := by
  have hlt := toNat_lt c
  exact ⟨isUnit_unitDigits (by omega), isUnit_unitDigits (by omega)⟩

theorem unicodeEscape_beyond {c : Char} (hc : 0x10000 ≤ c.toNat) {s : List Char} (hs : s ≠ []) :
    unicodeEscape (unitDigits (0xD800 + (c.toNat - 0x10000) / 0x400) ++
      unitEscape (0xDC00 + (c.toNat - 0x10000) % 0x400) ++ s) = .ok (c, s) := by
  have hlt := toNat_lt c
  have hhigh : isHighSurrogate (0xD800 + (c.toNat - 0x10000) / 0x400) = true := by
    simp only [isHighSurrogate, Bool.and_eq_true, decide_eq_true_eq]
    omega
  have hlow : isLowSurrogate (0xDC00 + (c.toNat - 0x10000) % 0x400) = true := by
    simp only [isLowSurrogate, Bool.and_eq_true, decide_eq_true_eq]
    omega
  have hvalue : 0x10000 + (0xD800 + (c.toNat - 0x10000) / 0x400 - 0xD800) * 0x400 +
      (0xDC00 + (c.toNat - 0x10000) % 0x400 - 0xDC00) = c.toNat := by
    omega
  have hpair := (isUnit_halves c).1.unicodeEscape_pair hhigh (isUnit_halves c).2 hlow hs
  rw [hvalue, Char.ofNat_toNat] at hpair
  rw [List.append_assoc]
  exact hpair

/-- The forms in which a character is written. -/
inductive Escaped (c : Char) : List Char → Prop where
  | letter {e : Char} (h : simpleEscape? e = some c) : Escaped c ['\\', e]
  | plain (hquote : c ≠ '"') (hbackslash : c ≠ '\\') (hfrom : 32 ≤ c.toNat) (hto : c.toNat ≤ 126) :
      Escaped c [c]
  | unit (h : c.toNat < 0x10000) : Escaped c ('\\' :: 'u' :: unitDigits c.toNat)
  | pair (h : 0x10000 ≤ c.toNat) :
      Escaped c ('\\' :: 'u' :: (unitDigits (0xD800 + (c.toNat - 0x10000) / 0x400) ++
        unitEscape (0xDC00 + (c.toNat - 0x10000) % 0x400)))

theorem escaped_escapeChar (c : Char) : Escaped c (escapeChar c) := by
  have hletter : ∀ {a e : Char}, simpleEscape? e = some a → c = a → Escaped c ['\\', e] :=
    fun h hc => .letter (hc ▸ h)
  unfold escapeChar
  split_ifs with hquote hbackslash hn hr ht hf hb
  · exact hletter rfl hquote
  · exact hletter rfl hbackslash
  · exact hletter rfl hn
  · exact hletter rfl hr
  · exact hletter rfl ht
  · exact hletter rfl hf
  · exact hletter rfl hb
  simp only [Bool.and_eq_true, decide_eq_true_eq]
  split_ifs with hprintable hbasic
  · exact .plain hquote hbackslash hprintable.1 hprintable.2
  · exact .unit hbasic
  · exact .pair (Nat.le_of_not_lt hbasic)

section

variable (opening fuel : Nat) (read : List Char)

theorem readString_unicode {s rest : List Char} {c : Char} (h : unicodeEscape s = .ok (c, rest)) :
    readString opening (fuel + 1) read ('\\' :: 'u' :: s) =
      readString opening fuel (c :: read) rest := by
  rw [readString]
  simp only [h]

theorem readString_letter {e c : Char} (h : simpleEscape? e = some c) (s : List Char) :
    readString opening (fuel + 1) read ('\\' :: e :: s) = readString opening fuel (c :: read) s := by
  have he : e ≠ 'u' := by
    rintro rfl
    cases h
  rw [readString.eq_def]
  split <;> simp_all

theorem readString_plain {c : Char} (hquote : c ≠ '"') (hbackslash : c ≠ '\\') (hc : 32 ≤ c.toNat)
    (s : List Char) :
    readString opening (fuel + 1) read (c :: s) = readString opening fuel (c :: read) s := by
  rw [readString.eq_def]
  split <;> simp_all

/-- What is written for a character is read as that character, one step of the loop for all of it.
Something has to follow, as the closing quote does. -/
theorem readString_escapeChar (c : Char) {s : List Char} (hs : s ≠ []) :
    readString opening (fuel + 1) read (escapeChar c ++ s) =
      readString opening fuel (c :: read) s := by
  have hescaped := escaped_escapeChar c
  generalize escapeChar c = written at hescaped ⊢
  cases hescaped with
  | letter h => exact readString_letter opening fuel read h s
  | plain hquote hbackslash hfrom hto =>
    exact readString_plain opening fuel read hquote hbackslash hfrom s
  | unit h =>
    have hunit := (isUnit_unitDigits h).unicodeEscape_alone hs
      (standsAlone_of_not_high (isSurrogate_toNat c).1 s)
    rw [charOfUnit_toNat] at hunit
    exact readString_unicode opening fuel read hunit
  | pair h => exact readString_unicode opening fuel read (unicodeEscape_beyond h hs)

/-- A written text is read up to its closing quote. -/
theorem readString_quoted {cs : List Char} (hfuel : cs.length < fuel) (rest : List Char) :
    readString opening fuel read (cs.flatMap escapeChar ++ '"' :: rest) =
      .ok (read.reverse ++ cs, rest) := by
  induction cs generalizing fuel read with
  | nil =>
    obtain ⟨fuel, rfl⟩ : ∃ n, fuel = n + 1 := ⟨fuel - 1, by omega⟩
    rw [List.flatMap_nil, List.nil_append, List.append_nil, readString]
  | cons c cs ih =>
    obtain ⟨fuel, rfl⟩ : ∃ n, fuel = n + 1 := ⟨fuel - 1, by omega⟩
    rw [List.flatMap_cons, List.append_assoc, readString_escapeChar _ _ _ _ (by simp),
      ih fuel (c :: read) (by simpa using hfuel)]
    simp

end

theorem length_le_length_escaped (cs : List Char) :
    cs.length ≤ (cs.flatMap escapeChar).length := by
  induction cs with
  | nil => exact Nat.le_refl 0
  | cons c cs ih =>
    have hc : 1 ≤ (escapeChar c).length := by
      have hescaped := escaped_escapeChar c
      generalize escapeChar c = written at hescaped ⊢
      cases hescaped <;> simp
    rw [List.flatMap_cons, List.length_append, List.length_cons]
    omega

theorem toList_quote (s : String) : (quote s).toList = '"' :: (s.toList.flatMap escapeChar ++ ['"']) :=
  String.toList_ofList

/-! ## Numbers -/

/-- The value of a number with these parts. -/
def numberValue (negative : Bool) (whole fraction : List Char) (exponent : Option Int) :
    Except Failure Json :=
  if fraction = [] && exponent.isNone then
    if maxDigits < whole.length then .error (.tooManyDigits whole.length)
    else
      let n : Int := natOfDigits whole
      .ok (.int (if negative then -n else n))
  else
    .ok (.float (Binary64.ofDecimal negative (natOfDigits (whole ++ fraction))
      (exponent.getD 0 - fraction.length)))

/-- The sign of a number, if it has one, and what is behind it. -/
def Signed (s : List Char) (negative : Bool) (body : List Char) : Prop :=
  (match s with | '-' :: r => (true, r) | r => (false, r)) = (negative, body)

theorem signed_digit {d : Char} (h : isAsciiDigit d = true) (s : List Char) :
    Signed (d :: s) false (d :: s) := by
  unfold Signed
  split
  · rename_i heq
    rw [(List.cons.inj heq).1] at h
    cases h
  · rfl

theorem signed_iff {s body : List Char} {negative : Bool} : Signed s negative body ↔
    s = '-' :: body ∧ negative = true ∨ (∀ r, s ≠ '-' :: r) ∧ s = body ∧ negative = false := by
  unfold Signed
  split
  · simp [eq_comm, and_comm]
  · rename_i hminus
    have hne : ∀ r, s ≠ '-' :: r := fun r heq => hminus r heq
    simp [hne, eq_comm, and_comm]

/-- A number is read part by part. -/
inductive ReadsNumber (s : List Char) (v : Json) (r : List Char) : Prop where
  | of_parts {negative : Bool} {body whole behindWhole fraction behindFraction : List Char}
      {exponent : Option Int} (hsign : Signed s negative body)
      (hwhole : takeWhole? body = some (whole, behindWhole))
      (hfraction : takeFraction behindWhole = (fraction, behindFraction))
      (hexponent : takeExponent behindFraction = (exponent, r))
      (hvalue : numberValue negative whole fraction exponent = .ok v)

theorem readNumber_eq_ok_iff {s r : List Char} {v : Json} :
    readNumber s = .ok (v, r) ↔ ReadsNumber s v r := by
  rw [readNumber.eq_def]
  split
  rename_i negative body hsign
  constructor
  · intro h
    split at h
    · cases h
    rename_i whole behindWhole hwhole
    split at h
    rename_i fraction behindFraction hfraction
    split at h
    rename_i exponent rest hexponent
    have hvalue : numberValue negative whole fraction exponent = .ok v ∧ rest = r := by
      unfold numberValue
      split at h
      · split at h
        · cases h
        · simp_all
      · simp_all
    obtain ⟨hvalue, rfl⟩ := hvalue
    exact .of_parts hsign hwhole hfraction hexponent hvalue
  · rintro ⟨hsign', hwhole, hfraction, hexponent, hvalue⟩
    obtain ⟨rfl, rfl⟩ := Prod.mk.inj (hsign.symm.trans hsign')
    simp only [hwhole, hfraction, hexponent]
    unfold numberValue at hvalue
    split at hvalue
    · rename_i hint
      split at hvalue
      · cases hvalue
      · rename_i hlength
        cases hvalue
        rw [if_pos hint, if_neg hlength]
    · rename_i hfloat
      cases hvalue
      rw [if_neg hfloat]

/-- The text does not go on with a number that stands before it. -/
def EndsNumber (s : List Char) : Prop :=
  ∀ c ∈ s.head?, isAsciiDigit c = false ∧ c ≠ '.' ∧ c ≠ 'e' ∧ c ≠ 'E'

theorem isAsciiDigit_of_mem_toDigits {n : Nat} {c : Char} (h : c ∈ Nat.toDigits 10 n) :
    isAsciiDigit c = true :=
  Nat.isDigit_of_mem_toDigits (by decide) (by decide) h

theorem natOfDigits_toDigits (n : Nat) : natOfDigits (Nat.toDigits 10 n) = n := by
  have h : Nat.ofDigitChars 10 (Nat.toDigits 10 n) 0 = n :=
    Nat.ofDigitChars_toDigits (by decide) (by decide)
  rw [Nat.ofDigitChars] at h
  simpa only [natOfDigits, Nat.mul_comm] using h

theorem eq_zero_of_toDigits {n : Nat} {s : List Char} (h : Nat.toDigits 10 n = '0' :: s) : n = 0 := by
  induction n using Nat.strongRecOn generalizing s with
  | ind n ih =>
    by_cases hn : n < 10
    · rw [Nat.toDigits_of_lt_base hn] at h
      have hall : ∀ d : Fin 10, d.val.digitChar = '0' → d.val = 0 := by decide
      exact hall ⟨n, hn⟩ (List.cons.inj h).1
    · rw [Nat.toDigits_of_base_le (by decide) (Nat.le_of_not_lt hn)] at h
      obtain ⟨c, t, ht⟩ := List.exists_cons_of_ne_nil (Nat.toDigits_ne_nil (n := n / 10) (b := 10))
      rw [ht, List.cons_append] at h
      have hzero : n / 10 = 0 := ih (n / 10) (by omega) (by rw [ht, (List.cons.inj h).1])
      omega

theorem takeWhole?_toDigits (n : Nat) {rest : List Char} (h : EndsNumber rest) :
    takeWhole? (Nat.toDigits 10 n ++ rest) = some (Nat.toDigits 10 n, rest) := by
  have hdigits : ∀ c ∈ Nat.toDigits 10 n, isAsciiDigit c = true :=
    fun _ => isAsciiDigit_of_mem_toDigits
  by_cases hn : n = 0
  · subst hn
    rfl
  rw [takeWhole?.eq_def]
  split
  · rename_i s hs
    obtain ⟨c, t, ht⟩ := List.exists_cons_of_ne_nil (Nat.toDigits_ne_nil (n := n) (b := 10))
    rw [ht, List.cons_append] at hs
    exact absurd (eq_zero_of_toDigits (by rw [ht, (List.cons.inj hs).1])) hn
  · obtain ⟨htake, hdrop⟩ := span_append hdigits fun c hc => (h c hc).1
    rw [htake, hdrop]
    exact if_neg Nat.toDigits_ne_nil

theorem takeFraction_of_endsNumber {rest : List Char} (h : EndsNumber rest) :
    takeFraction rest = ([], rest) := by
  unfold takeFraction
  split
  · exact absurd rfl (h '.' rfl).2.1
  · rfl

theorem takeExponent_of_endsNumber {rest : List Char} (h : EndsNumber rest) :
    takeExponent rest = (none, rest) := by
  cases rest with
  | nil => rfl
  | cons c rest =>
    obtain ⟨-, -, he, hE⟩ := h c rfl
    simp [takeExponent, he, hE]

theorem exists_toDigits (n : Nat) :
    ∃ d digits, Nat.toDigits 10 n = d :: digits ∧ isAsciiDigit d = true := by
  obtain ⟨d, digits, h⟩ := List.exists_cons_of_ne_nil (Nat.toDigits_ne_nil (n := n) (b := 10))
  exact ⟨d, digits, h, isAsciiDigit_of_mem_toDigits (h ▸ List.mem_cons_self)⟩

section

variable {n : Nat} {rest : List Char}

theorem readNumber_of_signed (hn : n < 10 ^ maxDigits) (h : EndsNumber rest) {negative : Bool}
    {s : List Char} (hsign : Signed s negative (Nat.toDigits 10 n ++ rest)) :
    readNumber s = .ok (.int (if negative then -n else n), rest) := by
  have hlength : ¬ maxDigits < (Nat.toDigits 10 n).length :=
    Nat.not_lt.2 ((Nat.length_toDigits_le_iff (by decide) (by decide)).2 hn)
  refine readNumber_eq_ok_iff.2 (.of_parts hsign (takeWhole?_toDigits n h)
    (takeFraction_of_endsNumber h) (takeExponent_of_endsNumber h) ?_)
  simp only [numberValue, natOfDigits_toDigits, Option.isNone_none, decide_true, Bool.and_true,
    if_true, if_neg hlength]

theorem readNumber_toDigits (hn : n < 10 ^ maxDigits) (h : EndsNumber rest) :
    readNumber (Nat.toDigits 10 n ++ rest) = .ok (.int n, rest) := by
  obtain ⟨d, digits, hd, hdigit⟩ := exists_toDigits n
  refine @readNumber_of_signed n rest hn h false _ ?_
  rw [hd, List.cons_append]
  exact signed_digit hdigit _

theorem readScalar_eq_readNumber {d : Char} (hdigit : isAsciiDigit d = true) (digits : List Char) :
    readScalar (d :: digits) = readNumber (d :: digits) ∧
      readScalar ('-' :: d :: digits) = readNumber ('-' :: d :: digits) := by
  have hword : ∀ c, isAsciiDigit c = false → c ≠ d := fun c hc => (ne_of_test hdigit hc).symm
  have hn := hword 'n' (by decide)
  have ht := hword 't' (by decide)
  have hf := hword 'f' (by decide)
  have hN := hword 'N' (by decide)
  have hI := hword 'I' (by decide)
  have hsign := hword '-' (by decide)
  constructor <;> simp [readScalar, words, dropLiteral, hn, ht, hf, hN, hI, hsign]

theorem toList_toString_int (i : Int) :
    (0 ≤ i ∧ (toString i).toList = Nat.toDigits 10 i.natAbs) ∨
      (i < 0 ∧ (toString i).toList = '-' :: Nat.toDigits 10 i.natAbs) := by
  cases i with
  | ofNat n => exact Or.inl ⟨Int.natCast_nonneg n, String.toList_ofList⟩
  | negSucc n =>
    refine Or.inr ⟨Int.negSucc_lt_zero n, ?_⟩
    have htext : toString (Int.negSucc n) = "-" ++ String.ofList (Nat.toDigits 10 (n + 1)) := rfl
    rw [htext, String.toList_append]
    exact congrArg ('-' :: ·) String.toList_ofList

/-- A whole number is read from its text. -/
theorem readScalar_int {i : Int} (hi : i.natAbs < 10 ^ maxDigits) (h : EndsNumber rest) :
    readScalar ((toString i).toList ++ rest) = .ok (.int i, rest) := by
  obtain ⟨d, digits, hd, hdigit⟩ := exists_toDigits i.natAbs
  obtain ⟨hplain, hsigned⟩ := readScalar_eq_readNumber hdigit (digits ++ rest)
  rcases toList_toString_int i with ⟨hsign, htext⟩ | ⟨hsign, htext⟩
  · have hnumber := readNumber_toDigits hi h
    rw [hd, List.cons_append, ← hplain, Int.natAbs_of_nonneg hsign] at hnumber
    rw [htext, hd, List.cons_append, hnumber]
  · have hnumber := readNumber_of_signed (s := '-' :: (Nat.toDigits 10 i.natAbs ++ rest)) hi h rfl
    rw [hd, List.cons_append, ← hsigned] at hnumber
    rw [htext, hd, List.cons_append, List.cons_append, hnumber]
    simp only [if_true]
    congr 3
    omega

end

theorem readScalar_null (rest : List Char) :
    readScalar ("null".toList ++ rest) = .ok (.null, rest) := by
  simp [readScalar, words, dropLiteral]

theorem readScalar_bool (b : Bool) (rest : List Char) :
    readScalar ((if b then "true" else "false").toList ++ rest) = .ok (.bool b, rest) := by
  cases b <;> simp [readScalar, words, dropLiteral]

end Json
end DeclScan
