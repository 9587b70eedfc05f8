import DeclScan.Text.Tables

/-!
# DeclScan.Text.CharClass

The character classes that the recognisers of this library are built from. Every class is decided
by arithmetic on ASCII, and by a table of `DeclScan.Text.Tables` beyond it.

* `isBlank`: white space, the separators of information included.
* `isLineEnd`: the blanks that end a line.
* `isWord`: letters, numbers and the underscore.
* `isDigit`: decimal digits of any script.
* `isNameStart`, `isNameRest`: the ASCII identifiers that declarations are recognised by.
* `isPrintable`: characters that a quoted text shows as they are.
-/

namespace DeclScan
namespace Text

/-- Binary search for `n` among the ranges `lo ≤ i < hi` of an increasing table. -/
def searchRanges (table : Array (Nat × Nat)) (n : Nat) : Nat → Nat → Nat → Bool
  | 0, _, _ => false
  | fuel + 1, lo, hi =>
    if lo < hi then
      let mid := (lo + hi) / 2
      match table[mid]? with
      | none => false
      | some (first, last) =>
        if n < first then searchRanges table n fuel lo mid
        else if last < n then searchRanges table n fuel (mid + 1) hi
        else true
    else false

/-- Whether a code point lies in one of the ranges of an increasing table. -/
def inRanges (table : Array (Nat × Nat)) (n : Nat) : Bool :=
  searchRanges table n (table.size + 1) 0 table.size

def isAsciiDigit (c : Char) : Bool := '0' ≤ c && c ≤ '9'

def isAsciiLetter (c : Char) : Bool := ('a' ≤ c && c ≤ 'z') || ('A' ≤ c && c ≤ 'Z')

/-- White space: the ASCII blanks with the four separators of information, and the space
characters of other scripts. -/
def isBlank (c : Char) : Bool :=
  let n := c.toNat
  (9 ≤ n && n ≤ 13) || (28 ≤ n && n ≤ 32) || n = 0x85 || n = 0xA0 || n = 0x1680 ||
    (0x2000 ≤ n && n ≤ 0x200A) || n = 0x2028 || n = 0x2029 || n = 0x202F || n = 0x205F ||
    n = 0x3000

def isLineEnd (c : Char) : Bool :=
  let n := c.toNat
  (10 ≤ n && n ≤ 13) || (28 ≤ n && n ≤ 30) || n = 0x85 || n = 0x2028 || n = 0x2029

theorem isBlank_of_isLineEnd {c : Char} (h : isLineEnd c = true) : isBlank c = true := by
  simp only [isLineEnd, Bool.or_eq_true, Bool.and_eq_true, decide_eq_true_eq] at h
  simp only [isBlank, Bool.or_eq_true, Bool.and_eq_true, decide_eq_true_eq]
  omega

/-- A letter or number of any script, or the underscore. -/
def isWord (c : Char) : Bool :=
  isAsciiLetter c || isAsciiDigit c || c = '_' ||
    (128 ≤ c.toNat && inRanges wordRanges c.toNat)

def isDigit (c : Char) : Bool :=
  isAsciiDigit c || (128 ≤ c.toNat && inRanges decimalRanges c.toNat)

/-- The first character of a name: an ASCII letter or the underscore. -/
def isNameStart (c : Char) : Bool := isAsciiLetter c || c = '_'

/-- A later character of a name: an ASCII letter, an ASCII digit or the underscore. -/
def isNameRest (c : Char) : Bool := isAsciiLetter c || isAsciiDigit c || c = '_'

/-- Whether a quoted text shows the character as it is. -/
def isPrintable (c : Char) : Bool :=
  32 ≤ c.toNat && !(127 ≤ c.toNat && inRanges unprintableRanges c.toNat)

theorem isWord_of_isNameRest {c : Char} (h : isNameRest c = true) : isWord c = true := by
  simp only [isNameRest] at h
  simp only [isWord, h, Bool.true_or]

theorem isNameRest_of_isNameStart {c : Char} (h : isNameStart c = true) : isNameRest c = true := by
  simp only [isNameStart, Bool.or_eq_true] at h
  simp only [isNameRest, Bool.or_eq_true]
  exact h.elim (fun h => Or.inl (Or.inl h)) Or.inr

/-- No blank is part of a name. -/
theorem isBlank_eq_false_of_isNameRest {c : Char} (h : isNameRest c = true) : isBlank c = false := by
  simp only [isNameRest, isAsciiLetter, isAsciiDigit, Bool.or_eq_true, Bool.and_eq_true,
    decide_eq_true_eq, Char.le_def, UInt32.le_iff_toNat_le] at h
  simp only [isBlank, Char.toNat, Bool.or_eq_false_iff, Bool.and_eq_false_iff,
    decide_eq_false_iff_not]
  have ha : ('a' : Char).val.toNat = 97 := rfl
  have hz : ('z' : Char).val.toNat = 122 := rfl
  have hA : ('A' : Char).val.toNat = 65 := rfl
  have hZ : ('Z' : Char).val.toNat = 90 := rfl
  have h0 : ('0' : Char).val.toNat = 48 := rfl
  have h9 : ('9' : Char).val.toNat = 57 := rfl
  have hu : ('_' : Char).val.toNat = 95 := rfl
  rcases h with (h | h) | h
  · omega
  · omega
  · subst h
    omega

end Text
end DeclScan
