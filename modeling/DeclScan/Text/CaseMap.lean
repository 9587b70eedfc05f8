import DeclScan.Text.CharClass

/-!
# DeclScan.Text.CaseMap

Lower case (`lower`). A character beyond ASCII is looked up in `lowercaseRuns`; two letters are not
one character to one character, or not the same everywhere:

* `İ` becomes an `i` and a combining dot;
* a capital sigma becomes the final sigma where a word ends in it, and the plain one elsewhere. A
  word ends there if a letter comes before and none after, both looked for through accents and the
  like.

Capitals (`capitals`) are needed for names in ASCII only. Two letters beyond it, the dotless `ı` and
the long `ſ`, have a capital within it.
-/

namespace DeclScan
namespace Text

/-- The lower case letter of a character that has exactly one. -/
def lowerChar (c : Char) : Char :=
  if 'A' ≤ c && c ≤ 'Z' then Char.ofNat (c.toNat + 32)
  else if c.toNat < 128 then c
  else
    let n := c.toNat
    match lowercaseRuns.find? fun (first, last, _, _) => first ≤ n && n ≤ last with
    | some (first, _, stride, distance) =>
      if (n - first) % stride = 0 then Char.ofNat (n + distance).toNat else c
    | none => c

/-- Characters that casing looks through: they neither have a case nor end a word. -/
def isCaseIgnorable (c : Char) : Bool :=
  c = '\'' || c = '.' || c = ':' || c = '^' || c = '\x60' ||
    (128 ≤ c.toNat && inRanges caseIgnorableRanges c.toNat)

def isCased (c : Char) : Bool :=
  isAsciiLetter c || (128 ≤ c.toNat && inRanges casedRanges c.toNat)

/-- Whether the first character that casing does not look through has a case. -/
def casedNext (s : List Char) : Bool :=
  match s.dropWhile isCaseIgnorable with
  | [] => false
  | c :: _ => isCased c

/-- Lower case of a text; `before` holds the characters already seen, last first. -/
def lowerFrom : List Char → List Char → List Char
  | _, [] => []
  | before, c :: s =>
    let lower :=
      if c = '\u0130' then ['i', '\u0307']
      else if c = '\u03A3' then (if casedNext before && !casedNext s then ['\u03C2'] else ['\u03C3'])
      else [lowerChar c]
    lower ++ lowerFrom (c :: before) s

def lower (s : List Char) : List Char := lowerFrom [] s

/-- The capital letter within ASCII of a letter, if it has one. -/
def capital (c : Char) : Char :=
  if c = '\u0131' then 'I' else if c = '\u017F' then 'S' else c.toUpper

/-- A text in capitals, as far as these are ASCII letters; all else is unchanged. -/
def capitals (s : List Char) : List Char := s.map capital

end Text
end DeclScan
