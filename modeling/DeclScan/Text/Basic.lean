import DeclScan.Text.CharClass

/-!
# DeclScan.Text.Basic

Text as a list of characters, and the few operations on it that every extractor uses: trimming,
cutting at a separator, matching a literal at the front, and looking for one text inside another.

`splitOn` keeps everything but the separators, so `joinWith` puts the pieces back together.
-/

namespace DeclScan
namespace Text

def trimStart (s : List Char) : List Char := s.dropWhile isBlank

def trimEnd (s : List Char) : List Char := (s.reverse.dropWhile isBlank).reverse

def trim (s : List Char) : List Char := trimEnd (trimStart s)

/-- The characters at both ends that satisfy `p` are dropped. -/
def trimMatches (p : Char → Bool) (s : List Char) : List Char :=
  ((s.dropWhile p).reverse.dropWhile p).reverse

/-- Cuts `s` at every separator; `piece` holds the characters of the current piece, last first. -/
def splitFrom (sep : Char) : List Char → List Char → List (List Char)
  | piece, [] => [piece.reverse]
  | piece, c :: s =>
    if c = sep then piece.reverse :: splitFrom sep [] s else splitFrom sep (c :: piece) s

/-- The pieces of a text between the separators: one more than there are separators. -/
def splitOn (sep : Char) (s : List Char) : List (List Char) := splitFrom sep [] s

/-- The lines of a text; `line` holds the characters of the current one, last first. -/
def linesFrom : List Char → List Char → List (List Char)
  | line, [] => if line = [] then [] else [line.reverse]
  | line, '\r' :: '\n' :: s => line.reverse :: linesFrom [] s
  | line, c :: s => if isLineEnd c then line.reverse :: linesFrom [] s else linesFrom (c :: line) s

/-- The lines of a text, whatever ends them. A line end is needed only between two of them. -/
def lines (s : List Char) : List (List Char) := linesFrom [] s

/-- Puts pieces back together with a separator between them. -/
def joinWith (sep : Char) : List (List Char) → List Char
  | [] => []
  | [piece] => piece
  | piece :: rest => piece ++ sep :: joinWith sep rest

/-- The text after `literal`, if the text starts with it. -/
def dropLiteral : List Char → List Char → Option (List Char)
  | [], s => some s
  | _ :: _, [] => none
  | p :: ps, c :: s => if p = c then dropLiteral ps s else none

/-- The text after one or more blanks, if it starts with a blank. -/
def dropBlanks? : List Char → Option (List Char)
  | [] => none
  | c :: s => if isBlank c then some (trimStart s) else none

def startsWith (literal s : List Char) : Bool := (dropLiteral literal s).isSome

def endsWith (literal s : List Char) : Bool := startsWith literal.reverse s.reverse

/-- The text before the first occurrence of `literal` and the text from it on. -/
def splitBefore? (literal : List Char) : List Char → Option (List Char × List Char)
  | [] => if literal = [] then some ([], []) else none
  | c :: s =>
    if startsWith literal (c :: s) then some ([], c :: s)
    else (splitBefore? literal s).map fun (before, rest) => (c :: before, rest)

/-- The offset of the first occurrence of `literal`, counted from `start`. -/
def offsetOf? (literal : List Char) (start : Nat) : List Char → Option Nat
  | [] => if literal = [] then some start else none
  | c :: s =>
    if startsWith literal (c :: s) then some start else offsetOf? literal (start + 1) s

/-- The offset of the first occurrence of `literal` at or after the offset `start`. -/
def findFrom? (literal s : List Char) (start : Nat) : Option Nat :=
  offsetOf? literal start (s.drop start)

/-- The text from an offset on. An offset below zero counts from the end. -/
def fromOffset (offset : Int) (s : List Char) : List Char :=
  if offset < 0 then s.drop (s.length - offset.natAbs) else s.drop offset.toNat

def contains (literal s : List Char) : Bool := (offsetOf? literal 0 s).isSome

/-- The name at the front of a text: a letter or underscore, then letters, digits and
underscores. -/
def takeName? : List Char → Option (List Char × List Char)
  | [] => none
  | c :: s => if isNameStart c then some (c :: s.takeWhile isNameRest, s.dropWhile isNameRest) else none

/-! ## What cutting and matching keep -/

theorem splitFrom_ne_nil (sep : Char) (piece s : List Char) : splitFrom sep piece s ≠ [] := by
  induction s generalizing piece with
  | nil => simp [splitFrom]
  | cons c s ih =>
    rw [splitFrom]
    split
    · simp
    · exact ih (c :: piece)

theorem joinWith_splitFrom (sep : Char) (piece s : List Char) :
    joinWith sep (splitFrom sep piece s) = piece.reverse ++ s := by
  induction s generalizing piece with
  | nil => simp [splitFrom, joinWith]
  | cons c s ih =>
    rw [splitFrom]
    split
    · rename_i h
      cases hs : splitFrom sep [] s with
      | nil => exact absurd hs (splitFrom_ne_nil sep [] s)
      | cons first rest =>
        have := ih []
        rw [hs] at this
        simp [joinWith, this, h]
    · rw [ih (c :: piece)]
      simp

/-- Nothing but the separators is lost. -/
theorem joinWith_splitOn (sep : Char) (s : List Char) : joinWith sep (splitOn sep s) = s :=
  joinWith_splitFrom sep [] s

theorem splitOn_ne_nil (sep : Char) (s : List Char) : splitOn sep s ≠ [] :=
  splitFrom_ne_nil sep [] s

theorem splitFrom_append (sep : Char) (piece s t : List Char) :
    splitFrom sep piece (s ++ sep :: t) = splitFrom sep piece s ++ splitOn sep t := by
  induction s generalizing piece with
  | nil => simp [splitFrom, splitOn]
  | cons c s ih =>
    simp only [List.cons_append, splitFrom]
    split
    · rw [ih, List.cons_append]
    · exact ih (c :: piece)

theorem splitOn_append (sep : Char) (s t : List Char) :
    splitOn sep (s ++ sep :: t) = splitOn sep s ++ splitOn sep t :=
  splitFrom_append sep [] s t

theorem splitFrom_of_not_mem {sep : Char} {s : List Char} (h : sep ∉ s) (piece : List Char) :
    splitFrom sep piece s = [piece.reverse ++ s] := by
  induction s generalizing piece with
  | nil => simp [splitFrom]
  | cons c s ih =>
    rw [List.mem_cons, not_or] at h
    rw [splitFrom, if_neg (Ne.symm h.1), ih h.2]
    simp

theorem splitOn_of_not_mem {sep : Char} {s : List Char} (h : sep ∉ s) : splitOn sep s = [s] :=
  splitFrom_of_not_mem h []

theorem not_mem_of_mem_splitFrom {sep : Char} {piece s line : List Char}
    (h : line ∈ splitFrom sep piece s) (hpiece : sep ∉ piece) : sep ∉ line := by
  induction s generalizing piece with
  | nil =>
    obtain rfl : line = piece.reverse := by simpa [splitFrom] using h
    simpa using hpiece
  | cons c s ih =>
    rw [splitFrom] at h
    split at h
    · rcases List.mem_cons.1 h with rfl | hrest
      · simpa using hpiece
      · exact ih hrest List.not_mem_nil
    · rename_i hc
      exact ih h (by simp [hpiece, Ne.symm hc])

/-- No piece of a text that was cut holds a separator. -/
theorem not_mem_of_mem_splitOn {sep : Char} {s line : List Char} (h : line ∈ splitOn sep s) :
    sep ∉ line :=
  not_mem_of_mem_splitFrom h List.not_mem_nil

/-- Pieces without separators come back when they are put together and cut. -/
theorem splitOn_joinWith {sep : Char} {pieces : List (List Char)} (hne : pieces ≠ [])
    (h : ∀ piece ∈ pieces, sep ∉ piece) : splitOn sep (joinWith sep pieces) = pieces := by
  induction pieces with
  | nil => exact absurd rfl hne
  | cons piece pieces ih =>
    rw [List.forall_mem_cons] at h
    cases pieces with
    | nil => exact splitOn_of_not_mem h.1
    | cons next rest =>
      rw [joinWith, splitOn_append, splitOn_of_not_mem h.1, ih (List.cons_ne_nil _ _) h.2]
      · rfl
      · exact fun hnil => nomatch hnil

theorem dropLiteral_append (literal rest : List Char) :
    dropLiteral literal (literal ++ rest) = some rest := by
  induction literal with
  | nil => rfl
  | cons p ps ih => simpa [dropLiteral] using ih

theorem eq_append_of_dropLiteral {literal s rest : List Char}
    (h : dropLiteral literal s = some rest) : s = literal ++ rest := by
  induction literal generalizing s with
  | nil => simpa [dropLiteral] using h
  | cons p ps ih =>
    cases s with
    | nil => simp [dropLiteral] at h
    | cons c s =>
      rw [dropLiteral] at h
      split at h
      · rename_i e
        rw [ih h, e, List.cons_append]
      · cases h

theorem dropLiteral_eq_some_iff {literal s rest : List Char} :
    dropLiteral literal s = some rest ↔ s = literal ++ rest :=
  ⟨eq_append_of_dropLiteral, fun h => h ▸ dropLiteral_append literal rest⟩

theorem eq_append_of_takeName? {s name rest : List Char} (h : takeName? s = some (name, rest)) :
    s = name ++ rest := by
  cases s with
  | nil => cases h
  | cons c s =>
    rw [takeName?] at h
    split at h
    · cases h
      simp
    · cases h

end Text
end DeclScan
