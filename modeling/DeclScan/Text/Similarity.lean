/-!
# DeclScan.Text.Similarity

How alike two words are, for suggestions in place of a mistyped one. The longest run of characters
that both words have is taken out, then the longest runs to the left and to the right of it, and so
on; two words are alike if the runs make up at least three fifths of both.
-/

namespace DeclScan
namespace Text

def commonPrefix : List Char → List Char → Nat
  | a :: s, b :: t => if a = b then commonPrefix s t + 1 else 0
  | _, _ => 0

/-- A run that two texts have in common, by the places where it starts. -/
structure CommonRun where
  first : Nat
  second : Nat
  length : Nat

def commonRuns (s t : List Char) : List CommonRun :=
  (List.range s.length).flatMap fun i =>
    (List.range t.length).map fun j => ⟨i, j, commonPrefix (s.drop i) (t.drop j)⟩

def longestRun (s t : List Char) : CommonRun :=
  (commonRuns s t).foldl (fun best run => if best.length < run.length then run else best) ⟨0, 0, 0⟩

/-- The total length of the runs taken out, `fuel` levels deep. -/
def commonLengthFrom : Nat → List Char → List Char → Nat
  | 0, _, _ => 0
  | fuel + 1, s, t =>
    let run := longestRun s t
    if run.length = 0 then 0
    else
      run.length + commonLengthFrom fuel (s.take run.first) (t.take run.second) +
        commonLengthFrom fuel (s.drop (run.first + run.length)) (t.drop (run.second + run.length))

/-- The total length of the runs that two texts have in common. -/
def commonLength (s t : List Char) : Nat := commonLengthFrom (s.length + 1) s t

/-- How alike a word is to another: the part of both that is common to them is
`common / total`. -/
structure Similarity where
  word : String
  common : Nat
  total : Nat

namespace Similarity

def ofWords (candidate word : String) : Similarity :=
  ⟨candidate, 2 * commonLength candidate.toList word.toList, candidate.length + word.length⟩

def isClose (s : Similarity) : Bool := 3 * s.total ≤ 5 * s.common

/-- Whether a candidate comes before another: the more alike one, or of two equally alike the one
later in the alphabet. -/
def comesBefore (a b : Similarity) : Bool :=
  b.common * a.total < a.common * b.total ||
    (a.common * b.total = b.common * a.total && !(a.word < b.word))

end Similarity

def suggestionLimit : Nat := 3

/-- The candidates that are most like a word, in the order of the alphabet. -/
def closeWords (word : String) (candidates : List String) : List String :=
  let close := (candidates.map fun c => Similarity.ofWords c word).filter Similarity.isClose
  ((close.mergeSort Similarity.comesBefore).take suggestionLimit).map Similarity.word
    |>.mergeSort fun a b => !(b < a)

end Text
end DeclScan
