import DeclScan.Console.CommandLine
import DeclScan.Console.Run
import DeclScan.Settings.Standard

/-!
# DeclScan.Console.Standard

The libraries that runs of the program are put together with, and what takes control sequences out of
texts for them.
-/

namespace DeclScan
namespace ControlFilter

/-- The characters of the parameters of a control sequence. -/
def isParameter (c : Char) : Bool := '0' ≤ c && c ≤ '?'

/-- The characters between the parameters of a control sequence and its end. -/
def isIntermediate (c : Char) : Bool := ' ' ≤ c && c ≤ '/'

def isFinal (c : Char) : Bool := '@' ≤ c && c ≤ '~'

/-- The text after a control sequence, from behind its escape character: a bracket, parameters,
intermediate characters and a final one. -/
def dropControl? : List Char → Option (List Char)
  | '[' :: s =>
    match (s.dropWhile isParameter).dropWhile isIntermediate with
    | c :: rest => if isFinal c then some rest else none
    | [] => none
  | _ => none

/-- A text without control sequences, read up to `fuel` characters. -/
def stripFrom : Nat → List Char → List Char
  | 0, s => s
  | _, [] => []
  | fuel + 1, c :: s =>
    if c = escapeChar then
      match dropControl? s with
      | some rest => stripFrom fuel rest
      | none => c :: stripFrom fuel s
    else c :: stripFrom fuel s

theorem stripFrom_of_not_mem {s : List Char} (h : escapeChar ∉ s) (fuel : Nat) :
    stripFrom fuel s = s := by
  induction s generalizing fuel with
  | nil => cases fuel <;> rfl
  | cons c s ih =>
    rw [List.mem_cons, not_or] at h
    cases fuel with
    | zero => rfl
    | succ fuel => rw [stripFrom, if_neg (Ne.symm h.1), ih h.2]

def standard : ControlFilter where
  strip s := String.ofList (stripFrom s.length s.toList)
  strip_of_not_mem s h := by rw [stripFrom_of_not_mem h, String.ofList_toList]

end ControlFilter

namespace Run

def Libraries.standard {τ : Type} : Libraries String YamlNode τ where
  settings := Settings.Libraries.standard
  invocation store words := (Invocation.read store words).mapError UsageError.text
  command store name words := (Command.read store name words).mapError UsageError.text
  filter := ControlFilter.standard

end Run
end DeclScan
