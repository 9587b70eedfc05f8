import DeclScan.Text.Basic
import DeclScan.Text.CaseMap

/-!
# DeclScan.Path

Paths as texts, with `/` between their parts. Empty parts and single dots mean nothing; a leading
slash is a part of its own, and so are two. Nothing here looks at files.

* `Path.parts`, `Path.name`, `Path.parent`: a path taken apart.
* `Path.suffix`: the extension of a name, with its dot.
* `Path.resolve`: a path without dots, as seen from the working directory.
-/

namespace DeclScan
namespace Path

open Text

/-- The slashes that make a path absolute: two stay two, any other number is one. -/
def anchor (path : String) : List String :=
  match path.toList with
  | '/' :: '/' :: '/' :: _ => ["/"]
  | '/' :: '/' :: _ => ["//"]
  | '/' :: _ => ["/"]
  | _ => []

/-- The names between the slashes, without empty ones and single dots. -/
def names (path : String) : List String :=
  ((splitOn '/' path.toList).map String.ofList).filter fun s => s ≠ "" && s ≠ "."

def parts (path : String) : List String := anchor path ++ names path

def name (path : String) : String := (names path).getLast?.getD ""

def parentParts (path : String) : List String := anchor path ++ (names path).dropLast

/-- Puts an anchor and names together; nothing at all is the current directory. -/
def ofParts (anchor names : List String) : String :=
  match anchor ++ names with
  | [] => "."
  | _ => String.join anchor ++ String.intercalate "/" names

def normalize (path : String) : String := ofParts (anchor path) (names path)

def parent (path : String) : String := ofParts (anchor path) (names path).dropLast

/-- The extension of a name: from its last dot on, unless the dot is its first or last
character. -/
def nameSuffix (name : List Char) : List Char :=
  let extension := name.reverse.takeWhile (· ≠ '.')
  let stem := (name.reverse.dropWhile (· ≠ '.')).drop 1
  if extension = [] || stem = [] then [] else '.' :: extension.reverse

def suffix (path : String) : String := String.ofList (nameSuffix (name path).toList)

def lower (s : String) : String := String.ofList (Text.lower s.toList)

def join (directory name : String) : String :=
  if directory = "" || directory.endsWith "/" then directory ++ name
  else directory ++ "/" ++ name

/-- A path without dots: absolute, or so many steps up from the working directory, and names. -/
structure Resolved where
  isAbsolute : Bool
  up : Nat
  names : List String
  deriving Repr, DecidableEq

/-- Goes from a resolved directory to a name in it, or up. -/
def Resolved.step (r : Resolved) (name : String) : Resolved :=
  if name = ".." then
    match r.names with
    | [] => if r.isAbsolute then r else { r with up := r.up + 1 }
    | _ => { r with names := r.names.dropLast }
  else { r with names := r.names ++ [name] }

def resolve (path : String) : Resolved :=
  (names path).foldl Resolved.step ⟨anchor path ≠ [], 0, []⟩

/-- The names that lead from `root` to a path below it. -/
def Resolved.below? (root path : Resolved) : Option (List String) :=
  if root.isAbsolute = path.isAbsolute && root.up = path.up && root.names.isPrefixOf path.names then
    some (path.names.drop root.names.length)
  else none

end Path
end DeclScan
