import DeclScan.Occurrence
import DeclScan.Table

/-!
# DeclScan.Usage

Where names are used. Both analyses are textual: an occurrence of a name anywhere is a use, its
declaration included.

* `crossReference`: for every declared name its first declaration and all its occurrences in a set
  of documents.
* `unusedIn`: the declarations whose name occurs at most once in their own text.
-/

namespace DeclScan
namespace Usage

/-- An occurrence of a name in a file. -/
structure FileReference where
  file : String
  line : Int
  character : Int
  deriving Repr, DecidableEq

/-- A declaration with the occurrences of its name. -/
structure Usages where
  declaration : Variable
  references : List FileReference

/-- Declared names in the order in which they are first met. -/
abbrev CrossReference := Table Usages

def declarations (vars : List Variable) : Table Variable :=
  vars.foldl (fun table v => if table.has v.name then table else table ++ [(v.name, v)]) []

def occurrencesIn (w : WordClass) (name : String) (document : String × List Char) :
    List FileReference :=
  (Occurrence.references document.2 name.toList w 0).map fun r =>
    ⟨document.1, r.line, r.character⟩

/-- For every name declared in some file its first declaration and its occurrences, document by
document. -/
def crossReference (documents : List (String × List Char))
    (variablesByFile : List (String × List Variable)) (w : WordClass) : CrossReference :=
  (declarations (variablesByFile.flatMap Prod.snd)).map fun (name, v) =>
    (name, ⟨v, documents.flatMap (occurrencesIn w name)⟩)

def unused (table : CrossReference) : List Variable :=
  table.filterMap fun (_, u) => if u.references.length ≤ 1 then some u.declaration else none

/-- The declarations whose name occurs at least `threshold` times. -/
def hotspots (table : CrossReference) (threshold : Int) : List Variable :=
  table.filterMap fun (_, u) =>
    if threshold ≤ u.references.length then some u.declaration else none

def reportLines (name : String) (u : Usages) : List String :=
  let uses :=
    match u.references with
    | [] => ["  - No external references found"]
    | references => references.map fun r => s!"  - {r.file}:{r.line}:{r.character}"
  s!"{name} ({u.declaration.declaredAs}, {u.declaration.type}):" :: (uses ++ [""])

def report (table : CrossReference) : String :=
  String.intercalate "\n"
    ("Cross-Reference Analysis:" :: "" :: table.flatMap fun (name, u) => reportLines name u)

/-- A declaration whose name occurs at most once in its text, and how often it does. -/
structure Unused where
  declaration : Variable
  usageCount : Nat
  deriving Repr, DecidableEq

/-- The declarations of a text whose name occurs in it at most once. Functions are left out, since
they are often used from other files. -/
def unusedIn (content : List Char) (vars : List Variable) (w : WordClass) : List Unused :=
  vars.filterMap fun v =>
    if v.isFunction then none
    else
      let n := Occurrence.count content v.name.toList w
      if n ≤ 1 then some ⟨v, n⟩ else none

end Usage
end DeclScan
