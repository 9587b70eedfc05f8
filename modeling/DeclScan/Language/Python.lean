import DeclScan.Text.Document
import DeclScan.Text.Search
import DeclScan.Variable

/-!
# DeclScan.Language.Python

Declarations and imports of Python sources. A source is read line by line; a line is tried for
assignments, function parameters, attributes of `self`, loop variables, and `global` and
`nonlocal` declarations, in this order. Imports that span lines are seen up to the end of the line.

* `splitParameters`: cuts a parameter list at the commas outside brackets.
* `lineBindings`: the names a line binds, with their values and columns.
* `lineImports`: the imports of a line.
-/

namespace DeclScan
namespace Python

open Text

/-! ## Type inference -/

/-- Whether a text has at least two characters, the first and last of them as given. -/
def isEnclosed (first last : Char) (s : List Char) : Bool :=
  match s with
  | c :: d :: r => c = first && (d :: r).getLast? = some last
  | _ => false

def inferType (value : List Char) : String :=
  let v := trim value
  if isEnclosed '"' '"' v || isEnclosed '\'' '\'' v then "str"
  else if v ≠ [] && v.all isDigit then "int"
  else if (match v.dropWhile isDigit with
      | '.' :: r => r ≠ [] && r.all isDigit
      | _ => false) then "float"
  else if v = "True".toList || v = "False".toList then "bool"
  else if isEnclosed '[' ']' v then "list"
  else if isEnclosed '\x7b' '\x7d' v then "dict"
  else if isEnclosed '(' ')' v then "tuple"
  else "Any"

/-! ## Bindings -/

/-- A name bound on a line: its value, as far as the line tells, and its column. -/
structure Binding where
  name : List Char
  value : List Char
  column : Nat
  deriving Repr, DecidableEq

/-- What is left of a line after optional blanks: the text after them, or, when they end the line,
its last blank. A line that ends at once leaves nothing. -/
def restOfLine? (s : List Char) : Option (List Char) :=
  match trimStart s with
  | c :: r => some (c :: r)
  | [] => s.getLast?.map fun c => [c]

/-- As `restOfLine?`, after at least one blank that is not part of what is left. -/
def restAfterBlank? : List Char → Option (List Char)
  | [] => none
  | c :: s => if isBlank c then restOfLine? s else none

/-- A plain assignment to a name at the start of the line. -/
def assignment? (line : List Char) : Option Binding :=
  match takeName? (trimStart line) with
  | none => none
  | some (name, r) =>
    match trimStart r with
    | '=' :: '=' :: _ => none
    | '=' :: r =>
      (restOfLine? r).map fun value => ⟨name, value, line.length - (trimStart line).length⟩
    | _ => none

/-- Cuts a parameter list at the commas where as many brackets are open as are closed; `part` holds
the characters of the current part, last first, and `depth` the brackets open less those
closed. -/
def splitParametersFrom (depth : Int) : List Char → List Char → List (List Char)
  | part, [] => [part.reverse]
  | part, c :: s =>
    let depth :=
      if c = '(' || c = '[' || c = '\x7b' then depth + 1
      else if c = ')' || c = ']' || c = '\x7d' then depth - 1
      else depth
    if c = ',' && depth = 0 then part.reverse :: splitParametersFrom depth [] s
    else splitParametersFrom depth (c :: part) s

/-- The parts of a parameter list between its top-level commas. -/
def splitParameters (s : List Char) : List (List Char) := splitParametersFrom 0 [] s

/-- Whether the text after a parameter list ends a signature: an optional result annotation that
is not empty, and a colon. -/
def endsSignature (s : List Char) : Bool :=
  match trimStart s with
  | ':' :: _ => true
  | '-' :: '>' :: r => r.takeWhile (· ≠ ':') ≠ [] && (r.dropWhile (· ≠ ':')) ≠ []
  | _ => false

/-- The text up to the last closing parenthesis that ends a signature; the accumulator holds the
characters seen so far, last first. -/
def parametersUpTo? : List Char → List Char → Option (List Char)
  | _, [] => none
  | seen, c :: s =>
    match parametersUpTo? (c :: seen) s with
    | some parameters => some parameters
    | none => if c = ')' && endsSignature s then some seen.reverse else none

/-- A signature: the text between the parentheses and where it starts behind `def`. -/
structure Signature where
  parameters : List Char
  lead : Nat

/-- Recognises `def`, a name, a parameter list and the colon that ends the signature. -/
def signature : Recogniser Signature := fun _ s =>
  let opened := (((dropLiteral "def".toList s).bind dropBlanks?).bind takeName?).bind
    fun (_, r) => dropLiteral ['('] (trimStart r)
  match opened with
  | none => none
  | some r =>
    (parametersUpTo? [] r).map fun parameters =>
      let lead := s.length - r.length
      (⟨parameters, lead⟩, lead + parameters.length)

/-- The name of a parameter, without the stars in front. -/
def parameterName? (part : List Char) : Option (List Char) :=
  let p := trim part
  let p := match p with
    | '*' :: '*' :: r => r
    | '*' :: r => r
    | r => r
  (takeName? (trimStart p)).map Prod.fst

/-- The parameters of the parts of a list that starts at a column of the line. A parameter is
looked for from the start of its part on. -/
def parameterBindings (line : List Char) : Nat → List (List Char) → List Binding
  | _, [] => []
  | offset, part :: parts =>
    let rest := parameterBindings line (offset + part.length + 1) parts
    match parameterName? part with
    | none => rest
    | some name =>
      if name = "self".toList || name = "cls".toList then rest
      else ⟨name, "function".toList, (findFrom? name line offset).getD 0⟩ :: rest

def parametersOf (line : List Char) : List Binding :=
  match Search.first? signature line with
  | none => []
  | some found =>
    parameterBindings line (found.offset + found.value.lead)
      (splitParameters found.value.parameters)

/-- A name found behind the start of what introduces it. -/
structure Introduced where
  name : List Char
  value : List Char
  lead : Nat

/-- Recognises an assignment to an attribute of `self`, up to the end of the line. -/
def selfAttribute : Recogniser Introduced := fun _ s =>
  match (dropLiteral "self.".toList s).bind takeName? with
  | none => none
  | some (name, r) =>
    match trimStart r with
    | '=' :: r => (restOfLine? r).map fun value => (⟨name, value, 5⟩, s.length)
    | _ => none

/-- The length of a text up to and with its last colon, 0 without one. -/
def lengthToLastColon (s : List Char) : Nat := (s.reverse.dropWhile (· ≠ ':')).length

/-- Recognises the head of a loop: `for`, a name, `in`, and a text that ends with the last colon
of the line. -/
def loopHead : Recogniser Introduced := fun _ s =>
  let named := ((dropLiteral "for".toList s).bind dropBlanks?).bind fun r =>
    (takeName? r).map fun (name, after) => (name, s.length - r.length, after)
  match named with
  | none => none
  | some (name, lead, after) =>
    match (dropBlanks? after).bind (dropLiteral "in".toList) with
    | none => none
    | some r =>
      let length := lengthToLastColon r
      if r.head?.any isBlank && 3 ≤ length then
        some (⟨name, "loop variable".toList, lead⟩, s.length - r.length + length)
      else none

/-- Recognises a keyword as a whole word, white space and a name. -/
def keywordName (keyword value : String) : Recogniser Introduced := fun before s =>
  if before.any isWord then none
  else
    match (dropLiteral keyword.toList s).bind dropBlanks? with
    | none => none
    | some r =>
      (takeName? r).map fun (name, _) =>
        let lead := s.length - r.length
        (⟨name, value.toList, lead⟩, lead + name.length)

def bindingsOf (m : Recogniser Introduced) (line : List Char) : List Binding :=
  (Search.all m line).map fun found =>
    ⟨found.value.name, found.value.value, found.offset + found.value.lead⟩

def lineBindings (line : List Char) : List Binding :=
  (assignment? line).toList ++ parametersOf line ++ bindingsOf selfAttribute line ++
    bindingsOf loopHead line ++ bindingsOf (keywordName "global" "global") line ++
    bindingsOf (keywordName "nonlocal" "nonlocal") line

def Binding.toVariable (filePath : String) (line : Nat) (b : Binding) : Variable :=
  { name := String.ofList b.name
    type := inferType b.value
    declaredAs := "python-variable"
    line := line
    character := b.column
    filePath := filePath
    scope := "unknown"
    value := some (String.ofList b.value)
    references := [] }

/-- The variables of lines that start with the 1-based line `n`. -/
def variablesFrom (filePath : String) : Nat → List (List Char) → List Variable
  | _, [] => []
  | n, line :: lines =>
    (lineBindings line).map (·.toVariable filePath n) ++ variablesFrom filePath (n + 1) lines

def extract (content : List Char) (filePath : String) : List Variable :=
  variablesFrom filePath 1 (splitOn '\n' content)

/-! ## Imports -/

/-- The text after white space, `as` and white space, if `s` starts with these. -/
def dropAs? (s : List Char) : Option (List Char) :=
  ((dropBlanks? s).bind (dropLiteral "as".toList)).bind dropBlanks?

/-- The text before the first `as` and the text after it. -/
def splitAs (seen : List Char) : List Char → List Char × Option (List Char)
  | [] => (seen.reverse, none)
  | c :: s =>
    match dropAs? (c :: s) with
    | some rest => (seen.reverse, some rest)
    | none => splitAs (c :: seen) s

/-- The name of an imported item and the name it is known by. -/
def itemNames (item : List Char) : List Char × List Char :=
  let (first, rest?) := splitAs [] (trim item)
  let name := trim first
  match rest? with
  | none => (name, name)
  | some rest => (name, trim (splitAs [] rest).1)

def itemImport? (kind : ImportKind) (line : Nat) (path : List Char → List Char)
    (column : List Char → Option Nat) (item : List Char) : Option Import :=
  let (name, localName) := itemNames item
  if name = [] then none
  else
    some
      { name := String.ofList localName
        path := String.ofList (path name)
        line := line
        character := match column name with
          | some c => c
          | none => -1
        kind := kind }

/-- What an `import` line imports: the text after the keyword. -/
def importTargets? (line : List Char) : Option (List Char) :=
  (dropLiteral "import".toList (trimStart line)).bind restAfterBlank?

/-- The module of a `from` line and the text of the items it imports. -/
def fromTargets? (line : List Char) : Option (List Char × List Char) :=
  match (dropLiteral "from".toList (trimStart line)).bind dropBlanks? with
  | none => none
  | some r =>
    let module := r.takeWhile fun c => !isBlank c
    let after := r.dropWhile fun c => !isBlank c
    if module = [] then none
    else
      (((dropBlanks? after).bind (dropLiteral "import".toList)).bind restAfterBlank?).map
        fun items => (module, items)

def lineImports (n : Nat) (line : List Char) : List Import :=
  let plain :=
    match importTargets? line with
    | none => []
    | some targets =>
      (splitOn ',' targets).filterMap
        (itemImport? .importStatement n id fun name => findFrom? name line 0)
  let fromItems :=
    match fromTargets? line with
    | none => []
    | some (module, items) =>
      let start := line.length - items.length
      (splitOn ',' (trimMatches (fun c => c = '(' || c = ')') (trim items))).filterMap
        (itemImport? .fromStatement n (fun name => module ++ '.' :: name) fun name =>
          findFrom? name line start)
  plain ++ fromItems

/-- The imports of lines that start with the 1-based line `n`. -/
def importsFrom : Nat → List (List Char) → List Import
  | _, [] => []
  | n, line :: lines => lineImports n line ++ importsFrom (n + 1) lines

def imports (content : List Char) : List Import := importsFrom 1 (splitOn '\n' content)

end Python
end DeclScan
