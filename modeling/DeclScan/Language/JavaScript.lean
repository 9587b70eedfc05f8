import DeclScan.Text.Document
import DeclScan.Text.Search
import DeclScan.Variable

/-!
# DeclScan.Language.JavaScript

Declarations and imports of JavaScript and TypeScript sources.

* `scan`: the `const`, `let` and `var` declarations that start a statement, grouped by keyword,
  each group in text order.
* `inferType`: the label of the initialiser that follows a declared name. It looks at the
  declaration's own statement only.
* `imports`: module imports and `require` calls whose path ends in `.js`.
-/

namespace DeclScan
namespace JavaScript

open Text

def isIdentStart (c : Char) : Bool := isNameStart c || c = '$'

def isIdentRest (c : Char) : Bool := isNameRest c || c = '$'

/-- The identifier at the front of a text and the text after it. -/
def takeIdent? : List Char → Option (List Char × List Char)
  | [] => none
  | c :: s =>
    if isIdentStart c then some (c :: s.takeWhile isIdentRest, s.dropWhile isIdentRest) else none

/-! ## Type inference -/

/-- Whether a text is a decimal number: digits with an optional point, or a point and digits, and
an optional exponent. -/
def isDecimalNumber (s : List Char) : Bool :=
  let whole := s.takeWhile isDigit
  let afterWhole := s.dropWhile isDigit
  let exponent : List Char → Bool := fun r =>
    match r with
    | [] => true
    | c :: r =>
      (c = 'e' || c = 'E') &&
        (let digits := match r with
          | '+' :: t => t
          | '-' :: t => t
          | t => t
         digits ≠ [] && digits.all isDigit)
  match whole, afterWhole with
  | _ :: _, '.' :: r => exponent (r.dropWhile isDigit)
  | _ :: _, r => exponent r
  | [], '.' :: r => r.takeWhile isDigit ≠ [] && exponent (r.dropWhile isDigit)
  | [], _ => false

def isHexDigit (c : Char) : Bool :=
  isAsciiDigit c || ('a' ≤ c && c ≤ 'f') || ('A' ≤ c && c ≤ 'F')

/-- Whether a text is a number literal: an optional sign, then a hexadecimal, binary, octal or
decimal number. -/
def isNumber (s : List Char) : Bool :=
  let digits := match s with
    | '+' :: t => t
    | '-' :: t => t
    | t => t
  (match digits with
    | '0' :: mark :: r =>
      r ≠ [] &&
        (((mark = 'x' || mark = 'X') && r.all isHexDigit) ||
          ((mark = 'b' || mark = 'B') && r.all fun c => c = '0' || c = '1') ||
          ((mark = 'o' || mark = 'O') && r.all fun c => '0' ≤ c && c ≤ '7'))
    | _ => false) || isDecimalNumber digits

def beforeComment (s : List Char) : List Char :=
  match splitBefore? ['/', '/'] s with
  | some (before, _) => trim before
  | none => s

def labelOf (sample : List Char) : String :=
  let starts (s : String) : Bool := startsWith s.toList sample
  if starts "\"" || starts "'" || starts "\x60" then "string"
  else if starts "[" then "array"
  else if starts "\x7b" then "object"
  else if sample = "true".toList || sample = "false".toList then "boolean"
  else if sample = "null".toList then "null"
  else if sample = "undefined".toList then "undefined"
  else if isNumber sample then "number"
  else if starts "function" || starts "(" || contains ['=', '>'] sample then "function"
  else if starts "new " then
    match ((dropLiteral "new".toList sample).bind dropBlanks?).bind takeIdent? with
    | some (name, _) => String.ofList name
    | none => "instance"
  else "unknown"

/-- The end of a statement, as far as inference is concerned. -/
def endsStatement (c : Char) : Bool := c = ';' || c = '\n'

/-- The label for the text that follows a declared name. A statement that ends before the equals
sign has no initialiser. -/
def inferType (tail : List Char) : String :=
  let between := tail.takeWhile (· ≠ '=')
  match tail.dropWhile (· ≠ '=') with
  | [] => "unknown"
  | _ :: after =>
    if between.any endsStatement then "unknown"
    else labelOf (beforeComment (trim (after.takeWhile fun c => !endsStatement c)))

def inferTypeAt (text : List Char) (start : Int) : String := inferType (fromOffset start text)

/-! ## Declarations -/

/-- The declaring keywords, in the order of the result. -/
inductive Keyword where
  | const
  | let_
  | var
  deriving Repr, DecidableEq, Inhabited

def Keyword.text : Keyword → String
  | .const => "const"
  | .let_ => "let"
  | .var => "var"

/-- A keyword with the identifier after it: how far behind the start of the keyword the identifier
begins, and the text that follows it. -/
structure Declarator where
  before : Option Char
  name : List Char
  lead : Nat
  tail : List Char

/-- Recognises a keyword that no word character precedes, white space, and an identifier. -/
def declarator (keyword : List Char) : Recogniser Declarator := fun before s =>
  if before.any isWord then none
  else
    match (dropLiteral keyword s).bind dropBlanks? with
    | none => none
    | some rest =>
      match takeIdent? rest with
      | none => none
      | some (name, tail) =>
        let lead := s.length - rest.length
        some (⟨before, name, lead, tail⟩, lead + name.length)

/-- A declaration counts only at the start of the text or after one of these. -/
def startsStatement : Option Char → Bool
  | none => true
  | some c => c = ' ' || c = '\n' || c = '\t' || c = '\r' || c = ';' || c = '\x7b'

/-- A declaration with its 0-based position. -/
structure Scanned where
  name : String
  keyword : Keyword
  type : String
  position : Position

/-- The declarations made with one keyword, in text order. -/
def scanKeyword (d : Document) (k : Keyword) : List Scanned :=
  (Search.all (declarator k.text.toList) d.text).filterMap fun found =>
    if startsStatement found.value.before then
      some
        { name := String.ofList found.value.name
          keyword := k
          type := inferType found.value.tail
          position := d.positionAt (found.offset + found.value.lead : Nat) }
    else none

/-- The declarations of a document: all `const`, then all `let`, then all `var`. -/
def scan (d : Document) : List Scanned :=
  [Keyword.const, .let_, .var].flatMap (scanKeyword d)

def extract (content : List Char) (filePath : String) : List Variable :=
  (scan (Document.ofText content filePath)).map fun s =>
    { name := s.name
      type := s.type
      declaredAs := s.keyword.text
      line := s.position.line + 1
      character := s.position.character
      filePath := filePath
      scope := "unknown"
      value := none
      references := [] }

/-! ## Imports -/

def isQuote (c : Char) : Bool := c = '"' || c = '\''

def dropQuote? : List Char → Option (List Char)
  | [] => none
  | c :: s => if isQuote c then some s else none

/-- The shortest path that starts here, lies on one line, ends in `.js` and is followed by a text
that `close` accepts; with it the text after what `close` took. `path` holds the characters of the
path so far, last first. -/
def scriptPath? (close : List Char → Option (List Char)) :
    List Char → List Char → Option (List Char × List Char)
  | _, [] => none
  | path, c :: s =>
    match (dropLiteral ['.', 'j', 's'] (c :: s)).bind close with
    | some rest => some (path.reverse ++ ['.', 'j', 's'], rest)
    | none => if c = '\n' then none else scriptPath? close (c :: path) s

/-- The text after what an import statement names, white space, `from` and white space: either
names in braces or one word. -/
def dropImportClause? (s : List Char) : Option (List Char) :=
  let afterNames : Option (List Char) :=
    match s with
    | '\x7b' :: r =>
      match r.takeWhile (· ≠ '\x7d'), r.dropWhile (· ≠ '\x7d') with
      | _ :: _, _ :: rest => some rest
      | _, _ => none
    | r => if r.takeWhile isWord = [] then none else some (r.dropWhile isWord)
  ((afterNames.bind dropBlanks?).bind (dropLiteral "from".toList)).bind dropBlanks?

/-- Recognises `import`, an optional clause, and a quoted script path. -/
def importStatement : Recogniser (List Char) := fun _ s =>
  match (dropLiteral "import".toList s).bind dropBlanks? with
  | none => none
  | some r =>
    let target := (dropImportClause? r).getD r
    ((dropQuote? target).bind (scriptPath? dropQuote? [])).map fun (path, rest) =>
      (path, s.length - rest.length)

/-- The text after a quote, white space and a closing parenthesis. -/
def dropCallEnd? (s : List Char) : Option (List Char) :=
  (dropQuote? s).bind fun r => dropLiteral [')'] (trimStart r)

/-- Recognises a call of `require` with a quoted script path. -/
def requireCall : Recogniser (List Char) := fun _ s =>
  let argument := (dropLiteral "require".toList s).bind fun r =>
    (dropLiteral ['('] (trimStart r)).bind fun r => dropQuote? (trimStart r)
  (argument.bind (scriptPath? dropCallEnd? [])).map fun (path, rest) =>
    (path, s.length - rest.length)

def importsOf (d : Document) (m : Recogniser (List Char)) (kind : ImportKind) : List Import :=
  (Search.all m d.text).map fun found =>
    let position := d.positionAt found.offset
    { name := String.ofList found.value
      path := String.ofList found.value
      line := position.line + 1
      character := position.character
      kind := kind }

/-- The imports of a source: import statements, then `require` calls. -/
def imports (content : List Char) : List Import :=
  let d := Document.ofText content ""
  importsOf d importStatement .importStatement ++ importsOf d requireCall .requireCall

end JavaScript
end DeclScan
