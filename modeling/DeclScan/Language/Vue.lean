import DeclScan.Language.JavaScript
import DeclScan.Occurrence

/-!
# DeclScan.Language.Vue

Single-file components. The first `<script>` block is read as JavaScript, the first `<template>`
block line by line for names in directives and interpolations. All positions are positions of the
whole file: `Block.toFile` moves them from the block.
-/

namespace DeclScan
namespace Vue

open Text

/-! ## Blocks -/

/-- The small ASCII letter that a character stands for when case is ignored. Case folding takes
the long s, the dotted and dotless i and the Kelvin sign to ASCII letters. -/
def foldCase (c : Char) : Char :=
  if 'A' ≤ c && c ≤ 'Z' then Char.ofNat (c.toNat + 32)
  else if c = '\u017F' then 's'
  else if c = '\u0130' || c = '\u0131' then 'i'
  else if c = '\u212A' then 'k'
  else c

/-- The text after `literal`, which is in small letters, if the text starts with it in letters of
any case. -/
def dropIgnoringCase : List Char → List Char → Option (List Char)
  | [], s => some s
  | _ :: _, [] => none
  | p :: ps, c :: s => if p = foldCase c then dropIgnoringCase ps s else none

/-- The text before the first closing tag; the accumulator holds the characters seen so far, last
first. -/
def bodyUpTo? (close : List Char) : List Char → List Char → Option (List Char)
  | _, [] => none
  | seen, c :: s =>
    if (dropIgnoringCase close (c :: s)).isSome then some seen.reverse
    else bodyUpTo? close (c :: seen) s

/-- Recognises a block: an opening tag with any attributes, a body and the closing tag. The answer
is the body and how far behind the opening tag it starts. -/
def block (tag : String) : Recogniser (List Char × Nat) := fun _ s =>
  let close := '<' :: '/' :: tag.toList ++ ['>']
  match dropIgnoringCase ('<' :: tag.toList) s with
  | none => none
  | some r =>
    match r.dropWhile (· ≠ '>') with
    | [] => none
    | _ :: inside =>
      (bodyUpTo? close [] inside).map fun body =>
        let lead := s.length - inside.length
        ((body, lead), lead + body.length + close.length)

/-- The body of a block and the position of the file it starts at. -/
structure Block where
  text : List Char
  start : Position

def findBlock? (tag : String) (content : List Char) : Option Block :=
  (Search.first? (block tag) content).map fun found =>
    { text := found.value.1
      start := (Document.ofText content "").positionAt (found.offset + found.value.2 : Nat) }

def script? (content : List Char) : Option Block := findBlock? "script" content

def template? (content : List Char) : Option Block := findBlock? "template" content

/-- The line and column in the file of a 1-based line and a column in the block. Only the first
line of the block starts within a line of the file. -/
def Block.toFile (b : Block) (line character : Int) : Int × Int :=
  (line + b.start.line, if line = 1 then character + b.start.character else character)

/-! ## Names in a template -/

/-- A name in a template: how far it stands behind the start of what mentions it. -/
structure Mention where
  name : List Char
  lead : Nat

def isPathRest (c : Char) : Bool := isNameRest c || c = '.'

/-- The dotted name at the front of a text and the text after it. -/
def takePath? : List Char → Option (List Char × List Char)
  | [] => none
  | c :: s =>
    if isNameStart c then some (c :: s.takeWhile isPathRest, s.dropWhile isPathRest) else none

/-- Recognises the loop variable of a `v-for` directive. -/
def loopDirective : Recogniser Mention := fun _ s =>
  match (dropLiteral "v-for=\"".toList s).bind takeName? with
  | none => none
  | some (name, after) =>
    match (dropBlanks? after).bind (dropLiteral "in".toList) with
    | none => none
    | some r =>
      let source := r.takeWhile (· ≠ '"')
      match r.dropWhile (· ≠ '"') with
      | _ :: rest =>
        if source.head?.any isBlank && 2 ≤ source.length then
          some (⟨name, 7⟩, s.length - rest.length)
        else none
      | [] => none

/-- Recognises the expression of a `v-model` directive. -/
def modelDirective : Recogniser Mention := fun _ s =>
  match dropLiteral "v-model=\"".toList s with
  | none => none
  | some r =>
    match r.takeWhile (· ≠ '"'), r.dropWhile (· ≠ '"') with
    | c :: name, _ :: rest => some (⟨c :: name, 9⟩, s.length - rest.length)
    | _, _ => none

def interpolation : Recogniser Mention := fun _ s =>
  match dropLiteral ['\x7b', '\x7b'] s with
  | none => none
  | some r =>
    let inner := trimStart r
    match takePath? inner with
    | none => none
    | some (name, after) =>
      (dropLiteral ['\x7d', '\x7d'] (trimStart after)).map fun rest =>
        (⟨name, s.length - inner.length⟩, s.length - rest.length)

/-- Recognises a bound attribute whose value is a name. -/
def boundAttribute : Recogniser Mention := fun _ s =>
  match s with
  | ':' :: r =>
    let isAttribute := fun c => isWord c || c = '-'
    if r.takeWhile isAttribute = [] then none
    else
      match dropLiteral "=\"".toList (r.dropWhile isAttribute) with
      | none => none
      | some r =>
        let inner := trimStart r
        match takePath? inner with
        | none => none
        | some (name, after) =>
          (dropLiteral ['"'] (trimStart after)).map fun rest =>
            (⟨name, s.length - inner.length⟩, s.length - rest.length)
  | _ => none

/-- What mentions a name, in the order a line is searched. -/
def mentions : List (Recogniser Mention) :=
  [loopDirective, modelDirective, interpolation, boundAttribute]

/-- The variable for a name found at a column of a 1-based line of the template. -/
def templateVariable (b : Block) (filePath : String) (line : Nat) (found : Found Mention) :
    Variable :=
  let (fileLine, character) := b.toFile line (found.offset + found.value.lead : Nat)
  { name := String.ofList found.value.name
    type := "any"
    declaredAs := "vue-template-variable"
    line := fileLine
    character := character
    filePath := filePath
    scope := "template"
    value := some (String.ofList found.value.name)
    references := [] }

/-- The variables of template lines that start with the 1-based line `n` of the block. -/
def templateVariablesFrom (b : Block) (filePath : String) : Nat → List (List Char) → List Variable
  | _, [] => []
  | n, line :: lines =>
    (mentions.flatMap fun m => (Search.all m line).map (templateVariable b filePath n)) ++
      templateVariablesFrom b filePath (n + 1) lines

/-! ## Components -/

def scriptVariables (content : List Char) (filePath : String) : List Variable :=
  match script? content with
  | none => []
  | some b =>
    (JavaScript.extract b.text filePath).map fun v =>
      let (line, character) := b.toFile v.line v.character
      { v with line := line, character := character }

def templateVariables (content : List Char) (filePath : String) : List Variable :=
  match template? content with
  | none => []
  | some b => templateVariablesFrom b filePath 1 (splitOn '\n' b.text)

/-- The variables of a component: those of the script, then those of the template. -/
def extract (content : List Char) (filePath : String) : List Variable :=
  scriptVariables content filePath ++ templateVariables content filePath

def imports (content : List Char) : List Import :=
  match script? content with
  | none => []
  | some b =>
    (JavaScript.imports b.text).map fun i =>
      let (line, character) := b.toFile i.line i.character
      { i with line := line, character := character }

/-- The references within a block, at their positions in the file. -/
def blockReferences (b : Block) (name : List Char) : List Reference :=
  (Occurrence.references b.text name .dollar 0).map fun r =>
    let (line, character) := b.toFile r.line r.character
    { r with line := line, character := character }

/-- The references to a name: those in the script block, then those in the template block. -/
def references (content name : List Char) : List Reference :=
  [script? content, template? content].flatMap fun b? =>
    match b? with
    | none => []
    | some b => blockReferences b name

end Vue
end DeclScan
