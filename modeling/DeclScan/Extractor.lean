import DeclScan.Language.JavaScript
import DeclScan.Language.JsonDocument
import DeclScan.Language.Python
import DeclScan.Language.Vue
import DeclScan.Language.Yaml
import DeclScan.Log
import DeclScan.Occurrence
import DeclScan.Path
import DeclScan.Text.Quoted

/-!
# DeclScan.Extractor

An extractor reads the sources of one language: it knows the extensions it is for, and finds
variables, imports and references in a text. The built-in extractors accept every text; one that is
supplied from outside may fail.
-/

namespace DeclScan

/-- What an extractor makes of a text. -/
structure Extraction where
  vars : List Variable
  log : List LogRecord

/-- An extractor for the sources of a language.

* `extract content filePath`: the variables of a text, or the text of the failure.
* `wordClass`: the characters that continue an identifier of the language.
* `title`: how the extractor is shown, if it is a built-in one.
-/
structure Extractor where
  language : String
  extensions : List String
  refactorings : List Refactoring
  wordClass : WordClass
  title : Option String
  extract : List Char → String → Except String Extraction
  imports : List Char → List Import
  references : List Char → List Char → List Reference

namespace Extractor

/-- The variables of an extractor that finds nothing to report. -/
def quiet (vars : List Char → String → List Variable) (content : List Char)
    (filePath : String) : Except String Extraction :=
  .ok ⟨vars content filePath, []⟩

def javaScript : Extractor where
  language := "javascript"
  extensions := [".js", ".jsx", ".ts", ".tsx", ".mjs", ".cjs"]
  refactorings := [.rename, .extract, .convert, .inlineValue]
  wordClass := .dollar
  title := some "JavaScriptParser"
  extract := quiet JavaScript.extract
  imports := JavaScript.imports
  references content name := Occurrence.references content name .dollar 0

def python : Extractor where
  language := "python"
  extensions := [".py", ".pyw", ".pyx"]
  refactorings := [.rename, .extract, .convert, .inlineValue]
  wordClass := .plain
  title := some "PythonParser"
  extract := quiet Python.extract
  imports := Python.imports
  references content name := Occurrence.references content name .plain 0

def vue : Extractor where
  language := "vue"
  extensions := [".vue"]
  refactorings := [.rename, .extract]
  wordClass := .dollar
  title := some "VueParser"
  extract := quiet Vue.extract
  imports := Vue.imports
  references := Vue.references

/-- The extension of JSON files that may hold comments. -/
def commentedExtension : String := ".jsonc"

/-- The variables of a JSON text. A text that is not JSON has none, and is reported. -/
def jsonVariables (content : List Char) (filePath : String) : Extraction :=
  let comments := Path.lower (Path.suffix filePath) = commentedExtension
  match JsonDocument.extract? comments content filePath with
  | .ok vars => ⟨vars, []⟩
  | .error e => ⟨[], [.warning .parser s!"Invalid JSON in {filePath}: {e.message}"]⟩

def json : Extractor where
  language := "json"
  extensions := [".json", commentedExtension]
  refactorings := [.rename]
  wordClass := .plain
  title := some "JSONParser"
  extract content filePath := .ok (jsonVariables content filePath)
  imports _ := []
  references _ _ := []

def yaml : Extractor where
  language := "yaml"
  extensions := [".yml", ".yaml"]
  refactorings := [.rename]
  wordClass := .plain
  title := some "YAMLParser"
  extract := quiet Yaml.extract
  imports _ := []
  references content name := Occurrence.references content name .plain 0

/-- The built-in extractors, in the order of their registration. -/
def builtin : List Extractor := [javaScript, python, vue, json, yaml]

def builtin? (language : String) : Option Extractor := builtin.find? (·.language = language)

/-- Whether the extractor is for files with the extension of a path. -/
def canParse (e : Extractor) (path : String) : Bool :=
  e.extensions.contains (Path.lower (Path.suffix path))

/-- How an extractor is shown: its title and its extensions. -/
def describe? (e : Extractor) : Option String :=
  e.title.map fun title =>
    s!"{title}(extensions=[" ++ String.intercalate ", " (e.extensions.map Text.quoted) ++ "])"

/-! ## Extractors supplied from outside -/

def raiseMark : String := "!raise "

/-- Reads the lines of a text into variables; `n` is the 1-based number of the first line. -/
def lineVariables (language filePath : String) : Nat → List (List Char) → Except String (List Variable)
  | _, [] => .ok []
  | n, line :: lines =>
    match Text.dropLiteral raiseMark.toList line with
    | some text => .error (String.ofList text)
    | none =>
      match lineVariables language filePath (n + 1) lines with
      | .error e => .error e
      | .ok rest =>
        if line = [] then .ok rest
        else
          .ok (
            { name := String.ofList line
              type := "any"
              declaredAs := language
              line := n
              character := 0
              filePath := filePath
              scope := "custom"
              value := none
              references := [] } :: rest)

/-- An extractor that takes each line for a variable, and fails on lines that ask for it. -/
def ofLines (language : String) (extensions : List String) : Extractor where
  language := language
  extensions := extensions
  refactorings := [.move, .split]
  wordClass := .plain
  title := none
  extract content filePath :=
    match lineVariables language filePath 1 (Text.splitOn '\n' content) with
    | .ok vars => .ok ⟨vars, []⟩
    | .error e => .error e
  imports _ := []
  references content name := Occurrence.references content name .plain 0

end Extractor
end DeclScan
