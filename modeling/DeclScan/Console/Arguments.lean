import DeclScan.Text.Quoted
import DeclScan.Text.Similarity

/-!
# DeclScan.Console.Arguments

The syntax of command lines. An option has a long name (`--quiet`) and may have a letter (`-q`);
letters may be put together (`-qv`). A value follows its option as the next word, or in the same one
(`--config=file`). All words after `--` are plain arguments.

* `Arguments.read`: options and plain arguments of a command line.
-/

namespace DeclScan

/-- An option that a command line may have. The name has its dashes. -/
structure OptionSpec where
  name : String
  letter : Option Char
  takesValue : Bool
  deriving Repr, DecidableEq

/-- An option that was given, by its long name. -/
structure GivenOption where
  name : String
  value : Option String
  deriving Repr, DecidableEq

/-- Why a command line cannot be read. -/
inductive SyntaxFault where
  | unknownOption (name : String) (similar : List String)
  | missingValue (name : String)
  | unwantedValue (name : String)
  deriving Repr, DecidableEq

def suggestionText : List String → String
  | [] => ""
  | [name] => s!" Did you mean {Text.quoted name}?"
  | names => " (Did you mean one of: " ++ String.intercalate ", " (names.map Text.quoted) ++ "?)"

def SyntaxFault.message : SyntaxFault → String
  | .unknownOption name similar => s!"No such option {Text.quoted name}.{suggestionText similar}"
  | .missingValue name => s!"Option {Text.quoted name} requires an argument."
  | .unwantedValue name => s!"Option {Text.quoted name} does not take a value."

/-- A command line: the options in the order in which they were given, and the other words. -/
structure Arguments where
  options : List GivenOption
  words : List String
  deriving Repr, DecidableEq

namespace Arguments

/-- The options of one word; the last may still need a value, which is the next word then. -/
structure WordOptions where
  complete : List GivenOption
  waiting : Option String

def isOption (word : String) : Bool :=
  match word.toList with
  | '-' :: _ :: _ => true
  | _ => false

def splitValue (word : List Char) : String × Option String :=
  match word.dropWhile (· ≠ '=') with
  | [] => (String.ofList word, none)
  | _ :: value => (String.ofList (word.takeWhile (· ≠ '=')), some (String.ofList value))

/-- Reads a word that is an option by its long name, perhaps with a value. -/
def readLong (spec : OptionSpec) (value : Option String) : Except SyntaxFault WordOptions :=
  match spec.takesValue, value with
  | true, some value => .ok ⟨[⟨spec.name, some value⟩], none⟩
  | true, none => .ok ⟨[], some spec.name⟩
  | false, none => .ok ⟨[⟨spec.name, none⟩], none⟩
  | false, some _ => .error (.unwantedValue spec.name)

/-- Reads the letters of a word; what follows one with a value is that value. -/
def readLetters (specs : List OptionSpec) : List Char → Except SyntaxFault WordOptions
  | [] => .ok ⟨[], none⟩
  | c :: rest =>
    match specs.find? fun spec => spec.letter = some c with
    | none => .error (.unknownOption (String.ofList ['-', c]) [])
    | some spec =>
      if spec.takesValue then
        if rest = [] then .ok ⟨[], some spec.name⟩
        else .ok ⟨[⟨spec.name, some (String.ofList rest)⟩], none⟩
      else
        match readLetters specs rest with
        | .error fault => .error fault
        | .ok found => .ok { found with complete := ⟨spec.name, none⟩ :: found.complete }

def readWord (specs : List OptionSpec) (word : String) : Except SyntaxFault WordOptions :=
  let (name, value) := splitValue word.toList
  match specs.find? fun spec => spec.name = name with
  | some spec => readLong spec value
  | none =>
    if word.startsWith "--" then
      .error (.unknownOption name (Text.closeWords name (specs.map OptionSpec.name)))
    else readLetters specs (word.toList.drop 1)

def withOptions (options : List GivenOption) (a : Arguments) : Arguments :=
  { a with options := options ++ a.options }

/-- Reads a command line. Options may stand behind other words only if `mixed`; else the first other
word ends them. -/
def read (specs : List OptionSpec) (mixed : Bool) : List String → Except SyntaxFault Arguments
  | [] => .ok ⟨[], []⟩
  | word :: rest =>
    if word = "--" then .ok ⟨[], rest⟩
    else if isOption word then
      match readWord specs word with
      | .error fault => .error fault
      | .ok ⟨options, none⟩ => (read specs mixed rest).map (withOptions options)
      | .ok ⟨options, some name⟩ =>
        match rest with
        | [] => .error (.missingValue name)
        | value :: rest =>
          (read specs mixed rest).map (withOptions (options ++ [⟨name, some value⟩]))
    else if mixed then (read specs mixed rest).map fun a => { a with words := word :: a.words }
    else .ok ⟨[], word :: rest⟩

def value? (a : Arguments) (name : String) : Option String :=
  ((a.options.filter fun o => o.name = name).getLast?).bind GivenOption.value

def has (a : Arguments) (name : String) : Bool := a.options.any fun o => o.name = name

/-- The names of the given options, each where it was first given. -/
def names (a : Arguments) : List String := (a.options.map GivenOption.name).eraseDups

end Arguments
end DeclScan
