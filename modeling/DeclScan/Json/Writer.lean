import DeclScan.Json.Value
import DeclScan.Number.Decimal

/-!
# DeclScan.Json.Writer

Writing JSON documents in ASCII. `Json.compact` leaves out all white space, `Json.spaced` writes a
blank after each comma and colon on one line, `Json.indented` a line for each item.
-/

namespace DeclScan
namespace Json

def hexDigit (n : Nat) : Char :=
  if n < 10 then Char.ofNat ('0'.toNat + n) else Char.ofNat ('a'.toNat + (n - 10))

def unitEscape (n : Nat) : List Char :=
  ['\\', 'u', hexDigit (n / 4096 % 16), hexDigit (n / 256 % 16), hexDigit (n / 16 % 16),
    hexDigit (n % 16)]

/-- A character within a string. What is not printable ASCII is escaped, beyond the basic plane as
a surrogate pair. -/
def escapeChar (c : Char) : List Char :=
  if c = '"' then ['\\', '"']
  else if c = '\\' then ['\\', '\\']
  else if c = '\n' then ['\\', 'n']
  else if c = '\r' then ['\\', 'r']
  else if c = '\t' then ['\\', 't']
  else if c = '\x0c' then ['\\', 'f']
  else if c = '\x08' then ['\\', 'b']
  else
    let n := c.toNat
    if 32 ≤ n && n ≤ 126 then [c]
    else if n < 0x10000 then unitEscape n
    else unitEscape (0xD800 + (n - 0x10000) / 0x400) ++ unitEscape (0xDC00 + (n - 0x10000) % 0x400)

def quote (s : String) : String :=
  String.ofList ('"' :: (s.toList.flatMap escapeChar ++ ['"']))

/-- How the parts of a document are set apart. -/
structure Spacing where
  /-- What stands between two items, and the blanks of one level where each has its own line. -/
  itemSeparator : String
  keySeparator : String
  indent : Option Nat

/-- The line break before an item at a level, if items have lines of their own. -/
def Spacing.lineBreak (spacing : Spacing) (level : Nat) : String :=
  match spacing.indent with
  | none => ""
  | some width => "\n" ++ String.ofList (List.replicate (width * level) ' ')

/-- Joins the texts of the items of a container at a level. -/
def Spacing.join (spacing : Spacing) (level : Nat) (items : List String) : String :=
  spacing.lineBreak (level + 1) ++
    String.intercalate (spacing.itemSeparator ++ spacing.lineBreak (level + 1)) items ++
    spacing.lineBreak level

mutual

/-- Writes a document that stands at a level of nesting. -/
def write (spacing : Spacing) (level : Nat) : Json → String
  | .null => "null"
  | .bool b => if b then "true" else "false"
  | .int i => toString i
  | .float x => NumberLayout.json.render x
  | .str s => quote s
  | .arr [] => "[]"
  | .arr (item :: items) =>
    "[" ++ spacing.join level (writeItems spacing (level + 1) (item :: items)) ++ "]"
  | .obj [] => "\x7b\x7d"
  | .obj (m :: members) =>
    "\x7b" ++ spacing.join level (writeMembers spacing (level + 1) (m :: members)) ++ "\x7d"

def writeItems (spacing : Spacing) (level : Nat) : List Json → List String
  | [] => []
  | item :: items => write spacing level item :: writeItems spacing level items

def writeMembers (spacing : Spacing) (level : Nat) : List (String × Json) → List String
  | [] => []
  | (key, value) :: members =>
    (quote key ++ spacing.keySeparator ++ write spacing level value) ::
      writeMembers spacing level members

end

def compact (j : Json) : String := write ⟨",", ":", none⟩ 0 j

/-- On one line, with a blank after each comma and colon. -/
def spaced (j : Json) : String := write ⟨", ", ": ", none⟩ 0 j

/-- Each item on a line of its own, indented by two blanks a level. -/
def indented (j : Json) : String := write ⟨",", ": ", some 2⟩ 0 j

end Json
end DeclScan
