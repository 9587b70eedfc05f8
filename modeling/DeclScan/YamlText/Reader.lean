import DeclScan.YamlText.Node
import DeclScan.YamlText.Scalar

/-!
# DeclScan.YamlText.Reader

Reading YAML texts, as far as settings are written in them: one document with block mappings and
sequences, flow collections, plain and quoted scalars, and comments. Anchors, tags, block scalars,
directives and explicit keys are not read.

Blocks are read line by line: a text that is left over always begins at the start of a line. A
sequence item that begins on the line of its dash is read as if the dash were a blank.
-/

namespace DeclScan
namespace YamlText

open Text

def isAllowed (c : Char) : Bool :=
  let n := c.toNat
  n = 9 || n = 10 || n = 13 || (0x20 ≤ n && n ≤ 0x7E) || n = 0x85 || (0xA0 ≤ n && n ≤ 0xD7FF) ||
    (0xE000 ≤ n && n ≤ 0xFFFD) || 0x10000 ≤ n

/-- White space within a line. Tabs count in quoted scalars and at the end of a mark; elsewhere only
blanks may stand between the parts of a text. -/
def isSpace (c : Char) : Bool := c = ' ' || c = '\t'

def isBlankChar (c : Char) : Bool := c = ' '

/-- Whether a place is the end of a line or of the text. -/
def atLineEnd : List Char → Bool
  | [] => true
  | c :: _ => c = '\n'

/-- Whether a character that marks something stands alone: a blank or a line end follows. -/
def standsAlone : List Char → Bool
  | [] => true
  | c :: _ => isSpace c || c = '\n'

def dropLine (s : List Char) : List Char := (s.dropWhile (· ≠ '\n')).drop 1

/-- The text from the next line on, if only blanks and a comment are left of this one. -/
def endLine? : List Char → Option (List Char)
  | [] => some []
  | '\n' :: s => some s
  | '#' :: s => some (dropLine s)
  | c :: s => if isBlankChar c then endLine? s else none

/-! ## Quoted scalars -/

/-- The characters that a letter after a backslash stands for. -/
def escapes : List (Char × Char) :=
  [('0', '\x00'), ('a', '\x07'), ('b', '\x08'), ('t', '\t'), ('\t', '\t'), ('n', '\n'),
    ('v', '\x0b'), ('f', '\x0c'), ('r', '\r'), ('e', '\x1b'), (' ', ' '), ('"', '"'), ('\\', '\\'),
    ('/', '/'), ('N', '\u0085'), ('_', '\u00a0'), ('L', '\u2028'), ('P', '\u2029')]

def escapeWidth? : Char → Option Nat
  | 'x' => some 2
  | 'u' => some 4
  | 'U' => some 8
  | _ => none

def isWhite (c : Char) : Bool := isSpace c || c = '\n'

def isBlankOrBreak (c : Char) : Bool := isBlankChar c || c = '\n'

/-- Reads line breaks and the white space around them: one break is a blank, each further one a
newline. -/
def foldBreaks (isWhite : Char → Bool) (s : List Char) : List Char × List Char :=
  let breaks := (s.takeWhile isWhite).count '\n'
  (if breaks = 1 then [' '] else List.replicate (breaks - 1) '\n', s.dropWhile isWhite)

/-- Whether nothing but white space comes before the next line break. -/
def endsInWhite (s : List Char) : Bool := (s.dropWhile isSpace).head? = some '\n'

/-- Reads a scalar in single quotes from behind the opening quote; `read` holds the characters so
far, last first. White space around a line break does not count. -/
def singleQuoted : Nat → List Char → List Char → Option (List Char × List Char)
  | 0, _, _ => none
  | fuel + 1, read, s =>
    match s with
    | [] => none
    | '\'' :: '\'' :: s => singleQuoted fuel ('\'' :: read) s
    | '\'' :: s => some (read.reverse, s)
    | '\n' :: s =>
      let (fold, rest) := foldBreaks isWhite ('\n' :: s)
      singleQuoted fuel (fold ++ read) rest
    | c :: s => singleQuoted fuel (if isSpace c && endsInWhite s then read else c :: read) s

/-- Reads a scalar in double quotes from behind the opening quote; `read` holds the characters so
far, last first. White space around a line break does not count, and a backslash takes the break
itself away. -/
def doubleQuoted : Nat → List Char → List Char → Option (List Char × List Char)
  | 0, _, _ => none
  | fuel + 1, read, s =>
    match s with
    | [] => none
    | '"' :: s => some (read.reverse, s)
    | '\\' :: '\n' :: s =>
      doubleQuoted fuel (List.replicate ((s.takeWhile isWhite).count '\n') '\n' ++ read)
        (s.dropWhile isWhite)
    | '\\' :: c :: s =>
      match escapes.lookup c, escapeWidth? c with
      | some e, _ => doubleQuoted fuel (e :: read) s
      | none, some width =>
        let digits := s.take width
        match if digits.length < width || digits.contains '_' then none else digitsValue? 16 digits with
        | some n => doubleQuoted fuel (Char.ofNat n :: read) (s.drop width)
        | none => none
      | none, none => none
    | '\n' :: s =>
      let (fold, rest) := foldBreaks isWhite ('\n' :: s)
      doubleQuoted fuel (fold ++ read) rest
    | c :: s => doubleQuoted fuel (if isSpace c && endsInWhite s then read else c :: read) s

def quotedScalar? : List Char → Option (List Char × List Char)
  | '"' :: s => doubleQuoted (s.length + 1) [] s
  | '\'' :: s => singleQuoted (s.length + 1) [] s
  | _ => none

/-! ## Plain scalars -/

def startsPlain (inFlow : Bool) : List Char → Bool
  | [] => false
  | c :: s =>
    if c = '-' then !standsAlone s
    else if c = '?' || c = ':' then !inFlow && !standsAlone s
    else !(isSpace c || c = '\n' || ",[]\x7b\x7d#&*!|>'\"%@\x60".toList.contains c)

/-- Brackets and commas, the marks of flow collections. -/
def isFlowMark (c : Char) : Bool := c = ',' || c = '[' || c = ']' || c = '\x7b' || c = '\x7d'

def isFlowEnd (c : Char) : Bool := c = ',' || c = ']' || c = '\x7d'

/-- The characters of a plain scalar on one line and the text behind them. It ends before a tab, a
colon that stands alone and a comment, and within a flow collection before a mark of it or a
question mark. -/
def plainLine (inFlow : Bool) (before : Char) : List Char → List Char × List Char
  | [] => ([], [])
  | c :: s =>
    let ends :=
      c = '\n' || c = '\t' || (c = '#' && isBlankChar before) ||
        (inFlow && (isFlowMark c || c = '?')) ||
        (c = ':' && (standsAlone s || (inFlow && (s.head?.map isFlowMark).getD false)))
    if ends then ([], c :: s)
    else
      let (taken, rest) := plainLine inFlow c s
      (c :: taken, rest)

def trimSpaces (s : List Char) : List Char := (s.reverse.dropWhile isBlankChar).reverse

/-! ## Flow collections -/

def dropFlowSpace : Nat → List Char → List Char
  | 0, s => s
  | _, [] => []
  | fuel + 1, c :: s =>
    if isBlankChar c || c = '\n' then dropFlowSpace fuel s
    else if c = '#' then dropFlowSpace fuel (dropLine s)
    else c :: s

def skipFlow (s : List Char) : List Char := dropFlowSpace (s.length + 1) s

/-- The lines of a plain scalar within a flow collection; `read` holds those so far and what stands
for the line breaks behind them. -/
def flowPlain : Nat → List Char → List Char → List Char × List Char
  | 0, read, s => (read, s)
  | fuel + 1, read, s =>
    let (line, rest) := plainLine true ' ' s
    let read := read ++ trimSpaces line
    match rest with
    | '\n' :: _ =>
      let (fold, next) := foldBreaks isBlankOrBreak rest
      if (plainLine true ' ' next).1 = [] then (read, rest)
      else flowPlain fuel (read ++ fold) next
    | _ => (read, rest)

mutual

def flowNode : Nat → List Char → Option (YamlNode × List Char)
  | 0, _ => none
  | fuel + 1, s =>
    match skipFlow s with
    | '[' :: s => flowItems fuel [] s
    | '\x7b' :: s => flowMembers fuel [] s
    | s =>
      match quotedScalar? s with
      | some (text, rest) => some (.scalar (.str (String.ofList text)), rest)
      | none =>
        if startsPlain true s then
          let (text, rest) := flowPlain s.length [] s
          some (.scalar (plainValue text), rest)
        else none

/-- Reads the value of a member of a flow mapping from behind the colon of its key; it may be left
out. -/
def flowValue : Nat → List Char → Option (YamlNode × List Char)
  | 0, _ => none
  | fuel + 1, s =>
    let rest := skipFlow s
    if (rest.head?.map isFlowEnd).getD false then some (.scalar .null, rest) else flowNode fuel rest

/-- Reads the items of a flow sequence from the next one on; `items` are those so far, last first.
A key with its value is a mapping of its own. -/
def flowItems : Nat → List YamlNode → List Char → Option (YamlNode × List Char)
  | 0, _, _ => none
  | fuel + 1, items, s =>
    match skipFlow s with
    | ']' :: s => some (.sequence items.reverse, s)
    | s =>
      match flowNode fuel s with
      | none => none
      | some (node, rest) =>
        let item? :=
          match node, skipFlow rest with
          | .scalar key, ':' :: rest =>
            (flowValue fuel rest).map fun (value, rest) => (.ofMembers [(key, value)], rest)
          | node, rest => some (node, rest)
        match item? with
        | none => none
        | some (item, rest) =>
          match skipFlow rest with
          | ',' :: rest => flowItems fuel (item :: items) rest
          | ']' :: rest => some (.sequence (item :: items).reverse, rest)
          | _ => none

/-- Reads the members of a flow mapping from the next one on; `members` are those so far, last
first. -/
def flowMembers : Nat → List (Json × YamlNode) → List Char → Option (YamlNode × List Char)
  | 0, _, _ => none
  | fuel + 1, members, s =>
    match skipFlow s with
    | '\x7d' :: s => some (.ofMembers members.reverse, s)
    | s =>
      match flowNode fuel s with
      | some (.scalar key, rest) =>
        let value? :=
          match skipFlow rest with
          | ':' :: rest => flowValue fuel rest
          | rest => some (.scalar .null, rest)
        match value? with
        | none => none
        | some (value, rest) =>
          match skipFlow rest with
          | ',' :: rest => flowMembers fuel ((key, value) :: members) rest
          | '\x7d' :: rest => some (.ofMembers ((key, value) :: members).reverse, rest)
          | _ => none
      | _ => none

end

/-! ## Blocks -/

def dropEmptyLines : Nat → List Char → List Char
  | 0, s => s
  | fuel + 1, s =>
    match s with
    | [] => []
    | _ =>
      match endLine? s with
      | some rest => dropEmptyLines fuel rest
      | none => s

def indentOf (s : List Char) : Nat := (s.takeWhile (· = ' ')).length

def isDocumentMark (s : List Char) : Bool :=
  match s with
  | '-' :: '-' :: '-' :: rest | '.' :: '.' :: '.' :: rest => standsAlone rest
  | _ => false

/-- The next line with content: its indentation, its content and all that follows it. None at the
end of the document. -/
def nextLine? (s : List Char) : Option (Nat × List Char) :=
  match dropEmptyLines (s.length + 1) s with
  | [] => none
  | s => if isDocumentMark s then none else some (indentOf s, s.dropWhile (· = ' '))

def isItem : List Char → Bool
  | '-' :: s => standsAlone s
  | _ => false

/-- The key that a content begins with, and the text behind its colon. -/
def takeKey? (s : List Char) : Option (Json × List Char) :=
  match quotedScalar? s with
  | some (text, rest) =>
    match rest.dropWhile isBlankChar with
    | ':' :: rest => if standsAlone rest then some (.str (String.ofList text), rest) else none
    | _ => none
  | none =>
    if startsPlain false s then
      let (text, rest) := plainLine false ' ' s
      match rest with
      | ':' :: rest => some (plainValue (trimSpaces text), rest)
      | _ => none
    else none

/-- The further lines of a plain scalar, which are indented by at least `least`. A colon that stands
alone in one of them is a mistake. -/
def plainLines (least : Nat) : Nat → List Char → List Char → Option (List Char × List Char)
  | 0, read, s => some (read, s)
  | fuel + 1, read, s =>
    match s with
    | [] => some (read, [])
    | _ =>
      let blankLines := (s.takeWhile isBlankOrBreak).count '\n'
      match nextLine? s with
      | none => some (read, s)
      | some (indent, content) =>
        if indent < least || (s.dropWhile isBlankOrBreak).head? = some '#' then
          some (read, s)
        else
          let (line, rest) := plainLine false ' ' content
          match endLine? rest with
          | none => none
          | some after =>
            let fold := if blankLines = 0 then [' '] else List.replicate blankLines '\n'
            let read := read ++ fold ++ trimSpaces line
            if atLineEnd rest then plainLines least fuel read after else some (read, after)

/-- Reads a scalar or flow collection that begins within a line; further lines of it are indented by
at least `least`. -/
def inlineNode (least : Nat) (s : List Char) : Option (YamlNode × List Char) :=
  match s with
  | '[' :: _ | '\x7b' :: _ =>
    match flowNode (2 * s.length + 2) s with
    | none => none
    | some (node, rest) => (endLine? rest).map fun rest => (node, rest)
  | '"' :: _ | '\'' :: _ =>
    match quotedScalar? s with
    | none => none
    | some (text, rest) =>
      (endLine? rest).map fun rest => (.scalar (.str (String.ofList text)), rest)
  | _ =>
    if startsPlain false s then
      let (line, rest) := plainLine false ' ' s
      match endLine? rest with
      | none => none
      | some after =>
        if atLineEnd rest then
          (plainLines least (s.length + 1) (trimSpaces line) after).map fun (text, rest) =>
            (.scalar (plainValue text), rest)
        else some (.scalar (plainValue (trimSpaces line)), after)
    else none

mutual

/-- Reads the node that begins on the next line with content, if this is indented by at least
`least`; otherwise the node is empty. -/
def blockNode : Nat → Nat → List Char → Option (YamlNode × List Char)
  | 0, _, _ => none
  | fuel + 1, least, s =>
    match nextLine? s with
    | none => some (.scalar .null, s)
    | some (indent, content) =>
      if indent < least then some (.scalar .null, s)
      else if isItem content then blockItems fuel indent [] s
      else
        match takeKey? content with
        | some _ => blockMembers fuel indent [] s
        | none => inlineNode least content

/-- Reads the items of a sequence whose dashes stand at an indentation. -/
def blockItems : Nat → Nat → List YamlNode → List Char → Option (YamlNode × List Char)
  | 0, _, _, _ => none
  | fuel + 1, indent, items, s =>
    match nextLine? s with
    | none => some (.sequence items.reverse, s)
    | some (n, content) =>
      if indent < n then none
      else if n < indent || !isItem content then some (.sequence items.reverse, s)
      else
        match blockNode fuel (indent + 1)
            (List.replicate (indent + 1) ' ' ++ content.drop 1) with
        | none => none
        | some (item, rest) => blockItems fuel indent (item :: items) rest

/-- Reads the members of a mapping whose keys stand at an indentation. -/
def blockMembers : Nat → Nat → List (Json × YamlNode) → List Char → Option (YamlNode × List Char)
  | 0, _, _, _ => none
  | fuel + 1, indent, members, s =>
    match nextLine? s with
    | none => some (.ofMembers members.reverse, s)
    | some (n, content) =>
      if n < indent then some (.ofMembers members.reverse, s)
      else if indent < n || isItem content then none
      else
        match takeKey? content with
        | none => none
        | some (key, rest) =>
          match memberValue fuel indent rest with
          | none => none
          | some (value, rest) => blockMembers fuel indent ((key, value) :: members) rest

/-- Reads the value of a member from behind the colon of its key. On further lines it is indented
more than the key; only a sequence may stand at the same indentation. -/
def memberValue : Nat → Nat → List Char → Option (YamlNode × List Char)
  | 0, _, _ => none
  | fuel + 1, indent, s =>
    match endLine? s with
    | none => inlineNode (indent + 1) (s.dropWhile isBlankChar)
    | some rest =>
      match nextLine? rest with
      | none => some (.scalar .null, rest)
      | some (n, content) =>
        if n = indent && isItem content then blockItems fuel indent [] rest
        else blockNode fuel (indent + 1) rest

end

/-- Reads the one document of a text, behind the mark that it may begin with. Nothing but a mark at
its end may follow. -/
def readDocument (s : List Char) : Option YamlNode :=
  let fuel := 4 * s.length + 4
  let found :=
    match dropEmptyLines (s.length + 1) s with
    | '-' :: '-' :: '-' :: rest =>
      if standsAlone rest then
        match endLine? rest with
        | some rest => blockNode fuel 0 rest
        | none => inlineNode 0 (rest.dropWhile isBlankChar)
      else blockNode fuel 0 s
    | '%' :: _ => none
    | s => blockNode fuel 0 s
  match found with
  | none => none
  | some (node, rest) =>
    match dropEmptyLines (rest.length + 1) rest with
    | [] => some node
    | '.' :: '.' :: '.' :: rest =>
      match endLine? rest with
      | some rest => if dropEmptyLines (rest.length + 1) rest = [] then some node else none
      | none => none
    | _ => none

/-- Reads a YAML text; there is no answer for one that is not a document of the kind told above. The
next-line character is one more way to write a line break. -/
def read (s : List Char) : Option YamlNode :=
  let s := match s with
    | '\uFEFF' :: s => s
    | s => s
  if s.all isAllowed then readDocument (s.map fun c => if c = '\u0085' then '\n' else c) else none

end YamlText
end DeclScan
