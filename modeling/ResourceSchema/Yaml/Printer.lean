import ResourceSchema.Json.Printer
import ResourceSchema.Yaml.Plain
import ResourceSchema.Yaml.Scalar

/-!
# YAML texts

Documents are written in block style with an indent of two blanks. A text is written plain when it
reads back as itself, as a literal block when it has line breaks, else between quotes: single ones,
or double ones where only an escape can say what is meant.
-/

namespace ResourceSchema.Yaml

/-! ## Styles of a text -/

/-- Characters that need no escape; a line feed is one. -/
def isPrintable (c : Char) : Bool :=
  let n := c.toNat
  c == '\n' || 0x20 ≤ n && n ≤ 0x7E || 0xA0 ≤ n && n ≤ 0xFFFD && n != 0xFEFF || 0x10000 ≤ n

/-- A mark stands inside, which would end a plain scalar or start a comment. -/
def hasMarkInside (afterBlank : Bool) : List Char → Bool
  | [] => false
  | c :: cs =>
    c == '#' && afterBlank || c == ':' && startsBreak cs || hasMarkInside (isBreakOrBlank c) cs
where
  isBreakOrBlank (c : Char) : Bool := isBlank c || c == '\n'
  startsBreak (cs : List Char) : Bool := cs.head?.all isBreakOrBlank

/-- The first character, or a marker at the start, would give the text another meaning. -/
def hasMarkAtStart (cs : List Char) : Bool :=
  ['-', '-', '-'].isPrefixOf cs || ['.', '.', '.'].isPrefixOf cs ||
    match cs with
    | [] => false
    | c :: rest => isIndicator c || (c == '-' || c == '?' || c == ':') && startsBlank rest

/-- A blank stands before a line feed. -/
def hasBlankBeforeBreak : List Char → Bool
  | ' ' :: '\n' :: _ => true
  | _ :: cs => hasBlankBeforeBreak cs
  | [] => false

/-- The escape of a character between double quotes. -/
def escapeChar (c : Char) : List Char :=
  let hex (mark : Char) (width : Nat) : List Char :=
    let digits := (Nat.toDigits 16 c.toNat).map Char.toUpper
    '\\' :: mark :: (List.replicate (width - digits.length) '0' ++ digits)
  match c with
  | '"' => ['\\', '"']
  | '\\' => ['\\', '\\']
  | '\x00' => ['\\', '0']
  | '\x07' => ['\\', 'a']
  | '\x08' => ['\\', 'b']
  | '\t' => ['\\', 't']
  | '\n' => ['\\', 'n']
  | '\x0B' => ['\\', 'v']
  | '\x0C' => ['\\', 'f']
  | '\r' => ['\\', 'r']
  | '\x1B' => ['\\', 'e']
  | '\x85' => ['\\', 'N']
  | c =>
    if isPrintable c then [c]
    else if c.toNat ≤ 0xFF then hex 'x' 2
    else if c.toNat ≤ 0xFFFF then hex 'u' 4
    else hex 'U' 8

/-- The text between double quotes. -/
def doubleQuoted (cs : List Char) : String := String.ofList ('"' :: cs.flatMap escapeChar ++ ['"'])

/-- The text between single quotes. -/
def singleQuoted (cs : List Char) : String :=
  String.ofList ('\x27' :: cs.flatMap (fun c => if c == '\x27' then [c, c] else [c]) ++ ['\x27'])

/-- A scalar as it is laid out: on one line, or as a header with lines below it. -/
inductive Layout where
  | inline (text : String)
  | block (header : String) (lines : List String)

/-- The lines of a text; a line feed at the end ends the last one. -/
def blockLines (cs : List Char) : List (List Char) :=
  let lines := cs.splitOn '\n'
  if cs.getLast? = some '\n' then lines.dropLast else lines

/-- The header of a literal block: a digit where the indentation does not show, then what becomes
of the line feeds at the end. -/
def blockHeader (cs : List Char) : String :=
  let hint := match cs with
    | ' ' :: _ | '\n' :: _ => "2"
    | _ => ""
  let chomping := match cs.reverse with
    | '\n' :: c :: _ => if c == '\n' then "+" else ""
    | ['\n'] => "+"
    | _ => "-"
  "|" ++ hint ++ chomping

/-- The layout of a text. -/
def Layout.ofText (text : String) : Layout :=
  let cs := text.toList
  let special := !cs.all isPrintable || hasBlankBeforeBreak cs
  if special then .inline (doubleQuoted cs)
  else if cs.contains '\n' then
    if cs.getLast? = some ' ' then .inline (doubleQuoted cs)
    else .block (blockHeader cs) ((blockLines cs).map String.ofList)
  else if isAmbiguous text || cs.head? = some ' ' || cs.getLast? = some ' ' ||
      hasMarkAtStart cs || hasMarkInside true cs then
    .inline (singleQuoted cs)
  else .inline text

/-! ## Documents -/

/-- Lines one level deeper; empty lines stay empty. -/
def indented (lines : List String) : List String :=
  lines.map fun line => if line.isEmpty then line else "  " ++ line

/-- Lines behind a mark: the first on the line of the mark, the others below. -/
def behind (mark : String) : List String → List String
  | [] => [mark]
  | line :: later => (mark ++ " " ++ line) :: indented later

/-- Greatest length of a key, in bytes, that is written without a question mark. -/
def simpleKeyLimit : Nat := 128

/-- The key of an entry: what stands before its value, and the lines before that. -/
def keyLines (name : String) : List String × String :=
  match Layout.ofText name with
  | .inline text =>
    if name.utf8ByteSize ≤ simpleKeyLimit then ([], text ++ ":") else (["? " ++ text], ":")
  | .block header lines => (("? " ++ header) :: indented lines, ":")

/-- A document that is written on one line. -/
def oneLine : Json → String
  | .string s => match Layout.ofText s with
    | .inline text => text
    | .block _ _ => doubleQuoted s.toList
  | j => j.compact

mutual

/-- The lines of an entry. Its value stands on the line of its key, but a mapping below it; the
mapping of a key with a question mark starts behind the colon. Items stand on one line. -/
def entryLines (name : String) (value : Json) : List String :=
  let (before, mark) := keyLines name
  before ++ match value with
    | .string s => match Layout.ofText s with
      | .inline text => [mark ++ " " ++ text]
      | .block header lines => (mark ++ " " ++ header) :: indented lines
    | .object ((name, value) :: members) =>
      let lines := entryLines name value ++ membersLines members
      if before.isEmpty then mark :: indented lines else behind mark lines
    | j => [mark ++ " " ++ oneLine j]

def membersLines : List (String × Json) → List String
  | [] => []
  | (name, value) :: rest => entryLines name value ++ membersLines rest

end

/-- The text of a document. -/
def textOf : Json → String
  | .object (m :: members) => String.join ((membersLines (m :: members)).map (· ++ "\n"))
  | j => oneLine j ++ "\n"

end ResourceSchema.Yaml
