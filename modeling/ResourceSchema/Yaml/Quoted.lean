import ResourceSchema.Text.Basic
import ResourceSchema.Yaml.Place

/-!
# Quoted scalars

Between single quotes a quote is written twice and all else once. Between double quotes a backslash
starts an escape. A quoted text may run over several lines: blanks around a line break are dropped,
unless a backslash stands before the break and takes it away too.
-/

namespace ResourceSchema.Yaml

/-- How a line ends for a quoted text; the text is collected newest character first. -/
inductive QuotedLine where
  | closed (text : List Char) (rest : List Char)
  /-- The text goes on; the line break may be escaped. -/
  | continued (text : List Char) (escaped : Bool)
  | malformed

/-- Scans a line between single quotes; `blanks` have been read and not yet been kept. -/
def scanSingle (text blanks : List Char) : List Char → QuotedLine
  | [] => .continued text false
  | '\x27' :: '\x27' :: cs => scanSingle ('\x27' :: (blanks ++ text)) [] cs
  | c :: cs =>
    if c == '\x27' then .closed (blanks ++ text) cs
    else if isBlank c then scanSingle text (c :: blanks) cs
    else scanSingle (c :: (blanks ++ text)) [] cs

/-- The character of an escape of one letter. -/
def escaped? : Char → Option Char
  | '0' => some '\x00'
  | 'a' => some '\x07'
  | 'b' => some '\x08'
  | 't' | '\t' => some '\t'
  | 'n' => some '\n'
  | 'v' => some '\x0B'
  | 'f' => some '\x0C'
  | 'r' => some '\r'
  | 'e' => some '\x1B'
  | ' ' => some ' '
  | '"' => some '"'
  | '/' => some '/'
  | '\\' => some '\\'
  | 'N' => some '\x85'
  | '_' => some '\xA0'
  | 'L' => some '\u2028'
  | 'P' => some '\u2029'
  | _ => none

/-- The character of an escape by its code point. -/
def codePoint? (digits : List Char) : Option Char :=
  (Text.ofDigits? 16 digits).bind fun n => if n.isValidChar then some (.ofNat n) else none

/-- Scans a line between double quotes; `blanks` have been read and not yet been kept. -/
def scanDouble (text blanks : List Char) : List Char → QuotedLine
  | [] => .continued text false
  | ['\\'] => .continued (blanks ++ text) true
  | '\\' :: 'x' :: a :: b :: cs => keep (codePoint? [a, b]) cs
  | '\\' :: 'u' :: a :: b :: c :: d :: cs => keep (codePoint? [a, b, c, d]) cs
  | '\\' :: 'U' :: a :: b :: c :: d :: e :: f :: g :: h :: cs =>
    keep (codePoint? [a, b, c, d, e, f, g, h]) cs
  | '\\' :: c :: cs => keep (escaped? c) cs
  | c :: cs =>
    if c == '"' then .closed (blanks ++ text) cs
    else if isBlank c then scanDouble text (c :: blanks) cs
    else scanDouble (c :: (blanks ++ text)) [] cs
where
  keep (c? : Option Char) (cs : List Char) : QuotedLine :=
    match c? with
    | some c => scanDouble (c :: (blanks ++ text)) [] cs
    | none => .malformed

end ResourceSchema.Yaml
