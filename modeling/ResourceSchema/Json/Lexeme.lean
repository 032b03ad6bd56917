import ResourceSchema.Text.Basic

/-!
# Lexemes of JSON texts

A text is a sequence of punctuation marks, quoted strings and bare words, with blanks between them.
A word runs up to the next blank, mark or quote; whether it is a literal is for its reader to say.
-/

namespace ResourceSchema.Json

inductive Lexeme where
  | mark (c : Char)
  | quoted (text : String)
  | word (text : String)

namespace Lexeme

def isBlank (c : Char) : Bool := c == ' ' || c == '\n' || c == '\t' || c == '\r'

def isMark (c : Char) : Bool := "[]\x7b\x7d,:".toList.contains c

/-- The character of an escape of one letter. -/
def escaped? : Char → Option Char
  | '"' => some '"'
  | '\\' => some '\\'
  | '/' => some '/'
  | 'b' => some '\x08'
  | 'f' => some '\x0C'
  | 'n' => some '\n'
  | 'r' => some '\r'
  | 't' => some '\t'
  | _ => none

/-- Outcome of an escape by code unit: half of a pair to be completed, or a character. -/
inductive CodeUnit where
  | high (unit : Nat)
  | char (c : Char)

/-- Joins a code unit to the first half of a pair that may stand before it. Halves that do not meet
their other half are refused. -/
def join? (half : Option Nat) (unit : Nat) : Option CodeUnit :=
  let isHigh := 0xD800 ≤ unit ∧ unit ≤ 0xDBFF
  let isLow := 0xDC00 ≤ unit ∧ unit ≤ 0xDFFF
  match half with
  | none => if isLow then none else if isHigh then some (.high unit) else some (.char (.ofNat unit))
  | some high =>
    if isLow then some (.char (.ofNat (0x10000 + (high - 0xD800) * 0x400 + (unit - 0xDC00))))
    else none

/-- Adds the word that has been collected, newest character first, to the lexemes. -/
def close (done : List Lexeme) (word : List Char) : List Lexeme :=
  if word.isEmpty then done else .word (String.ofList word.reverse) :: done

mutual

/-- Scans outside of strings; `done` and `word` are collected newest first. -/
def scan (done : List Lexeme) (word : List Char) : List Char → Option (List Lexeme)
  | [] => some (close done word).reverse
  | c :: cs =>
    if isBlank c then scan (close done word) [] cs
    else if isMark c then scan (.mark c :: close done word) [] cs
    else if c == '"' then scanString (close done word) [] none cs
    else scan done (c :: word) cs

/-- Scans inside a string; `half` is the first half of a pair of code units. A string ends at its
quote, holds no raw controls and no half of a pair by itself. -/
def scanString (done : List Lexeme) (text : List Char) (half : Option Nat) :
    List Char → Option (List Lexeme)
  | [] => none
  | '\\' :: 'u' :: a :: b :: c :: d :: cs =>
    match (Text.ofDigits? 16 [a, b, c, d]).bind (join? half) with
    | none => none
    | some (.high unit) => scanString done text (some unit) cs
    | some (.char c) => scanString done (c :: text) none cs
  | '\\' :: c :: cs =>
    match half, escaped? c with
    | none, some c => scanString done (c :: text) none cs
    | _, _ => none
  | c :: cs =>
    if half.isSome || c < ' ' || c == '\\' then none
    else if c == '"' then scan (.quoted (String.ofList text.reverse) :: done) [] cs
    else scanString done (c :: text) none cs

end

/-- The lexemes of a text; `none` when a string in it is malformed. -/
def ofText? (text : String) : Option (List Lexeme) := scan [] [] text.toList

end Lexeme
end ResourceSchema.Json
