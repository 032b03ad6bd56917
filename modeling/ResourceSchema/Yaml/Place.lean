/-!
# Places in texts of several lines

The structure of a YAML text hangs on its lines and their indentation, so a place keeps the rest of
its line apart from the lines after it. The last line is the one without a line break.
-/

namespace ResourceSchema.Yaml

def isBlank (c : Char) : Bool := c == ' ' || c == '\t'

/-- A text as lines, which end at a line feed, a carriage return, both, or U+0085. -/
def linesOf : List Char → List (List Char)
  | [] => [[]]
  | '\r' :: '\n' :: cs => [] :: linesOf cs
  | c :: cs =>
    if c == '\n' || c == '\r' || c == '\x85' then [] :: linesOf cs
    else match linesOf cs with
      | [] => [[c]]
      | line :: later => (c :: line) :: later

/-- The count of spaces that a line starts with, and what follows them. -/
def takeSpaces : List Char → Nat × List Char
  | ' ' :: cs => let (n, rest) := takeSpaces cs; (n + 1, rest)
  | cs => (0, cs)

/-- Nothing, or nothing but a comment. -/
def isVoid : List Char → Bool
  | [] => true
  | c :: _ => c == '#'

structure Place where
  /-- Column of the first content of the line. -/
  indent : Nat
  /-- The rest of the line. -/
  here : List Char
  /-- The lines after it. -/
  later : List (List Char)

namespace Place

/-- The place after the last line. -/
def finish : Place := ⟨0, [], []⟩

/-- The first content of some lines; a tab does not indent. -/
def ofLines? : List (List Char) → Option Place
  | [] => some finish
  | line :: later =>
    let (n, here) := takeSpaces line
    if isVoid here then ofLines? later
    else if here.head? = some '\t' then none
    else some ⟨n, here, later⟩

/-- The first content of the following lines, where nothing else may stand on this one. -/
def next? (p : Place) : Option Place :=
  if isVoid (p.here.dropWhile isBlank) then ofLines? p.later else none

/-- The next content, on this line or another, whatever its indentation. -/
def skip (p : Place) : Place :=
  let here := p.here.dropWhile isBlank
  if isVoid here then skipLines p.later else { p with here }
where
  skipLines : List (List Char) → Place
    | [] => finish
    | line :: later =>
      let here := line.dropWhile isBlank
      if isVoid here then skipLines later else ⟨0, here, later⟩

end Place

/-- What takes the place of line breaks in a text that flows over them: a blank for one, and of
several all but the first. -/
def folded (emptyLines : Nat) : List Char :=
  if emptyLines = 0 then [' '] else List.replicate emptyLines '\n'

end ResourceSchema.Yaml
