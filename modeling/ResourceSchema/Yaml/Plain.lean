import ResourceSchema.Yaml.Place

/-!
# Plain scalars

A plain scalar has no quotes. It ends before a colon with a blank behind it, before a comment, and
inside brackets also before a comma or a bracket; it may run over several lines.
-/

namespace ResourceSchema.Yaml

/-- Nothing, or a blank. -/
def startsBlank (cs : List Char) : Bool := cs.head?.all isBlank

def isBracketMark (c : Char) : Bool := ",[]\x7b\x7d".toList.contains c

/-- Characters that have another meaning at the start of a node. -/
def isIndicator (c : Char) : Bool := ",[]\x7b\x7d#&*!|>\x27\"%@\x60".toList.contains c

/-- Whether a plain scalar starts here; `inside` tells whether brackets are open. -/
def startsPlain (inside : Bool) : List Char → Bool
  | [] => false
  | c :: cs =>
    if c == '-' then !startsBlank cs
    else if c == '?' || c == ':' then !inside && !startsBlank cs
    else !isBlank c && !isIndicator c

/-- Whether `c`, with `cs` behind it, ends a plain scalar. -/
def endsPlain (inside afterBlank : Bool) (c : Char) (cs : List Char) : Bool :=
  match c with
  | '#' => afterBlank
  | ':' => startsBlank cs || inside && cs.head?.any fun d => isBracketMark d || d == '?'
  | c => inside && isBracketMark c

/-- Scans a line for a plain scalar. The text is collected newest first, without the `blanks` that
have been read last; these are left to the rest of the line. -/
def scanPlain (inside : Bool) (text blanks : List Char) : List Char → List Char × List Char
  | [] => (text, blanks)
  | c :: cs =>
    if isBlank c then scanPlain inside text (c :: blanks) cs
    else if endsPlain inside (!blanks.isEmpty) c cs then (text, blanks.reverse ++ c :: cs)
    else scanPlain inside (c :: (blanks ++ text)) [] cs

/-- Follows a plain scalar that has filled its line up to `done` over the next lines, after
`emptyLines` of them. Outside of brackets these are indented by `least` at least, unless they are
empty. -/
def continuePlain (inside : Bool) (least : Nat) (text : List Char) (done : Place)
    (emptyLines : Nat) : List (List Char) → List Char × Place
  | [] => (text, done)
  | line :: later =>
    let (n, rest) := takeSpaces line
    let body := line.dropWhile isBlank
    if !inside && n < least && !rest.isEmpty then (text, done)
    else if body.isEmpty then
      continuePlain inside least text ⟨0, [], later⟩ (emptyLines + 1) later
    else if body.head? = some '#' then (text, ⟨0, body, later⟩)
    else
      match scanPlain inside [] [] body with
      | ([], _) => (text, done)
      | (more, rest) =>
        let text := more ++ folded emptyLines ++ text
        if rest.all isBlank then continuePlain inside least text ⟨0, [], later⟩ 0 later
        else (text, ⟨0, rest, later⟩)

/-- Reads a plain scalar, and the place after it. -/
def readPlain (inside : Bool) (least : Nat) (p : Place) : String × Place :=
  let (text, rest) := scanPlain inside [] [] p.here
  let (text, p) :=
    if rest.all isBlank then continuePlain inside least text { p with here := [] } 0 p.later
    else (text, { p with here := rest })
  (String.ofList text.reverse, p)

end ResourceSchema.Yaml
