import ResourceSchema.Yaml.Block
import ResourceSchema.Yaml.Plain
import ResourceSchema.Yaml.Quoted
import ResourceSchema.Yaml.Scalar

/-!
# Reading YAML texts

The part of YAML that definitions are written in: one document of mappings and scalars, in block or
flow style, with comments, anchors and aliases. Sequences and tags have no place in a definition and
are refused with everything else that is malformed.

Functions on nodes carry a bound on their recursion. Twice the length of the text is enough, since
of two nested calls one takes a character.
-/

namespace ResourceSchema.Yaml

/-- Documents by the names of their anchors, the latest first. -/
abbrev Anchors := List (String × Document)

/-- What a node reader returns: the node, the anchors known after it, and the place after it. -/
abbrev Node := Document × Anchors × Place

/-- A node without any content. -/
def blankNode : Document := .scalar (plain "")

/-- The name of an anchor ends here, before a blank or a mark that no name holds. -/
def endsAnchor (cs : List Char) : Bool :=
  cs.head?.all fun c => isBlank c || "?:,]\x7d%@\x60".toList.contains c

/-- The name of an anchor, and what follows it. -/
def anchorName? (cs : List Char) : Option (String × List Char) :=
  let isNameChar (c : Char) : Bool := c.isAlphanum || c == '-' || c == '_'
  let name := cs.takeWhile isNameChar
  let rest := cs.dropWhile isNameChar
  if !name.isEmpty && endsAnchor rest then some (String.ofList name, rest) else none

/-! ## Scalars and keys -/

/-- Reads on a quoted text over the lines after one that it fills. -/
def continueQuoted? (scan : List Char → List Char → List Char → QuotedLine) (text : List Char)
    (escaped : Bool) (emptyLines : Nat) : List (List Char) → Option (String × Place)
  | [] => none
  | line :: later =>
    let body := line.dropWhile isBlank
    if body.isEmpty then continueQuoted? scan text escaped (emptyLines + 1) later
    else
      let gap := if escaped then List.replicate emptyLines '\n' else folded emptyLines
      match scan (gap ++ text) [] body with
      | .closed text rest => some (String.ofList text.reverse, ⟨0, rest, later⟩)
      | .continued text escaped => continueQuoted? scan text escaped 0 later
      | .malformed => none

/-- Reads a quoted text after its first quote. -/
def readQuoted? (scan : List Char → List Char → List Char → QuotedLine) (p : Place) :
    Option (String × Place) :=
  match scan [] [] p.here with
  | .closed text rest => some (String.ofList text.reverse, { p with here := rest })
  | .continued text escaped => continueQuoted? scan text escaped 0 p.later
  | .malformed => none

/-- Reads a scalar that is plain or in quotes, and the place after it. -/
def scalar? (inside : Bool) (least : Nat) (p : Place) : Option (Scalar × Place) :=
  match p.here with
  | '\x27' :: cs => (readQuoted? scanSingle { p with here := cs }).map fun (s, p) => (quoted s, p)
  | '"' :: cs => (readQuoted? scanDouble { p with here := cs }).map fun (s, p) => (quoted s, p)
  | here =>
    if startsPlain inside here then
      let (s, p) := readPlain inside least p
      some (plain s, p)
    else none

/-- A key on one line with the colon behind it, and what follows the colon. -/
def key? (here : List Char) : Option (String × List Char) := do
  let (text, rest) ← match here with
    | '\x27' :: cs => close? (scanSingle [] [] cs)
    | '"' :: cs => close? (scanDouble [] [] cs)
    | here => if startsPlain false here then some (scanPlain false [] [] here) else none
  match rest.dropWhile isBlank with
  | ':' :: rest => if startsBlank rest then some (String.ofList text.reverse, rest) else none
  | _ => none
where
  close? : QuotedLine → Option (List Char × List Char)
    | .closed text rest => some (text, rest)
    | _ => none

/-- What follows a mark that has a blank behind it. -/
def afterMark? (mark : Char) : List Char → Option (List Char)
  | c :: cs => if c == mark && startsBlank cs then some cs else none
  | [] => none

/-- An entry of a block mapping starts here, with its key or with a question mark. -/
def startsEntry (here : List Char) : Bool := (afterMark? '?' here).isSome || (key? here).isSome

/-! ## Flow style -/

mutual

/-- Reads a node inside brackets, which starts at the place. -/
def flowNode? : Nat → Anchors → Place → Option Node
  | 0, _, _ => none
  | bound + 1, anchors, p =>
    match p.here with
    | '\x7b' :: cs => flowEntries? bound [] anchors { p with here := cs }
    | '*' :: cs => do
      let (name, rest) ← anchorName? cs
      return (← anchors.lookup name, anchors, { p with here := rest })
    | '&' :: cs => do
      let (name, rest) ← anchorName? cs
      let (d, anchors, p) ← flowValue? bound anchors { p with here := rest }
      return (d, (name, d) :: anchors, p)
    | _ => (scalar? true 0 p).map fun (s, p) => (.scalar s, anchors, p)

/-- Reads a node inside brackets that may have no content. -/
def flowValue? : Nat → Anchors → Place → Option Node
  | 0, _, _ => none
  | bound + 1, anchors, p =>
    let p := p.skip
    match p.here with
    | ',' :: _ | '\x7d' :: _ => some (blankNode, anchors, p)
    | _ => flowNode? bound anchors p

/-- Reads the entries of a mapping in braces, the closing one included; `entries` are those before,
newest first. A key and its colon stand on one line; a key without a colon has no content. -/
def flowEntries? : Nat → List (String × Document) → Anchors → Place → Option Node
  | 0, _, _, _ => none
  | bound + 1, entries, anchors, p =>
    let p := p.skip
    match p.here with
    | '\x7d' :: cs => some (.mapping entries.reverse, anchors, { p with here := cs })
    | _ => do
      let (key, after) ← scalar? true 0 p
      let name ← key.text
      let (d, anchors, p) ← match after.here.dropWhile isBlank with
        | ':' :: rest =>
          if after.later.length = p.later.length && (!isPlainKey p || startsBlank rest) then
            flowValue? bound anchors { after with here := rest }
          else none
        | _ => some (blankNode, anchors, after)
      let p := p.skip
      match p.here with
      | ',' :: cs => flowEntries? bound ((name, d) :: entries) anchors { p with here := cs }
      | '\x7d' :: _ => flowEntries? bound ((name, d) :: entries) anchors p
      | _ => none
where
  isPlainKey (p : Place) : Bool := !p.here.head?.any fun c => c == '\x27' || c == '"'

end

/-! ## Block style -/

mutual

/-- Reads a node that starts its line, or has no content because the line is indented by less than
`least`. The place after it is the next content. -/
def blockNode? : Nat → Nat → Anchors → Place → Option Node
  | 0, _, _, _ => none
  | bound + 1, least, anchors, p =>
    if p.here.isEmpty || p.indent < least then some (blankNode, anchors, p)
    else if startsEntry p.here then blockEntries? bound p.indent [] anchors p
    else valueNode? bound least anchors p

/-- Reads a node that may start behind other content of its line, where no block mapping starts. The
place after it is the next content. -/
def valueNode? : Nat → Nat → Anchors → Place → Option Node
  | 0, _, _, _ => none
  | bound + 1, least, anchors, p =>
    let here := p.here.dropWhile isBlank
    if isVoid here then do blockNode? bound least anchors (← p.next?)
    else do
      match here with
      | '&' :: cs =>
        let (name, rest) ← anchorName? cs
        let (d, anchors, p) ← valueNode? bound least anchors { p with here := rest }
        return (d, (name, d) :: anchors, p)
      | '*' :: cs =>
        let (name, rest) ← anchorName? cs
        return (← anchors.lookup name, anchors, ← { p with here := rest }.next?)
      | '|' :: cs =>
        let (s, p) ← readBlock? true least cs p.later
        return (.scalar (quoted s), anchors, ← p.next?)
      | '>' :: cs =>
        let (s, p) ← readBlock? false least cs p.later
        return (.scalar (quoted s), anchors, ← p.next?)
      | '\x7b' :: _ =>
        let (d, anchors, p) ← flowNode? bound anchors { p with here }
        return (d, anchors, ← p.next?)
      | here =>
        let (s, p) ← scalar? false least { p with here }
        return (.scalar s, anchors, ← p.next?)

/-- Reads a node behind a mark at the place, where a block mapping may start on the same line. -/
def markedNode? : Nat → Place → List Char → Anchors → Option Node
  | 0, _, _, _ => none
  | bound + 1, p, rest, anchors =>
    if isVoid (rest.dropWhile isBlank) then
      valueNode? bound (p.indent + 1) anchors { p with here := rest }
    else
      let (n, here) := takeSpaces rest
      blockNode? bound (p.indent + 1) anchors { p with indent := p.indent + 1 + n, here }

/-- Reads the entries of a block mapping at a column, from the next content; `entries` are those
before, newest first. A key stands on one line with its colon, or behind a question mark with the
colon in the same column of a later line. -/
def blockEntries? : Nat → Nat → List (String × Document) → Anchors → Place → Option Node
  | 0, _, _, _, _ => none
  | bound + 1, column, entries, anchors, p =>
    if p.here.isEmpty || p.indent < column then some (.mapping entries.reverse, anchors, p)
    else if column < p.indent then none
    else do
      match afterMark? '?' p.here with
      | some rest =>
        let (key, anchors, p) ← markedNode? bound p rest anchors
        let name ← key.text?
        match afterMark? ':' (if p.indent = column then p.here else []) with
        | some rest =>
          let (d, anchors, p) ← markedNode? bound p rest anchors
          blockEntries? bound column ((name, d) :: entries) anchors p
        | none => blockEntries? bound column ((name, blankNode) :: entries) anchors p
      | none =>
        let (name, rest) ← key? p.here
        let (d, anchors, p) ← valueNode? bound (column + 1) anchors { p with here := rest }
        blockEntries? bound column ((name, d) :: entries) anchors p

end

/-! ## Documents -/

/-- Characters that may stand in a text. -/
def isTextChar (c : Char) : Bool :=
  let n := c.toNat
  c == '\t' || c == '\n' || c == '\r' || 0x20 ≤ n && n ≤ 0x7E || n == 0x85 ||
    0xA0 ≤ n && n ≤ 0xFFFD || 0x10000 ≤ n

/-- What follows a document marker, `---` or `...` at the start of a line. -/
def afterMarker? (marker line : List Char) : Option (List Char) :=
  let rest := line.drop marker.length
  if marker.isPrefixOf line && startsBlank rest then some rest else none

def startMarker : List Char := "---".toList
def endMarker : List Char := "...".toList

def isMarker (line : List Char) : Bool :=
  (afterMarker? startMarker line).isSome || (afterMarker? endMarker line).isSome

/-- Nothing but empty lines, comments and end markers. -/
def isTail (lines : List (List Char)) : Bool :=
  lines.all fun line =>
    isVoid (((afterMarker? endMarker line).getD line).dropWhile isBlank)

/-- Reads the lines of a document up to the marker that ends it. -/
def document? (read : List (List Char) → Option Node) (lines : List (List Char)) :
    Option Document := do
  let body := lines.takeWhile (!isMarker ·)
  let tail := lines.dropWhile (!isMarker ·)
  guard (isTail tail)
  let (d, _, p) ← read (if tail.isEmpty then body else body ++ [[]])
  guard p.here.isEmpty
  return d

end Yaml

/-- The document of a YAML text; `none` when the text is malformed. -/
def Document.ofYaml? (text : String) : Option Document := do
  let cs := text.toList
  guard (cs.all Yaml.isTextChar)
  let cs := if cs.head? = some '\uFEFF' then cs.tail else cs
  let bound := 2 * cs.length + 4
  let lines := (Yaml.linesOf cs).dropWhile fun line => Yaml.isVoid (Yaml.takeSpaces line).2
  match lines with
  | line :: later =>
    match Yaml.afterMarker? Yaml.startMarker line with
    | some rest =>
      Yaml.document? (fun body => Yaml.valueNode? bound 0 [] ⟨0, rest, body⟩) later
    | none =>
      Yaml.document? (fun body => do Yaml.blockNode? bound 0 [] (← Yaml.Place.ofLines? body)) lines
  | [] => some Yaml.blankNode

end ResourceSchema
