import ResourceSchema.Text.Basic
import ResourceSchema.Yaml.Place

/-!
# Literal and folded scalars

The text of a block is the indented lines below its header. A literal block keeps its line breaks, a
folded one turns a break between two lines that start with content into a blank. The header says
what becomes of the breaks at the end.
-/

namespace ResourceSchema.Yaml

/-- What stays of the line breaks that end a block. -/
inductive Chomping where
  | strip
  /-- One break. -/
  | clip
  | keep

structure BlockHeader where
  literal : Bool
  chomping : Chomping
  /-- Spaces added to the indentation around the block, if the header says how many. -/
  added : Option Nat

/-- Reads the marks of a header, each kind at most once, up to a blank or the end. -/
def BlockHeader.read? (literal : Bool) : List Char → Option BlockHeader
  | c :: d :: cs => match mark? c, mark? d with
    | some (.inl chomping), some (.inr n) | some (.inr n), some (.inl chomping) =>
      close ⟨literal, chomping, some n⟩ cs
    | some m, none => close (single m) (d :: cs)
    | none, _ => close ⟨literal, .clip, none⟩ (c :: d :: cs)
    | _, _ => none
  | [c] => match mark? c with
    | some m => some (single m)
    | none => close ⟨literal, .clip, none⟩ [c]
  | [] => some ⟨literal, .clip, none⟩
where
  mark? (c : Char) : Option (Chomping ⊕ Nat) :=
    if c == '-' then some (.inl .strip)
    else if c == '+' then some (.inl .keep)
    else if '1' ≤ c ∧ c ≤ '9' then some (.inr (c.toNat - '0'.toNat))
    else none
  single : Chomping ⊕ Nat → BlockHeader
    | .inl chomping => ⟨literal, chomping, none⟩
    | .inr n => ⟨literal, .clip, some n⟩
  close (h : BlockHeader) (cs : List Char) : Option BlockHeader :=
    if isVoid (cs.dropWhile isBlank) then some h else none

/-- The indentation of a block without a stated one: the first line with content has it, and no
empty line before it is longer. A tab does not indent. -/
def detectIndent? (least : Nat) : List (List Char) → Option Nat
  | [] => some least
  | line :: later =>
    let (n, rest) := takeSpaces line
    if rest.isEmpty then detectIndent? (max least n) later
    else if rest.head? = some '\t' then none
    else some (max least n)

/-- A block text while its lines are read. -/
structure BlockText where
  /-- What is settled, newest character first. -/
  text : List Char
  /-- The last line with content, if there was one and it has a line break: whether it starts with
  a blank. -/
  last : Option Bool
  /-- Line breaks of empty lines since. -/
  breaks : Nat

namespace BlockText

def empty : BlockText := ⟨[], none, 0⟩

/-- Adds a line with content; `ended` tells whether a line break ends it. -/
def addLine (literal : Bool) (line : List Char) (ended : Bool) (b : BlockText) : BlockText :=
  let blank := line.head?.any isBlank
  let between := match b.last with
    | none => List.replicate b.breaks '\n'
    | some lastBlank =>
      if literal || blank || lastBlank then List.replicate (b.breaks + 1) '\n'
      else folded b.breaks
  ⟨line.reverse ++ between ++ b.text, if ended then some blank else none, 0⟩

/-- The text with the breaks at its end that stay. -/
def close (chomping : Chomping) (b : BlockText) : String :=
  let one := if b.last.isSome then ['\n'] else []
  let tail := match chomping with
    | .strip => []
    | .clip => one
    | .keep => List.replicate b.breaks '\n' ++ one
  String.ofList (tail ++ b.text).reverse

end BlockText

/-- The first `n` spaces of a line are dropped; with fewer spaces the line has no content of the
block. -/
def dropIndent : Nat → List Char → List Char × Nat
  | n + 1, ' ' :: cs => dropIndent n cs
  | n, cs => (cs, n)

/-- Reads the lines of a block up to one that is indented less, and returns the lines from there. A
tab does not indent. -/
def readBlockLines (literal : Bool) (indent : Nat) (b : BlockText) :
    List (List Char) → Option (BlockText × List (List Char))
  | [] => some (b, [])
  | line :: later =>
    match dropIndent indent line with
    | ([], _) =>
      if later.isEmpty then some (b, [])
      else readBlockLines literal indent { b with breaks := b.breaks + 1 } later
    | (body, 0) => readBlockLines literal indent (b.addLine literal body !later.isEmpty) later
    | (body, _ + 1) => if body.head? = some '\t' then none else some (b, line :: later)

/-- Reads a block; `here` is what follows the bar or the bracket of its header, and `least` the
smallest indentation it may have. -/
def readBlock? (literal : Bool) (least : Nat) (here : List Char) (later : List (List Char)) :
    Option (String × Place) := do
  let header ← BlockHeader.read? literal here
  let indent ← match header.added with
    | some n => some (least - 1 + n)
    | none => detectIndent? (max least 1) later
  let (b, later) ← readBlockLines literal indent .empty later
  return (b.close header.chomping, ⟨0, [], later⟩)

end ResourceSchema.Yaml
