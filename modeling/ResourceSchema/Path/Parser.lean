import ResourceSchema.Path.Error
import ResourceSchema.Text.Alphanumeric

/-!
# Reading paths

A path text is a sequence of steps: names, with a point before each but a first one, indices `[3]`
and keys `["k"]`. Set elements have no text that can be read.
-/

namespace ResourceSchema.Path

/-- A character of a name. -/
def isNameChar (c : Char) : Bool := Text.isAlphanumeric c || c == '_'

/-- A character that does not end a name. -/
def continuesName (c : Char) : Bool := c != '.' && c != '['

/-- Count of the bytes of a text. -/
def byteCount : List Char → Nat
  | [] => 0
  | c :: cs => c.utf8Size + byteCount cs

/-- Byte position of the end part `rest` in a text of `total` bytes. -/
def position (total : Nat) (rest : List Char) : Nat := total - byteCount rest

/-- A list index: decimal digits with an optional sign, within 64 bits. -/
def readIndex? (cs : List Char) : Option Int :=
  let (negative, body) := takeSign cs
  match takeDigits body with
  | ([], _) | (_, _ :: _) => none
  | (ds, []) =>
    let i : Int := if negative then -(ofDigits ds : Int) else ofDigits ds
    if -0x8000000000000000 ≤ i ∧ i < 0x8000000000000000 then some i else none

/-- The characters of a key up to its quote, a backslash standing for the character after it, and
the text after the quote. -/
def readKey? : List Char → Option (List Char × List Char)
  | [] => none
  | '\\' :: c :: cs => (readKey? cs).map fun (key, rest) => (c :: key, rest)
  | c :: cs =>
    if c == '"' then some ([], cs)
    else if c == '\\' then none
    else (readKey? cs).map fun (key, rest) => (c :: key, rest)

/-- The step inside a bracket that has been opened, and the text after the bracket. -/
def readBracket (total : Nat) (cs : List Char) : Except PathError (PathStep × List Char) :=
  match cs with
  | '"' :: cs =>
    match readKey? cs with
    | none => .error .unterminatedKey
    | some (key, ']' :: rest) => .ok (.key (String.ofList key), rest)
    | some (_, []) => .error .unterminatedKey
    | some (_, c :: rest) => .error (.unexpectedCharacter (position total (c :: rest)) c)
  | cs =>
    let raw := cs.takeWhile (· != ']')
    match cs.dropWhile (· != ']') with
    | [] => .error .unterminatedKey
    | _ :: rest =>
      match readIndex? raw with
      | some i => .ok (.index i, rest)
      | none => .error (.invalidIndex (String.ofList raw))

/-- The name a text starts with, and the text after it. -/
def readName (cs : List Char) : Except PathError (PathStep × List Char) :=
  let name := cs.takeWhile continuesName
  if name.isEmpty then .error .emptySegment
  else if name.all isNameChar then .ok (.name (String.ofList name), cs.dropWhile continuesName)
  else .error (.invalidSegment (String.ofList name))

theorem readKey?_length {cs key rest : List Char} (h : readKey? cs = some (key, rest)) :
    rest.length < cs.length := by
  induction cs using readKey?.induct generalizing key with
  | case1 => simp [readKey?] at h
  | case2 c cs ih =>
    simp only [readKey?, Option.map_eq_some_iff, Prod.mk.injEq] at h
    obtain ⟨⟨key', rest'⟩, hrec, _, rfl⟩ := h
    have := ih hrec
    simp only [List.length_cons] at this ⊢
    omega
  | case3 c cs hesc hq =>
    unfold readKey? at h
    simp_all
  | case4 c cs hesc hq hb =>
    unfold readKey? at h
    simp_all
  | case5 c cs hesc hq hb ih =>
    unfold readKey? at h
    simp only [hq, hb, if_false, Option.map_eq_some_iff, Prod.mk.injEq, Bool.false_eq_true] at h
    obtain ⟨⟨key', rest'⟩, hrec, _, rfl⟩ := h
    have := ih hrec
    simp only [List.length_cons] at this ⊢
    omega

theorem readBracket_length {total : Nat} {cs rest : List Char} {step : PathStep}
    (h : readBracket total cs = .ok (step, rest)) : rest.length < cs.length := by
  unfold readBracket at h
  split at h
  · split at h <;> try contradiction
    next hkey =>
      have := readKey?_length hkey
      simp only [Except.ok.injEq, Prod.mk.injEq] at h
      simp only [List.length_cons, ← h.2] at *
      omega
  · split at h
    · contradiction
    · next hdrop =>
      dsimp only at h
      have hle := (List.dropWhile_suffix (· != ']') (l := cs)).length_le
      rw [hdrop] at hle
      split at h <;> simp at h
      simp only [List.length_cons, ← h.2] at *
      omega

theorem readName_length {cs rest : List Char} {step : PathStep}
    (h : readName cs = .ok (step, rest)) : rest.length < cs.length := by
  unfold readName at h
  dsimp only at h
  have hlen : (cs.takeWhile continuesName).length + (cs.dropWhile continuesName).length =
      cs.length := by
    rw [← List.length_append, List.takeWhile_append_dropWhile]
  split at h
  · contradiction
  · next hne =>
    have hpos : 0 < (cs.takeWhile continuesName).length :=
      List.length_pos_iff.2 fun h => hne (by simp [h])
    split at h <;> simp at h
    simp only [← h.2]
    omega

/-- The step that starts with `c`, and the text after it. Only the first step of a path may be a
name without a point before it. -/
def readStep (total : Nat) (first : Bool) (c : Char) (cs : List Char) :
    Except PathError (PathStep × List Char) :=
  if c = '[' then readBracket total cs
  else if first then readName (c :: cs)
  else if c = '.' then readName cs
  else .error (.unexpectedCharacter (position total (c :: cs)) c)

theorem readStep_length {total : Nat} {first : Bool} {c : Char} {cs rest : List Char}
    {step : PathStep} (h : readStep total first c cs = .ok (step, rest)) :
    rest.length < (c :: cs).length := by
  unfold readStep at h
  split at h
  · exact Nat.lt_succ_of_lt (readBracket_length h)
  · split at h
    · exact readName_length h
    · split at h
      · exact Nat.lt_succ_of_lt (readName_length h)
      · contradiction

/-- Reads steps up to the end of the text; `first` while no step has been read. -/
def readSteps (total : Nat) (first : Bool) : List Char → Except PathError Path
  | [] => .ok []
  | c :: cs =>
    match _h : readStep total first c cs with
    | .error e => .error e
    | .ok (step, rest) => (readSteps total false rest).map (step :: ·)
termination_by cs => cs.length
decreasing_by exact readStep_length _h

/-- The path a text writes. -/
def ofText (text : String) : Except PathError Path :=
  readSteps text.utf8ByteSize true text.toList

end ResourceSchema.Path
