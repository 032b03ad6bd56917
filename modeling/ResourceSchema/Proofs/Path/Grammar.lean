import ResourceSchema.Proofs.Except
import ResourceSchema.Proofs.Path.Text

/-!
# The grammar of path texts

A text is read as a path exactly if it splits into texts of the steps of that path
(`Path.ofText_spec`). The grammar is stated without the reader: what stands in brackets, what a name
is, and where a point stands before it. For each part the reader takes what the grammar calls a text
of that part and leaves the text after it, so that a whole text is read step by step. Where the
reader stops at a character, it counts the bytes before it.
-/

namespace ResourceSchema.Path

/-! ## The grammar -/

/-- Texts of keys: a backslash stands for the character after it, all characters but the quote and
the backslash stand for themselves. -/
inductive KeyText : List Char → List Char → Prop
  | nil : KeyText [] []
  | escaped {cs key : List Char} (c : Char) (h : KeyText cs key) :
      KeyText ('\\' :: c :: cs) (c :: key)
  | plain {c : Char} {cs key : List Char} (hquote : c ≠ '"') (hback : c ≠ '\\')
      (h : KeyText cs key) : KeyText (c :: cs) (c :: key)

/-- ASCII digits, at least one of them. -/
def IsDigits (cs : List Char) : Prop := cs ≠ [] ∧ ∀ c ∈ cs, c.isDigit = true

/-- Decimal texts of integers, with or without a sign. -/
inductive IntegerText : List Char → Int → Prop
  | unsigned {cs : List Char} (h : IsDigits cs) : IntegerText cs (Nat.ofDigitChars 10 cs 0)
  | plus {cs : List Char} (h : IsDigits cs) : IntegerText ('+' :: cs) (Nat.ofDigitChars 10 cs 0)
  | minus {cs : List Char} (h : IsDigits cs) : IntegerText ('-' :: cs) (-Nat.ofDigitChars 10 cs 0)

/-- What stands behind the opening bracket of a step, up to the closing one: an index within 64
bits, or a key in quotes. -/
inductive BracketText : List Char → PathStep → Prop
  | index {cs : List Char} {i : Int} (hend : ']' ∉ cs) (h : IntegerText cs i)
      (hi : -0x8000000000000000 ≤ i ∧ i < 0x8000000000000000) :
      BracketText (cs ++ [']']) (.index i)
  | key {cs key : List Char} (h : KeyText cs key) :
      BracketText ('"' :: (cs ++ ['"', ']'])) (.key (String.ofList key))

/-- A name before the text `rest`: it has no point and no opening bracket, all its characters are
alphanumeric or underscores, and it goes as far as it can. -/
structure NameText (name rest : List Char) : Prop where
  ne_nil : name ≠ []
  delimited : ∀ c ∈ name, c ≠ '.' ∧ c ≠ '['
  chars : ∀ c ∈ name, Text.isAlphanumeric c = true ∨ c = '_'
  maximal : ∀ c ∈ rest.head?, c = '.' ∨ c = '['

/-- Texts of a step before the text `rest`. A name has a point before it unless it is the `first`
step of a path; a bracket never has. -/
inductive StepText : Bool → List Char → List Char → PathStep → Prop
  | bracket {first : Bool} {cs rest : List Char} {s : PathStep} (h : BracketText cs s) :
      StepText first ('[' :: cs) rest s
  | firstName {name rest : List Char} (h : NameText name rest) :
      StepText true name rest (.name (String.ofList name))
  | name {name rest : List Char} (h : NameText name rest) :
      StepText false ('.' :: name) rest (.name (String.ofList name))

/-- The text splits into texts of the steps of the path; `first` while no step stands before
them. -/
inductive Spells : Bool → List Char → Path → Prop
  | nil {first : Bool} : Spells first [] []
  | cons {first : Bool} {cs rest : List Char} {s : PathStep} {p : Path}
      (h : StepText first cs rest s) (hrest : Spells false rest p) :
      Spells first (cs ++ rest) (s :: p)

variable {c found : Char} {cs rest key body : List Char} {i : Int} {s : PathStep} {p : Path}
  {total position : Nat} {first negative : Bool}

/-! ## Keys -/

theorem KeyText.readKey? (h : KeyText cs key) (rest : List Char) :
    readKey? (cs ++ '"' :: rest) = some (key, rest) := by
  induction h with
  | nil => rfl
  | escaped c h ih =>
    rw [List.cons_append, List.cons_append, Path.readKey?, ih]
    rfl
  | plain hquote hback h ih =>
    rw [List.cons_append, Path.readKey?]
    · simp [ih, hquote, hback]
    · exact fun _ _ heq => absurd heq hback

theorem exists_keyText (h : readKey? cs = some (key, rest)) :
    ∃ text, KeyText text key ∧ cs = text ++ '"' :: rest := by
  induction cs using readKey?.induct generalizing key with
  | case1 => cases h
  | case2 c cs ih =>
    rw [readKey?, Option.map_eq_some_iff] at h
    obtain ⟨⟨key', rest'⟩, hread, heq⟩ := h
    obtain ⟨rfl, rfl⟩ := Prod.mk.inj heq
    obtain ⟨text, htext, rfl⟩ := ih hread
    exact ⟨_, htext.escaped c, rfl⟩
  | case3 c cs hesc hquote =>
    obtain rfl := eq_of_beq hquote
    cases h
    exact ⟨[], .nil, rfl⟩
  | case4 c cs hesc hquote hback =>
    rw [readKey?.eq_3 _ _ hesc, if_neg hquote, if_pos hback] at h
    cases h
  | case5 c cs hesc hquote hback ih =>
    rw [readKey?.eq_3 _ _ hesc, if_neg hquote, if_neg hback, Option.map_eq_some_iff] at h
    obtain ⟨⟨key', rest'⟩, hread, heq⟩ := h
    obtain ⟨rfl, rfl⟩ := Prod.mk.inj heq
    obtain ⟨text, htext, rfl⟩ := ih hread
    exact ⟨_, htext.plain (by simpa using hquote) (by simpa using hback), rfl⟩

/-! ## Indices -/

/-- An index is its digits behind its sign. -/
theorem readIndex?_of_takeSign (hsign : takeSign cs = (negative, body)) :
    readIndex? cs = some i ↔ IsDigits body ∧
      i = (if negative then -(Nat.ofDigitChars 10 body 0 : Int) else Nat.ofDigitChars 10 body 0) ∧
      -0x8000000000000000 ≤ i ∧ i < 0x8000000000000000 := by
  rw [readIndex?, hsign]
  by_cases hbody : IsDigits body
  · obtain ⟨c, digits, rfl⟩ := List.exists_cons_of_ne_nil hbody.1
    have hread := takeDigits_of_isDigit hbody.2
    have hvalue := ofDigits_map (c :: digits)
    rw [List.map_cons] at hread hvalue
    simp only [hread, hvalue]
    generalize (if negative = true then -(Nat.ofDigitChars 10 (c :: digits) 0 : Int)
      else Nat.ofDigitChars 10 (c :: digits) 0) = value
    rw [Option.ite_none_right_eq_some, Option.some_inj]
    constructor
    · rintro ⟨hvalue, rfl⟩
      exact ⟨hbody, rfl, hvalue⟩
    · rintro ⟨-, rfl, hi⟩
      exact ⟨hi, rfl⟩
  · refine iff_of_false (fun h => hbody ?_) fun h => hbody h.1
    dsimp only at h
    split at h
    · cases h
    · cases h
    · next ds hne hread =>
      refine ⟨?_, isDigit_of_takeDigits hread⟩
      rintro rfl
      cases hread
      exact hne rfl

theorem takeSign_of_isDigits (h : IsDigits cs) : takeSign cs = (false, cs) := by
  unfold takeSign
  split
  · exact absurd (h.2 '+' List.mem_cons_self) (by decide)
  · exact absurd (h.2 '-' List.mem_cons_self) (by decide)
  · rfl

theorem integerText_of_takeSign (hsign : takeSign cs = (negative, body)) (h : IsDigits body) :
    IntegerText cs (if negative then -(Nat.ofDigitChars 10 body 0 : Int)
      else Nat.ofDigitChars 10 body 0) := by
  unfold takeSign at hsign
  split at hsign <;> cases hsign
  · exact .plus h
  · exact .minus h
  · exact .unsigned h

theorem readIndex?_eq_some_iff : readIndex? cs = some i ↔
    IntegerText cs i ∧ -0x8000000000000000 ≤ i ∧ i < 0x8000000000000000 := by
  constructor
  · intro h
    obtain ⟨hdigits, rfl, hi⟩ := (readIndex?_of_takeSign rfl).1 h
    exact ⟨integerText_of_takeSign rfl hdigits, hi⟩
  · rintro ⟨h, hi⟩
    cases h with
    | unsigned h => exact (readIndex?_of_takeSign (takeSign_of_isDigits h)).2 ⟨h, rfl, hi⟩
    | plus h => exact (readIndex?_of_takeSign rfl).2 ⟨h, rfl, hi⟩
    | minus h => exact (readIndex?_of_takeSign rfl).2 ⟨h, rfl, hi⟩

/-! ## Steps -/

theorem forall_mem_takeWhile {q : Char → Bool} : ∀ c ∈ cs.takeWhile q, q c = true :=
  List.all_eq_true.1 List.all_takeWhile

/-- What is read behind an opening bracket is the text of a step. -/
theorem exists_bracketText (h : readBracket total cs = .ok (s, rest)) :
    ∃ text, BracketText text s ∧ cs = text ++ rest := by
  unfold readBracket at h
  split at h
  · split at h <;> cases h
    next key hkey =>
    obtain ⟨text, htext, rfl⟩ := exists_keyText hkey
    exact ⟨_, .key htext, by simp⟩
  · dsimp only at h
    split at h
    · cases h
    · next d rest' hdrop =>
      split at h <;> cases h
      next i hi =>
      obtain ⟨htext, hrange⟩ := readIndex?_eq_some_iff.1 hi
      have hend : ']' ∉ cs.takeWhile (· != ']') := by
        intro hmem
        exact absurd (forall_mem_takeWhile _ hmem) (by decide)
      have hstop := List.head?_dropWhile_not (· != ']') cs
      rw [hdrop] at hstop
      obtain rfl : d = ']' := by simpa using hstop
      refine ⟨_, .index hend htext hrange, ?_⟩
      rw [List.append_assoc, List.singleton_append, ← hdrop, List.takeWhile_append_dropWhile]

theorem BracketText.readBracket (h : BracketText cs s) (total : Nat) (rest : List Char) :
    readBracket total (cs ++ rest) = .ok (s, rest) := by
  cases h with
  | @index cs i hend h hi =>
    have hraw : ∀ c ∈ cs, (c != ']') = true := by
      intro c hc
      rw [bne_iff_ne]
      rintro rfl
      exact hend hc
    have hquote : ∀ after, cs ++ [']'] ++ rest = '"' :: after → False := by
      intro after heq
      cases h with
      | unsigned hdigits =>
        obtain ⟨c, digits, rfl⟩ := List.exists_cons_of_ne_nil hdigits.1
        obtain rfl := (List.cons.inj heq).1
        exact absurd (hdigits.2 '"' List.mem_cons_self) (by decide)
      | plus _ => exact absurd (List.cons.inj heq).1 (by decide)
      | minus _ => exact absurd (List.cons.inj heq).1 (by decide)
    rw [readBracket.eq_2 _ _ hquote, List.append_assoc, List.takeWhile_append_of_pos hraw,
      List.dropWhile_append_of_pos hraw]
    simp [readIndex?_eq_some_iff.2 ⟨h, hi⟩]
  | @key cs key h =>
    rw [List.cons_append, List.append_assoc]
    simp [Path.readBracket, h.readKey?]

@[simp] theorem isNameChar_iff : isNameChar c = true ↔ Text.isAlphanumeric c = true ∨ c = '_' := by
  simp [isNameChar]

@[simp] theorem continuesName_iff : continuesName c = true ↔ c ≠ '.' ∧ c ≠ '[' := by
  simp [continuesName]

@[simp] theorem continuesName_eq_false_iff : continuesName c = false ↔ c = '.' ∨ c = '[' := by
  simp [continuesName, or_iff_not_imp_left]

theorem readName_eq_ok_iff : readName cs = .ok (s, rest) ↔
    ∃ name, NameText name rest ∧ cs = name ++ rest ∧ s = .name (String.ofList name) := by
  constructor
  · intro h
    unfold readName at h
    dsimp only at h
    split at h
    · cases h
    · next hne =>
      split at h <;> cases h
      next hchars =>
      refine ⟨cs.takeWhile continuesName, ⟨?_, ?_, ?_, ?_⟩, ?_, rfl⟩
      · simpa using hne
      · exact fun c hc => continuesName_iff.1 (forall_mem_takeWhile c hc)
      · exact fun c hc => isNameChar_iff.1 (List.all_eq_true.1 hchars c hc)
      · intro c hc
        have hstop := List.head?_dropWhile_not continuesName cs
        rw [Option.mem_def.1 hc] at hstop
        exact continuesName_eq_false_iff.1 hstop
      · exact List.takeWhile_append_dropWhile.symm
  · rintro ⟨name, hname, rfl, rfl⟩
    exact readName_append hname.ne_nil (fun c hc => isNameChar_iff.2 (hname.chars c hc))
      fun c hc => continuesName_eq_false_iff.2 (hname.maximal c hc)

/-- A step is read exactly if the text starts with a text of it. -/
theorem readStep_eq_ok_iff : readStep total first c cs = .ok (s, rest) ↔
    ∃ text, StepText first text rest s ∧ c :: cs = text ++ rest := by
  constructor
  · intro h
    unfold readStep at h
    split at h
    · next hc =>
      obtain ⟨text, htext, rfl⟩ := exists_bracketText h
      exact ⟨_, .bracket htext, by rw [hc]; rfl⟩
    · split at h
      · next hfirst =>
        obtain ⟨name, hname, heq, rfl⟩ := readName_eq_ok_iff.1 h
        exact ⟨name, hfirst ▸ .firstName hname, heq⟩
      · next hfirst =>
        split at h
        · next hc =>
          obtain ⟨name, hname, rfl, rfl⟩ := readName_eq_ok_iff.1 h
          obtain rfl := Bool.eq_false_iff.2 hfirst
          exact ⟨_, .name hname, by rw [hc]; rfl⟩
        · cases h
  · rintro ⟨text, htext, heq⟩
    cases htext with
    | bracket h =>
      obtain ⟨rfl, rfl⟩ := List.cons.inj heq
      exact h.readBracket total rest
    | firstName h =>
      have hc : c ≠ '[' := by
        obtain ⟨d, name, rfl⟩ := List.exists_cons_of_ne_nil h.ne_nil
        rw [(List.cons.inj heq).1]
        exact (h.delimited d List.mem_cons_self).2
      rw [readStep, if_neg hc, if_pos rfl]
      exact readName_eq_ok_iff.2 ⟨_, h, heq, rfl⟩
    | name h =>
      obtain ⟨rfl, rfl⟩ := List.cons.inj heq
      exact readName_eq_ok_iff.2 ⟨_, h, rfl, rfl⟩

/-! ## Paths -/

theorem readSteps_of_error {e : PathError} (h : readStep total first c cs = .error e) :
    readSteps total first (c :: cs) = .error e := by
  rw [readSteps]
  split
  · next heq => rw [h] at heq; cases heq; rfl
  · next heq => rw [h] at heq; cases heq

theorem spells_of_readSteps (h : readSteps total first cs = .ok p) : Spells first cs p := by
  induction first, cs using readSteps.induct total generalizing p with
  | case1 first =>
    rw [readSteps] at h
    cases h
    exact .nil
  | case2 first c cs e hstep => rw [readSteps_of_error hstep] at h; cases h
  | case3 first c cs s rest hstep ih =>
    rw [readSteps_cons hstep] at h
    obtain ⟨q, hrest, rfl⟩ := Except.map_eq_ok.1 h
    obtain ⟨text, htext, heq⟩ := readStep_eq_ok_iff.1 hstep
    rw [heq]
    exact .cons htext (ih hrest)

/-- A step has a text of at least one character. -/
theorem StepText.exists_cons (h : StepText first cs rest s) : ∃ c cs', cs = c :: cs' := by
  cases h with
  | bracket _ => exact ⟨_, _, rfl⟩
  | firstName h => exact List.exists_cons_of_ne_nil h.ne_nil
  | name _ => exact ⟨_, _, rfl⟩

theorem Spells.readSteps (h : Spells first cs p) (total : Nat) :
    readSteps total first cs = .ok p := by
  induction h with
  | nil => rw [Path.readSteps]
  | @cons first cs rest s p h hrest ih =>
    obtain ⟨c, cs', rfl⟩ := h.exists_cons
    have hstep : readStep total first c (cs' ++ rest) = .ok (s, rest) :=
      readStep_eq_ok_iff.2 ⟨_, h, rfl⟩
    rw [List.cons_append, readSteps_cons hstep, ih]
    rfl

/-! ## Refused characters -/

@[simp] theorem byteCount_append (cs rest : List Char) :
    byteCount (cs ++ rest) = byteCount cs + byteCount rest := by
  induction cs with
  | nil => rw [List.nil_append, byteCount, Nat.zero_add]
  | cons c cs ih => rw [List.cons_append, byteCount, byteCount, ih, Nat.add_assoc]

@[simp]
theorem utf8ByteSize_ofList (cs : List Char) : (String.ofList cs).utf8ByteSize = byteCount cs := by
  induction cs with
  | nil => rfl
  | cons c cs ih =>
    have hcons : String.ofList (c :: cs) = String.singleton c ++ String.ofList cs := by simp
    rw [hcons, String.utf8ByteSize_append, String.utf8ByteSize_singleton, ih, byteCount]

/-- The character stands in the text, at the position from where on the text is left. -/
def Stops (total : Nat) (cs : List Char) (position : Nat) (found : Char) : Prop :=
  ∃ after, found :: after <:+ cs ∧ position = Path.position total (found :: after)

theorem Stops.of_suffix (h : Stops total rest position found) (hrest : rest <:+ cs) :
    Stops total cs position found := by
  obtain ⟨after, hafter, hposition⟩ := h
  exact ⟨after, hafter.trans hrest, hposition⟩

theorem stops_of_readBracket
    (h : readBracket total cs = .error (.unexpectedCharacter position found)) :
    Stops total cs position found := by
  unfold readBracket at h
  split at h
  · split at h <;> cases h
    next key rest hend hkey =>
    obtain ⟨text, -, rfl⟩ := exists_keyText hkey
    exact ⟨rest, ⟨'"' :: (text ++ ['"']), by simp⟩, rfl⟩
  · dsimp only at h
    split at h
    · cases h
    · split at h <;> cases h

theorem readName_ne_unexpected : readName cs ≠ .error (.unexpectedCharacter position found) := by
  intro h
  unfold readName at h
  dsimp only at h
  split at h
  · cases h
  · split at h <;> cases h

theorem stops_of_readStep
    (h : readStep total first c cs = .error (.unexpectedCharacter position found)) :
    Stops total (c :: cs) position found := by
  unfold readStep at h
  split at h
  · exact (stops_of_readBracket h).of_suffix (List.suffix_cons c cs)
  · split at h
    · exact absurd h readName_ne_unexpected
    · split at h
      · exact absurd h readName_ne_unexpected
      · cases h
        exact ⟨cs, List.suffix_refl _, rfl⟩

theorem stops_of_readSteps
    (h : readSteps total first cs = .error (.unexpectedCharacter position found)) :
    Stops total cs position found := by
  induction first, cs using readSteps.induct total with
  | case1 first => rw [readSteps] at h; cases h
  | case2 first c cs e hstep =>
    rw [readSteps_of_error hstep] at h
    cases h
    exact stops_of_readStep hstep
  | case3 first c cs s rest hstep ih =>
    rw [readSteps_cons hstep] at h
    obtain ⟨text, -, heq⟩ := readStep_eq_ok_iff.1 hstep
    exact (ih (Except.map_eq_error.1 h)).of_suffix ⟨text, heq.symm⟩

/-- A text is read as a path exactly if it spells out the steps of the path, as the empty text does
for the empty path. A character that is refused stands in the text behind as many bytes as the
error tells. -/
theorem ofText_spec (text : String) :
    (∀ p, ofText text = .ok p ↔ Spells true text.toList p) ∧
      ∀ position found, ofText text = .error (.unexpectedCharacter position found) →
        ∃ before after : String, text = before ++ String.singleton found ++ after ∧
          position = before.utf8ByteSize := by
  refine ⟨fun p => ⟨spells_of_readSteps, fun h => h.readSteps _⟩, fun position found h => ?_⟩
  obtain ⟨after, ⟨before, hsplit⟩, rfl⟩ := stops_of_readSteps h
  have htext : text = String.ofList before ++ String.singleton found ++ String.ofList after := by
    apply String.toList_inj.1
    simp [← hsplit]
  refine ⟨String.ofList before, String.ofList after, htext, ?_⟩
  have htotal : text.utf8ByteSize = byteCount before + byteCount (found :: after) := by
    rw [← byteCount_append, hsplit, ← utf8ByteSize_ofList, String.ofList_toList]
  rw [Path.position, htotal, utf8ByteSize_ofList, Nat.add_sub_cancel]

/-- A name behind a bracket needs a point; the eight characters before it are ten bytes. -/
theorem ofText_spec_missing_point :
    ofText "größe[0]x" = .error (.unexpectedCharacter 10 'x') ∧
      ∃ before after : String, "größe[0]x" = before ++ String.singleton 'x' ++ after ∧
        before.utf8ByteSize = 10 := by
  have h : ofText "größe[0]x" = .error (.unexpectedCharacter 10 'x') := by
    have hname : readStep 11 true 'g' ['r', 'ö', 'ß', 'e', '[', '0', ']', 'x'] =
        .ok (.name "größe", ['[', '0', ']', 'x']) := rfl
    have hindex : readStep 11 false '[' ['0', ']', 'x'] = .ok (.index 0, ['x']) := rfl
    have hpoint : readStep 11 false 'x' [] = .error (.unexpectedCharacter 10 'x') := rfl
    show readSteps 11 true ['g', 'r', 'ö', 'ß', 'e', '[', '0', ']', 'x'] = _
    rw [readSteps_cons hname, readSteps_cons hindex, readSteps_of_error hpoint]
    rfl
  obtain ⟨before, after, htext, hposition⟩ := (ofText_spec "größe[0]x").2 _ _ h
  exact ⟨h, before, after, htext, hposition.symm⟩

end ResourceSchema.Path
