import ResourceSchema.Path.Parser
import ResourceSchema.Proofs.Number.Integer

/-!
# Path texts read back

A path is read back from its text if every step of it has a text that can be read
(`Path.ofText_text`). A step is read back together with the text after it, since a name ends only
where another step starts; a path is then read back step by step.
-/

namespace ResourceSchema

/-- A step with a text that can be read: names are not empty and made of name characters, indices
fit 64 bits, keys are any texts. Set elements have no such text. -/
def PathStep.Readable : PathStep → Prop
  | .name n => n ≠ "" ∧ ∀ c ∈ n.toList, Path.isNameChar c = true
  | .index i => -0x8000000000000000 ≤ i ∧ i < 0x8000000000000000
  | .key _ => True
  | .element _ => False

instance : DecidablePred PathStep.Readable
  | .name n =>
    haveI : Decidable (∀ c ∈ n.toList, Path.isNameChar c = true) := List.decidableBAll _ n.toList
    inferInstanceAs (Decidable (n ≠ "" ∧ ∀ c ∈ n.toList, Path.isNameChar c = true))
  | .index i => inferInstanceAs (Decidable (-0x8000000000000000 ≤ i ∧ i < 0x8000000000000000))
  | .key _ => inferInstanceAs (Decidable True)
  | .element _ => inferInstanceAs (Decidable False)

namespace Path

variable {i : Int} {c : Char} {cs rest : List Char} {s : PathStep} {p : Path} {total : Nat}
  {first : Bool}

/-! ## Indices -/

/-- The sign of a number and its digits. -/
@[simp] theorem takeSign_toString (i : Int) :
    takeSign (toString i).toList = (decide (i < 0), Nat.toDigits 10 i.natAbs) := by
  rw [toList_toString_int]
  split
  · next hi => rw [decide_eq_true hi, takeSign]
  · next hi =>
    have hdigit : ∀ c ∈ Nat.toDigits 10 i.natAbs, c.isDigit = true := fun c =>
      Nat.isDigit_of_mem_toDigits (by decide) (by decide)
    rw [decide_eq_false hi, takeSign.eq_def]
    split
    · next heq => exact absurd (hdigit '+' (heq ▸ List.mem_cons_self)) (by decide)
    · next heq => exact absurd (hdigit '-' (heq ▸ List.mem_cons_self)) (by decide)
    · rfl

theorem readIndex?_toString (hi : -0x8000000000000000 ≤ i ∧ i < 0x8000000000000000) :
    readIndex? (toString i).toList = some i := by
  obtain ⟨d, ds, hread, hvalue⟩ := takeDigits_toDigits i.natAbs
  have hsigned : (if decide (i < 0) = true then -(ofDigits (d :: ds) : Int)
      else ofDigits (d :: ds)) = i := by
    rw [hvalue]
    by_cases hneg : i < 0
    · rw [decide_eq_true hneg, if_pos rfl]
      omega
    · rw [decide_eq_false hneg, if_neg Bool.false_ne_true]
      omega
  rw [readIndex?, takeSign_toString]
  simp only [hread, hsigned]
  exact if_pos hi

/-- The text of a number has no closing bracket and does not start with a quote. -/
theorem toString_ne_bracket (i : Int) : ∀ c ∈ (toString i).toList, c ≠ ']' ∧ c ≠ '"' := by
  intro c hc
  rcases mem_toString_int hc with rfl | hdigit
  · decide
  · constructor <;> rintro rfl <;> cases hdigit

/-! ## Keys -/

/-- An escaped key is read up to the quote after it. -/
theorem readKey?_escaped (key rest : List Char) :
    readKey? (key.flatMap PathStep.escapeKey ++ '"' :: rest) = some (key, rest) := by
  induction key with
  | nil => rfl
  | cons c key ih =>
    rw [List.flatMap_cons, List.append_assoc, PathStep.escapeKey]
    by_cases hc : (c == '"' || c == '\\') = true
    · rw [if_pos hc, List.cons_append, List.singleton_append, readKey?, ih]
      rfl
    · obtain ⟨hquote, hback⟩ : c ≠ '"' ∧ c ≠ '\\' := by simpa using hc
      rw [if_neg hc, List.singleton_append, readKey?]
      · simp [ih, hquote, hback]
      · exact fun _ _ h => absurd h hback

/-! ## Names -/

theorem continuesName_of_isNameChar (h : isNameChar c = true) : continuesName c = true := by
  have hne : ∀ d, isNameChar d = false → c ≠ d := by
    rintro d hd rfl
    rw [hd] at h
    cases h
  simp [continuesName, hne '.' (by decide), hne '[' (by decide)]

/-- The text goes on with another step, or it ends. -/
def AtStep (rest : List Char) : Prop := ∀ c ∈ rest.head?, continuesName c = false

/-- A name is read up to where another step starts. -/
theorem readName_append {name : List Char} (hne : name ≠ []) (h : ∀ c ∈ name, isNameChar c = true)
    (hrest : AtStep rest) :
    readName (name ++ rest) = .ok (.name (String.ofList name), rest) := by
  have hname : ∀ c ∈ name, continuesName c = true :=
    fun c hc => continuesName_of_isNameChar (h c hc)
  have hstop : rest.takeWhile continuesName = [] ∧ rest.dropWhile continuesName = rest := by
    cases rest with
    | nil => exact ⟨rfl, rfl⟩
    | cons c rest => simp [hrest c rfl]
  rw [readName, List.takeWhile_append_of_pos hname, List.dropWhile_append_of_pos hname, hstop.1,
    hstop.2, List.append_nil]
  simp [hne, List.all_eq_true.2 h]

/-! ## Steps -/

/-- The characters of a step in a path. -/
def stepChars (first : Bool) (s : PathStep) : List Char := (stepText first s).toList

@[simp] theorem stepChars_index (first : Bool) (i : Int) :
    stepChars first (.index i) = '[' :: ((toString i).toList ++ [']']) := by
  show ("[" ++ toString i ++ "]").toList = _
  rw [String.toList_append, String.toList_append]
  rfl

@[simp] theorem stepChars_key (first : Bool) (k : String) :
    stepChars first (.key k) =
      '[' :: '"' :: (k.toList.flatMap PathStep.escapeKey ++ ['"', ']']) := by
  show (String.ofList _).toList = _
  rw [String.toList_ofList, List.append_assoc]
  rfl

theorem toList_text (s : PathStep) (p : Path) :
    (text (s :: p)).toList = stepChars true s ++ p.flatMap (stepChars false) := by
  rw [text, String.toList_append, String.toList_join, List.flatMap_map]
  rfl

theorem readBracket_index (hi : -0x8000000000000000 ≤ i ∧ i < 0x8000000000000000) :
    readBracket total ((toString i).toList ++ ']' :: rest) = .ok (.index i, rest) := by
  have hchars := toString_ne_bracket i
  have hraw : ∀ c ∈ (toString i).toList, (c != ']') = true :=
    fun c hc => bne_iff_ne.2 (hchars c hc).1
  have hquote : ∀ cs, (toString i).toList ++ ']' :: rest = '"' :: cs → False := by
    intro cs heq
    cases htext : (toString i).toList with
    | nil =>
      rw [htext] at heq
      exact absurd (List.cons.inj heq).1 (by decide)
    | cons c digits =>
      rw [htext] at heq
      exact (hchars c (htext ▸ List.mem_cons_self)).2 (List.cons.inj heq).1
  rw [readBracket.eq_2 _ _ hquote, List.takeWhile_append_of_pos hraw,
    List.dropWhile_append_of_pos hraw, List.takeWhile_cons_of_neg (by decide),
    List.dropWhile_cons_of_neg (by decide), List.append_nil]
  dsimp only
  rw [readIndex?_toString hi]

theorem readBracket_key (k : String) (rest : List Char) :
    readBracket total ('"' :: (k.toList.flatMap PathStep.escapeKey ++ '"' :: ']' :: rest)) =
      .ok (.key k, rest) := by
  simp [readBracket, readKey?_escaped]

/-- A step is read from its characters before the next step. After the first step they start with
a character that ends a name. -/
theorem readStep_stepChars (total : Nat) (first : Bool) (hs : s.Readable) (hrest : AtStep rest) :
    ∃ c cs, stepChars first s ++ rest = c :: cs ∧ (first = false → continuesName c = false) ∧
      readStep total first c cs = .ok (s, rest) := by
  cases s with
  | name n =>
    obtain ⟨hne, hchars⟩ := hs
    have hname : readName (n.toList ++ rest) = .ok (.name n, rest) := by
      rw [readName_append (by simpa using hne) hchars hrest, String.ofList_toList]
    cases first with
    | false =>
      refine ⟨'.', n.toList ++ rest, ?_, fun _ => rfl, hname⟩
      show ("." ++ n).toList ++ rest = _
      rw [String.toList_append]
      rfl
    | true =>
      obtain ⟨c, cs, hn⟩ := List.exists_cons_of_ne_nil (l := n.toList) (by simpa using hne)
      have hc : continuesName c = true :=
        continuesName_of_isNameChar (hchars c (hn ▸ List.mem_cons_self))
      refine ⟨c, cs ++ rest, ?_, nofun, ?_⟩
      · show n.toList ++ rest = _
        rw [hn]
        rfl
      · rw [hn] at hname
        rw [readStep, if_neg, if_pos rfl]
        · exact hname
        · rintro rfl
          cases hc
  | index i =>
    refine ⟨'[', (toString i).toList ++ ']' :: rest, ?_, fun _ => rfl, readBracket_index hs⟩
    rw [stepChars_index, List.cons_append, List.append_assoc]
    rfl
  | key k =>
    refine ⟨'[', '"' :: (k.toList.flatMap PathStep.escapeKey ++ '"' :: ']' :: rest), ?_,
      fun _ => rfl, readBracket_key k rest⟩
    rw [stepChars_key, List.cons_append, List.cons_append, List.append_assoc]
    rfl
  | element v => cases hs

/-! ## Paths -/

theorem readSteps_cons {c : Char} {cs : List Char} {s : PathStep}
    (h : readStep total first c cs = .ok (s, rest)) :
    readSteps total first (c :: cs) = (readSteps total false rest).map (s :: ·) := by
  rw [readSteps]
  split
  · next heq => rw [h] at heq; cases heq
  · next heq =>
    rw [h] at heq
    cases heq
    rfl

/-- The steps after the first are read from their characters. -/
theorem readSteps_rest (total : Nat) (hp : ∀ s ∈ p, s.Readable) :
    AtStep (p.flatMap (stepChars false)) ∧
      readSteps total false (p.flatMap (stepChars false)) = .ok p := by
  induction p with
  | nil => exact ⟨nofun, by simp [readSteps]⟩
  | cons s p ih =>
    obtain ⟨hs, hp⟩ := List.forall_mem_cons.1 hp
    obtain ⟨hrest, hread⟩ := ih hp
    obtain ⟨c, cs, hchars, hstart, hstep⟩ := readStep_stepChars total false hs hrest
    rw [List.flatMap_cons, hchars]
    refine ⟨fun d hd => ?_, ?_⟩
    · obtain rfl : c = d := Option.some.inj hd
      exact hstart rfl
    · rw [readSteps_cons hstep, hread]
      rfl

/-- A path of readable steps is read back from its text. -/
theorem ofText_text (hp : ∀ s ∈ p, s.Readable) : ofText p.text = .ok p := by
  cases p with
  | nil => simp [ofText, text, readSteps]
  | cons s p =>
    obtain ⟨hs, hp⟩ := List.forall_mem_cons.1 hp
    obtain ⟨hrest, hread⟩ := readSteps_rest (text (s :: p)).utf8ByteSize hp
    obtain ⟨c, cs, hchars, _, hstep⟩ := readStep_stepChars _ true hs hrest
    rw [ofText, toList_text, hchars, readSteps_cons hstep, hread]
    rfl

/-- A path that starts with the least index and has a key made of what ends keys and steps. -/
theorem ofText_text_least_index :
    let p : Path := [.index (-0x8000000000000000), .name "Größe_2", .key "a\"]\\.b\n", .name "é"]
    (∀ s ∈ p, s.Readable) ∧ p.text = "[-9223372036854775808].Größe_2[\"a\\\"]\\\\.b\n\"].é" ∧
      ofText p.text = .ok p := by
  intro p
  have hp : ∀ s ∈ p, s.Readable := by decide +kernel
  exact ⟨hp, by decide +kernel, ofText_text hp⟩

end Path
end ResourceSchema
