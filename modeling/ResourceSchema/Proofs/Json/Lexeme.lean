import Mathlib.Tactic.IntervalCases
import ResourceSchema.Json.Lexeme
import ResourceSchema.Json.Printer
import ResourceSchema.Proofs.Number.Integer

/-!
# Lexemes of printed documents

The printer writes marks, quoted strings, words and blanks, and every word is followed by a mark or
a blank. So the lexemes of its text are those that the document was printed from
(`Integral.lexemes_pretty`). What a piece of text scans to is stated with any text after it at which
a word ends.
-/

namespace ResourceSchema.Json

variable {c : Char} {cs ds rest : List Char} {ls ms done : List Lexeme}

namespace Lexeme

/-! ## Pieces of text -/

/-- A character of words. -/
def isWordChar (c : Char) : Bool := !(isBlank c || isMark c || c == '"')

/-- No word goes on into this text. -/
def EndsWord (cs : List Char) : Prop := ∀ c ∈ cs.head?, isWordChar c = false

theorem EndsWord.append (h : EndsWord cs) (hrest : EndsWord rest) : EndsWord (cs ++ rest) := by
  cases cs with
  | nil => exact hrest
  | cons c cs => exact h

theorem close_nil (done : List Lexeme) : close done [] = done := rfl

/-- A piece of text is scanned to some lexemes, whatever stands before it and after it. -/
def Scans (cs : List Char) (ls : List Lexeme) : Prop :=
  ∀ done rest, EndsWord rest → scan done [] (cs ++ rest) = scan (ls.reverse ++ done) [] rest

theorem Scans.nil : Scans [] [] := fun _ _ _ => rfl

theorem Scans.append (hc : Scans cs ls) (hd : Scans ds ms) (h : EndsWord ds) :
    Scans (cs ++ ds) (ls ++ ms) := by
  intro done rest hrest
  rw [List.append_assoc, hc _ _ (h.append hrest), hd _ _ hrest, List.reverse_append,
    List.append_assoc]

theorem Scans.mark (hc : isMark c = true) (h : Scans cs ls) : Scans (c :: cs) (.mark c :: ls) := by
  have hblank : isBlank c = false := by
    have hmem : c ∈ "[]\x7b\x7d,:".toList := by simpa [isMark] using hc
    have hall : "[]\x7b\x7d,:".toList.all (fun c => !isBlank c) = true := by decide
    simpa using List.all_eq_true.1 hall c hmem
  intro done rest hrest
  rw [List.cons_append, scan, if_neg (by simp [hblank]), if_pos hc, close_nil, h _ _ hrest]
  simp

theorem Scans.blank (hc : isBlank c = true) (h : Scans cs ls) : Scans (c :: cs) ls := by
  intro done rest hrest
  rw [List.cons_append, scan, if_pos hc, close_nil, h _ _ hrest]

theorem Scans.blanks (h : Scans cs ls) (hd : ∀ c ∈ ds, isBlank c = true) : Scans (ds ++ cs) ls := by
  induction ds with
  | nil => exact h
  | cons d ds ih =>
    obtain ⟨hd, hds⟩ := List.forall_mem_cons.1 hd
    exact (ih hds).blank hd

/-! ## Words -/

theorem scan_word {word : List Char} (hcs : cs.all isWordChar = true) :
    scan done word (cs ++ rest) = scan done (cs.reverse ++ word) rest := by
  induction cs generalizing word with
  | nil => rfl
  | cons c cs ih =>
    rw [List.all_cons, Bool.and_eq_true] at hcs
    have hc := hcs.1
    simp only [isWordChar, Bool.not_eq_true', Bool.or_eq_false_iff] at hc
    rw [List.cons_append, scan, if_neg (by simp [hc.1.1]), if_neg (by simp [hc.1.2]),
      if_neg (by simp [hc.2]), ih hcs.2, List.reverse_cons, List.append_assoc]
    rfl

/-- Where a word ends, it is a lexeme. -/
theorem scan_endsWord {word : List Char} (h : EndsWord rest) :
    scan done word rest = scan (close done word) [] rest := by
  cases rest with
  | nil => rfl
  | cons c rest =>
    rw [scan, scan]
    have hclose : close (close done word) [] = close done word := rfl
    have hc := h c rfl
    simp only [isWordChar, Bool.not_eq_false', Bool.or_eq_true] at hc
    rcases hc with (hblank | hmark) | hquote
    · rw [if_pos hblank, if_pos hblank, hclose]
    · rw [if_pos hmark, if_pos hmark, hclose]
    · rw [if_pos hquote, if_pos hquote, hclose]

theorem Scans.word {s : String} (hne : s ≠ "") (h : s.toList.all isWordChar = true) :
    Scans s.toList [.word s] := by
  intro done rest hrest
  rw [scan_word h, scan_endsWord hrest, close, List.append_nil, List.reverse_reverse,
    String.ofList_toList, if_neg (by simpa using hne)]
  rfl

/-- An integer is written as a word. -/
theorem all_isWordChar_toString (i : Int) : (toString i).toList.all isWordChar = true := by
  have hall : " \n\t\r[]\x7b\x7d,:\"".toList.all (fun c => c != '-' && !c.isDigit) = true := by
    decide
  refine List.all_eq_true.2 fun c hc => Bool.of_not_eq_false fun hword => ?_
  rw [isWordChar, Bool.not_eq_false'] at hword
  have hmem : c ∈ " \n\t\r[]\x7b\x7d,:\"".toList := by
    simpa [isBlank, isMark, or_assoc] using hword
  have hother := List.all_eq_true.1 hall c hmem
  rcases mem_toString_int hc with rfl | hdigit
  · cases hother
  · rw [hdigit, Bool.not_true, Bool.and_false] at hother
    cases hother

/-! ## Quoted strings -/

theorem scanString_control (done : List Lexeme) (text : List Char) (rest : List Char) {n : Nat}
    (hn : n < 32) : scanString done text none (escapeChar (.ofNat n) ++ rest) =
      scanString done (.ofNat n :: text) none rest := by
  interval_cases n <;> rfl

theorem escapeChar_of_le (hc : ' ' ≤ c) (hquote : c ≠ '"') (hback : c ≠ '\\') :
    escapeChar c = [c] := by
  have hcontrol : ¬c < ' ' := Char.not_lt.2 hc
  unfold escapeChar
  split <;> simp_all

/-- An escaped character is read back. -/
theorem scanString_escapeChar (done : List Lexeme) (text : List Char) (c : Char)
    (rest : List Char) :
    scanString done text none (escapeChar c ++ rest) = scanString done (c :: text) none rest := by
  by_cases hcontrol : c.toNat < 32
  · have hread := scanString_control done text rest hcontrol
    rwa [Char.ofNat_toNat] at hread
  · have hle : ' ' ≤ c := UInt32.le_iff_toNat_le.2 (Nat.not_lt.1 hcontrol)
    by_cases hquote : c = '"'
    · subst hquote
      rfl
    by_cases hback : c = '\\'
    · subst hback
      rfl
    rw [escapeChar_of_le hle hquote hback, List.singleton_append, scanString]
    · simp [hquote, hback, Char.not_lt.2 hle]
    · exact fun _ _ _ _ _ h => absurd h hback
    · exact fun _ _ h => absurd h hback

theorem scanString_escaped (text : List Char) :
    scanString done text none (cs.flatMap escapeChar ++ '"' :: rest) =
      scan (.quoted (String.ofList (text.reverse ++ cs)) :: done) [] rest := by
  induction cs generalizing text with
  | nil => simp [scanString]
  | cons c cs ih =>
    rw [List.flatMap_cons, List.append_assoc, scanString_escapeChar, ih]
    simp

theorem Scans.quoted (s : String) : Scans (stringText s).toList [.quoted s] := by
  intro done rest _
  rw [stringText, String.toList_ofList, List.append_assoc, List.cons_append, scan]
  simp [isBlank, isMark, close, scanString_escaped]

/-! ## Documents -/

end Lexeme

mutual

/-- The lexemes of a document. -/
def lexemes : Json → List Lexeme
  | .null => [.word "null"]
  | .bool b => [.word (boolText b)]
  | .number n => [.word n.text]
  | .string s => [.quoted s]
  | .array [] => [.mark '[', .mark ']']
  | .array (j :: js) => .mark '[' :: (j.lexemes ++ (moreItems js ++ [.mark ']']))
  | .object [] => [.mark '\x7b', .mark '\x7d']
  | .object ((name, j) :: rest) =>
    .mark '\x7b' :: .quoted name :: .mark ':' ::
      (j.lexemes ++ (moreMembers rest ++ [.mark '\x7d']))

/-- The lexemes of items that stand after another one. -/
def moreItems : List Json → List Lexeme
  | [] => []
  | j :: js => .mark ',' :: (j.lexemes ++ moreItems js)

/-- The lexemes of members that stand after another one. -/
def moreMembers : List (String × Json) → List Lexeme
  | [] => []
  | (name, j) :: rest =>
    .mark ',' :: .quoted name :: .mark ':' :: (j.lexemes ++ moreMembers rest)

end

/-- All numbers of a document are integers. -/
inductive Integral : Json → Prop
  | null : Integral .null
  | bool (b : Bool) : Integral (.bool b)
  | number (i : Int) (h : -0x8000000000000000 ≤ i ∧ i < 0x10000000000000000) :
      Integral (.number (.integer i h))
  | string (s : String) : Integral (.string s)
  | array {items : List Json} (h : ∀ j ∈ items, Integral j) : Integral (.array items)
  | object {members : List (String × Json)} (h : ∀ m ∈ members, Integral m.2) :
      Integral (.object members)

/-! ## Lines between brackets -/

/-- The end of a line and the blanks before the next one. -/
def indent (depth : Nat) : List Char := '\n' :: List.replicate (2 * depth) ' '

/-- The text of the lines that stand after another one. -/
def moreLines (depth : Nat) (lines : List String) : List Char :=
  lines.flatMap fun l => ',' :: (indent depth ++ l.toList)

theorem isBlank_of_mem_indent {depth : Nat} : ∀ c ∈ indent depth, Lexeme.isBlank c = true := by
  simp [indent, Lexeme.isBlank]

theorem intercalate_cons {α : Type} (sep first : List α) (more : List (List α)) :
    sep.intercalate (first :: more) = first ++ more.flatMap (sep ++ ·) := by
  induction more generalizing first with
  | nil => simp
  | cons next more ih =>
    rw [List.intercalate_cons_of_ne_nil (List.cons_ne_nil _ _), ih, List.flatMap_cons,
      List.append_assoc]
    simp

theorem toList_bracketed {opening closing : String} {depth : Nat} {line : String}
    {lines : List String} :
    (bracketed opening closing depth (line :: lines)).toList =
      opening.toList ++ (indent (depth + 1) ++ (line.toList ++
        (moreLines (depth + 1) lines ++ (indent depth ++ closing.toList)))) := by
  have hindent : ∀ n, ("\n" ++ String.ofList (List.replicate (2 * n) ' ')).toList = indent n := by
    intro n
    simp [indent]
  rw [bracketed, List.isEmpty_cons, if_neg Bool.false_ne_true]
  simp only [String.toList_append, hindent, String.toList_intercalate, List.map_cons,
    intercalate_cons, List.flatMap_map, List.append_assoc]
  rfl

namespace Lexeme

theorem endsWord_moreLines (depth : Nat) (lines : List String) :
    EndsWord (moreLines depth lines) := by
  cases lines with
  | nil => exact nofun
  | cons l lines =>
    intro c hc
    obtain rfl : ',' = c := Option.some.inj hc
    rfl

theorem Scans.moreLines_cons {depth : Nat} {line : String} {lines : List String}
    (hline : Scans line.toList ls) (hlines : Scans (moreLines depth lines) ms) :
    Scans (moreLines depth (line :: lines)) (.mark ',' :: (ls ++ ms)) := by
  have hrest := hline.append hlines (endsWord_moreLines _ _)
  rw [moreLines, List.flatMap_cons, List.cons_append, List.append_assoc]
  exact .mark rfl (hrest.blanks isBlank_of_mem_indent)

theorem Scans.bracketed {opening closing : String} {o c : Char} {depth : Nat} {line : String}
    {lines : List String} (ho : opening.toList = [o]) (hc : closing.toList = [c])
    (hmo : isMark o = true) (hmc : isMark c = true) (hline : Scans line.toList ls)
    (hlines : Scans (moreLines (depth + 1) lines) ms) :
    Scans (Json.bracketed opening closing depth (line :: lines)).toList
      (.mark o :: (ls ++ (ms ++ [.mark c]))) := by
  have hclose : Scans (indent depth ++ [c]) [.mark c] :=
    (Scans.mark hmc .nil).blanks isBlank_of_mem_indent
  have hends : EndsWord (indent depth ++ [c]) := by
    intro d hd
    obtain rfl : '\n' = d := Option.some.inj hd
    rfl
  have hrest := hline.append (hlines.append hclose hends) ((endsWord_moreLines _ _).append hends)
  rw [toList_bracketed, ho, hc]
  exact .mark hmo (hrest.blanks isBlank_of_mem_indent)

/-- The line of a member. -/
theorem Scans.member {name text : String} (h : Scans text.toList ls) :
    Scans (stringText name ++ ": " ++ text).toList (.quoted name :: .mark ':' :: ls) := by
  rw [String.toList_append, String.toList_append, List.append_assoc]
  refine (Scans.quoted name).append (.mark rfl (.blank rfl h)) fun c hc => ?_
  obtain rfl : ':' = c := Option.some.inj hc
  rfl

end Lexeme

theorem scans_moreItems {depth : Nat} {items : List Json}
    (h : ∀ j ∈ items, Lexeme.Scans (j.prettyAt depth).toList j.lexemes) :
    Lexeme.Scans (moreLines depth (prettyItems depth items)) (moreItems items) := by
  induction items with
  | nil => exact .nil
  | cons j js ih =>
    obtain ⟨hj, hjs⟩ := List.forall_mem_cons.1 h
    exact .moreLines_cons hj (ih hjs)

theorem scans_moreMembers {depth : Nat} {members : List (String × Json)}
    (h : ∀ m ∈ members, Lexeme.Scans (m.2.prettyAt depth).toList m.2.lexemes) :
    Lexeme.Scans (moreLines depth (prettyMembers depth members)) (moreMembers members) := by
  induction members with
  | nil => exact .nil
  | cons m rest ih =>
    obtain ⟨hm, hrest⟩ := List.forall_mem_cons.1 h
    exact .moreLines_cons (.member hm) (ih hrest)

/-- The text of a document is scanned to the lexemes of the document. -/
theorem Integral.scans_prettyAt {j : Json} (h : j.Integral) (depth : Nat) :
    Lexeme.Scans (j.prettyAt depth).toList j.lexemes := by
  induction h generalizing depth with
  | null => exact .word (s := "null") (by decide) (by decide)
  | bool b =>
    cases b with
    | false => exact .word (s := "false") (by decide) (by decide)
    | true => exact .word (s := "true") (by decide) (by decide)
  | number i h => exact .word (toString_int_ne_empty i) (Lexeme.all_isWordChar_toString i)
  | string s => exact .quoted s
  | @array items _ ih =>
    cases items with
    | nil =>
      have htext : (prettyAt depth (.array [])).toList = ['[', ']'] := by
        simp [prettyAt, prettyItems, bracketed]
      rw [htext]
      exact .mark rfl (.mark rfl .nil)
    | cons j js =>
      obtain ⟨hj, hjs⟩ := List.forall_mem_cons.1 ih
      exact .bracketed rfl rfl rfl rfl (hj _) (scans_moreItems fun k hk => hjs k hk _)
  | @object members _ ih =>
    cases members with
    | nil =>
      have htext : (prettyAt depth (.object [])).toList = ['\x7b', '\x7d'] := by
        simp [prettyAt, prettyMembers, bracketed]
      rw [htext]
      exact .mark rfl (.mark rfl .nil)
    | cons m rest =>
      obtain ⟨hm, hrest⟩ := List.forall_mem_cons.1 ih
      exact .bracketed rfl rfl rfl rfl (.member (hm _))
        (scans_moreMembers fun k hk => hrest k hk _)

theorem Integral.lexemes_pretty {j : Json} (h : j.Integral) :
    Lexeme.ofText? j.pretty = some j.lexemes := by
  have hscan := h.scans_prettyAt 0 [] [] nofun
  rw [List.append_nil, List.append_nil] at hscan
  rw [Lexeme.ofText?, pretty, hscan, Lexeme.scan, Lexeme.close_nil, List.reverse_reverse]

end ResourceSchema.Json
