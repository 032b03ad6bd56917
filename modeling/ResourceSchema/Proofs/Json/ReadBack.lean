import ResourceSchema.Json.Reader
import ResourceSchema.Proofs.Json.Lexeme
import ResourceSchema.Proofs.Recursion

/-!
# Documents read back

A document without floating-point numbers is read back from its text, provided that brackets in it
nest at most 127 deep (`Integral.ofText?_pretty`). The reader goes through the lexemes of a value
from a state that waits for a value to one that has it, with the same arrays and objects open.
-/

namespace ResourceSchema.Json

mutual

/-- How deep brackets nest in a document. -/
def depth : Json → Nat
  | .array items => itemsDepth items + 1
  | .object members => membersDepth members + 1
  | _ => 0

def itemsDepth : List Json → Nat
  | [] => 0
  | j :: js => max j.depth (itemsDepth js)

def membersDepth : List (String × Json) → Nat
  | [] => 0
  | (_, j) :: rest => max j.depth (membersDepth rest)

end

@[simp] theorem itemsDepth_le {items : List Json} {n : Nat} :
    itemsDepth items ≤ n ↔ ∀ j ∈ items, j.depth ≤ n :=
  iff_forall_of_cons (P := fun items => itemsDepth items ≤ n) (Nat.zero_le n)
    (fun _ _ => Nat.max_le) items

@[simp] theorem membersDepth_le {members : List (String × Json)} {n : Nat} :
    membersDepth members ≤ n ↔ ∀ m ∈ members, m.2.depth ≤ n :=
  iff_forall_of_cons (P := fun members => membersDepth members ≤ n) (Nat.zero_le n)
    (fun _ _ => Nat.max_le) members

namespace Reader

variable {r r' r'' : Reader} {ls ms : List Lexeme} {stack : List Frame} {j : Json}

/-! ## Runs of the reader -/

/-- Taking these lexemes one after another leads from one state to another. -/
def Reads (r : Reader) (ls : List Lexeme) (r' : Reader) : Prop := ls.foldlM step? r = some r'

theorem Reads.nil : Reads r [] r := rfl

theorem Reads.cons {l : Lexeme} (h : r.step? l = some r') (hs : Reads r' ls r'') :
    Reads r (l :: ls) r'' := by
  rw [Reads, List.foldlM_cons, h]
  exact hs

theorem Reads.append (h : Reads r ls r') (hs : Reads r' ms r'') : Reads r (ls ++ ms) r'' := by
  rw [Reads, List.foldlM_append, h]
  exact hs

/-- The lexemes of a value are read where a value may stand, if there is room for its brackets. -/
def ReadsBack (j : Json) : Prop :=
  ∀ stack : List Frame, stack.length + j.depth ≤ depthLimit →
    Reads ⟨stack, .value⟩ j.lexemes ⟨stack, .after j⟩

theorem ReadsBack.below (h : ReadsBack j) (frame : Frame)
    (hroom : stack.length + 1 + j.depth ≤ depthLimit) :
    Reads ⟨frame :: stack, .value⟩ j.lexemes ⟨frame :: stack, .after j⟩ :=
  h (frame :: stack) hroom

/-! ## Words -/

theorem word?_integer {i : Int} (h : -0x8000000000000000 ≤ i ∧ i < 0x10000000000000000) :
    word? (toString i) = some (.number (.integer i h)) := by
  have hne : ∀ s : String, s.toList.all (fun c => c == '-' || c.isDigit) = false →
      toString i ≠ s := by
    rintro s hs rfl
    have hall : (toString i).toList.all (fun c => c == '-' || c.isDigit) = true :=
      List.all_eq_true.2 fun c hc => by simpa using mem_toString_int hc
    rw [hs] at hall
    cases hall
  have hnull : toString i ≠ "null" := hne _ (by decide)
  have htrue : toString i ≠ "true" := hne _ (by decide)
  have hfalse : toString i ≠ "false" := hne _ (by decide)
  rw [word?, if_neg (by simpa using hnull), if_neg (by simpa using htrue),
    if_neg (by simpa using hfalse), Number.ofText?_integer h]
  rfl

/-! ## Arrays -/

/-- The lexemes of a value do not start with the end of an array. -/
theorem exists_lexemes (j : Json) : ∃ l ls, j.lexemes = l :: ls ∧ l ≠ .mark ']' := by
  cases j with
  | array items => cases items <;> exact ⟨_, _, rfl, by simp⟩
  | object members => cases members <;> exact ⟨_, _, rfl, by simp⟩
  | _ => exact ⟨_, _, rfl, nofun⟩

/-- So the first item of an array is read as the others are. -/
theorem Reads.item (h : Reads ⟨.array [] :: stack, .value⟩ j.lexemes r) :
    Reads ⟨stack, .item⟩ j.lexemes r := by
  obtain ⟨l, ls, hlexemes, hl⟩ := exists_lexemes j
  rw [hlexemes, Reads, List.foldlM_cons] at h ⊢
  have hstep : step? ⟨stack, .item⟩ l = step? ⟨.array [] :: stack, .value⟩ l := by
    unfold step?
    split <;> simp_all
  rwa [hstep]

theorem reads_moreItems {items a : List Json}
    (h : ∀ k ∈ items, ReadsBack k ∧ stack.length + 1 + k.depth ≤ depthLimit) :
    Reads ⟨.array a :: stack, .after j⟩ (moreItems items ++ [.mark ']'])
      ⟨stack, .after (.array (a.reverse ++ j :: items))⟩ := by
  induction items generalizing a j with
  | nil =>
    rw [← List.reverse_cons]
    exact .cons rfl .nil
  | cons k rest ih =>
    obtain ⟨⟨hk, hroom⟩, hrest⟩ := List.forall_mem_cons.1 h
    have hmore := ih (a := j :: a) (j := k) hrest
    rw [List.reverse_cons, List.append_assoc] at hmore
    rw [moreItems, List.cons_append, List.append_assoc]
    exact .cons rfl ((hk.below _ hroom).append hmore)

theorem readsBack_array {items : List Json} (h : ∀ j ∈ items, ReadsBack j) :
    ReadsBack (.array items) := by
  intro stack hroom
  have hlt : stack.length < depthLimit := by
    rw [depth] at hroom
    omega
  have hopen : step? ⟨stack, .value⟩ (.mark '[') = some ⟨stack, .item⟩ := if_pos hlt
  have hitems : ∀ j ∈ items, ReadsBack j ∧ stack.length + 1 + j.depth ≤ depthLimit := by
    intro j hj
    have hdepth := itemsDepth_le.1 (Nat.le_refl (itemsDepth items)) j hj
    rw [depth] at hroom
    exact ⟨h j hj, by omega⟩
  cases items with
  | nil => exact .cons hopen (.cons rfl .nil)
  | cons j js =>
    obtain ⟨⟨hj, hroom⟩, hjs⟩ := List.forall_mem_cons.1 hitems
    exact .cons hopen ((Reads.item (hj.below _ hroom)).append (reads_moreItems (a := []) hjs))

/-! ## Objects -/

theorem reads_moreMembers {members a : List (String × Json)} {n : String}
    (h : ∀ m ∈ members, ReadsBack m.2 ∧ stack.length + 1 + m.2.depth ≤ depthLimit) :
    Reads ⟨.object a n :: stack, .after j⟩ (moreMembers members ++ [.mark '\x7d'])
      ⟨stack, .after (.object (a.reverse ++ (n, j) :: members))⟩ := by
  induction members generalizing a n j with
  | nil =>
    rw [← List.reverse_cons]
    exact .cons rfl .nil
  | cons m rest ih =>
    obtain ⟨⟨hm, hroom⟩, hrest⟩ := List.forall_mem_cons.1 h
    have hmore := ih (a := (n, j) :: a) (n := m.1) (j := m.2) hrest
    rw [List.reverse_cons, List.append_assoc] at hmore
    rw [moreMembers, List.cons_append, List.cons_append, List.cons_append, List.append_assoc]
    exact .cons rfl (.cons rfl (.cons rfl ((hm.below _ hroom).append hmore)))

theorem readsBack_object {members : List (String × Json)} (h : ∀ m ∈ members, ReadsBack m.2) :
    ReadsBack (.object members) := by
  intro stack hroom
  have hlt : stack.length < depthLimit := by
    rw [depth] at hroom
    omega
  have hopen : step? ⟨stack, .value⟩ (.mark '\x7b') = some ⟨stack, .name [] true⟩ := if_pos hlt
  have hmembers : ∀ m ∈ members, ReadsBack m.2 ∧ stack.length + 1 + m.2.depth ≤ depthLimit := by
    intro m hm
    have hdepth := membersDepth_le.1 (Nat.le_refl (membersDepth members)) m hm
    rw [depth] at hroom
    exact ⟨h m hm, by omega⟩
  cases members with
  | nil => exact .cons hopen (.cons rfl .nil)
  | cons m rest =>
    obtain ⟨⟨hm, hroom⟩, hrest⟩ := List.forall_mem_cons.1 hmembers
    exact .cons hopen (.cons rfl (.cons rfl
      ((hm.below _ hroom).append (reads_moreMembers (a := []) hrest))))

end Reader

/-! ## Documents -/

theorem Integral.readsBack {j : Json} (h : j.Integral) : Reader.ReadsBack j := by
  induction h with
  | null => exact fun _ _ => .cons rfl .nil
  | bool b => cases b <;> exact fun _ _ => .cons rfl .nil
  | number i h =>
    intro stack _
    refine .cons ?_ .nil
    show (Reader.word? (toString i)).map _ = _
    rw [Reader.word?_integer h]
    rfl
  | string s => exact fun _ _ => .cons rfl .nil
  | array _ ih => exact Reader.readsBack_array ih
  | object _ ih => exact Reader.readsBack_object ih

/-- A document without floating-point numbers is read back from its text, unless brackets nest too
deep in it. -/
theorem Integral.ofText?_pretty {j : Json} (h : j.Integral) (hdepth : j.depth ≤ 127) :
    ofText? j.pretty = some j := by
  have hread := h.readsBack [] (by rw [List.length_nil, Nat.zero_add]; exact hdepth)
  rw [ofText?, h.lexemes_pretty]
  exact Option.bind_eq_some_iff.2 ⟨_, rfl, Option.bind_eq_some_iff.2 ⟨_, hread, rfl⟩⟩

end ResourceSchema.Json
