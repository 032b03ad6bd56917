import Mathlib.Data.Multiset.FinsetOps
import ResourceSchema.Proofs.Value.Matching
import ResourceSchema.Proofs.Value.Write

/-!
# Equal values are interchangeable

Reads and writes depend on a value, a path and a replacement only up to equality (`atPath_rel`,
`setAt_rel`). One step of each does, and a path is one step after the other. The step that needs an
argument is that of a write into a set, where equal sets have their elements in other places: what a
new form of an element does to the classes of the elements does not depend on the places
(`classes_putElement`).
-/

namespace ResourceSchema

/-! ## Equality of errors -/

@[simp] theorem StepError.same_refl (e : StepError) : e.same e = true := by
  cases e <;> simp [same]

@[simp] theorem SetError.same_refl (e : SetError) : e.same e = true := by
  cases e <;> simp [same]

namespace Value

variable {t : Ty} {v w c c' new new' : Value} {s s' : PathStep} {p q : Path}
  {items others : List Value} {entries entries' : List (String × Value)}

/-- Reads agree: they fail with equal errors or give equal values. -/
abbrev SameRead : Except StepError Value → Except StepError Value → Prop :=
  Except.Rel (fun e e' => e.same e' = true) fun v w => v.same w = true

/-- Writes agree: they fail with equal errors or give equal values. -/
abbrev SameWrite : Except SetError Value → Except SetError Value → Prop :=
  Except.Rel (fun e e' => e.same e' = true) fun v w => v.same w = true

end Value

/-! ## Reads -/

theorem Ty.same_stepMismatch {s s' : PathStep} (t : Ty) (hs : s.same s' = true) :
    (t.stepMismatch s).same (t.stepMismatch s') = true := by
  unfold stepMismatch
  split <;> simp [StepError.same, hs]

/-- Equal steps lead from a type to one type. -/
theorem Ty.step_rel {s s' : PathStep} (t : Ty) (hs : s.same s' = true) :
    Except.Rel (fun e e' => e.same e' = true) Eq (t.step s) (t.step s') := by
  rcases PathStep.same_cases hs with rfl | ⟨v, w, rfl, rfl, _⟩
  · exact .refl StepError.same_refl (fun _ => rfl) _
  · cases t with
    | set u => exact .ok rfl
    | _ => exact .error (same_stepMismatch _ hs)

namespace Value

variable {t : Ty} {v w c c' new new' : Value} {s s' : PathStep} {p q : Path}
  {items others : List Value} {entries entries' : List (String × Value)}

theorem step_eq_error {e : StepError} (h : v.ty.step s = .error e) : v.step s = .error e := by
  rw [step, h]
  rfl

theorem step_rel (hv : v.same w = true) (hs : s.same s' = true) :
    SameRead (v.step s) (w.step s') := by
  have hty := Ty.step_rel v.ty hs
  have hw : w.ty = v.ty := (ty_eq_of_same hv).symm
  cases ht : v.ty.step s with
  | error e =>
    rw [ht] at hty
    cases ht' : v.ty.step s' with
    | ok u => rw [ht'] at hty; cases hty
    | error e' =>
      rw [ht'] at hty
      rw [step_eq_error ht, step_eq_error (hw ▸ ht')]
      cases hty with
      | error he => exact .error he
  | ok u =>
    have ht' : w.ty.step s' = .ok u := hw ▸ Ty.step_congr hs ht
    rw [step_eq ht, step_eq ht', ← isNull_eq_of_same hv, ← isUnknown_eq_of_same hv]
    split
    · exact .error hs
    · split
      · exact .error hs
      · have hchild := child?_congr hv hs
        generalize v.child? s = found, w.child? s' = found' at hchild ⊢
        cases hchild with
        | none => exact .error hs
        | some h => exact .ok h

theorem atPath_rel (hv : v.same w = true) (hp : Path.same p q = true) :
    SameRead (v.atPath p) (w.atPath q) := by
  rw [Path.same_iff] at hp
  induction hp generalizing v w with
  | nil => exact .ok hv
  | cons hs _ ih => exact (step_rel hv hs).bind fun _ _ hchild => ih hchild

/-! ## One step of a write -/

theorem materialize_congr (hv : v.same w = true) : v.materialize.same w.materialize = true := by
  cases sameParts_of_same hv with
  | null t => exact same_refl _
  | unknown t => exact same_refl _
  | _ => exact hv

theorem freshAt_rel (hv : v.same w = true) (hs : s.same s' = true) (t : Ty) :
    SameWrite (v.freshAt s t) (w.freshAt s' t) := by
  have hm := sameParts_of_same (materialize_congr hv)
  unfold freshAt
  generalize v.materialize = a at *
  generalize w.materialize = b at *
  rcases PathStep.same_cases hs with rfl | ⟨x, y, rfl, rfl, hxy⟩
  · cases hm <;> cases s <;> try exact .ok (same_refl _)
    case list.index items others hitems i =>
      simp only [hitems.length_eq]
      exact .refl SetError.same_refl same_refl _
    case set.element items others hitems x =>
      exact .refl SetError.same_refl same_refl _
  · cases hm <;> try exact .ok (same_refl _)
    simp only [ty_eq_of_same hxy]
    split
    · exact .error (SetError.same_refl _)
    · exact .ok hxy

theorem getD_congr {o o' : Option Value} (ho : SameOption o o') (h : v.same w = true) :
    (o.getD v).same (o'.getD w) = true := by
  cases ho with
  | none => exact h
  | some h => exact h

theorem openAt_rel (hv : v.same w = true) (hs : s.same s' = true) :
    SameWrite (v.openAt s) (w.openAt s') := by
  have hchild := child?_congr (materialize_congr hv) hs
  unfold openAt
  rw [← ty_eq_of_same hv]
  refine Except.Rel.bind (R := Eq) ((Ty.step_rel v.ty hs).mapError fun e e' he => he) ?_
  rintro t _ rfl
  exact (freshAt_rel hv hs t).bind fun fresh fresh' hfresh => .ok (getD_congr hchild hfresh)

/-! ## Putting back -/

theorem forall₂_set (hm : List.Forall₂ (fun v w => v.same w = true) items others)
    (hc : c.same c' = true) (i : Nat) :
    List.Forall₂ (fun v w => v.same w = true) (items.set i c) (others.set i c') := by
  induction hm generalizing i with
  | nil => exact .nil
  | cons hvw hrest ih =>
    cases i with
    | zero => exact .cons hc hrest
    | succ i => exact .cons hvw (ih i)

/-- Entries that match one by one, with one key and equal values. -/
abbrev Matches (entries entries' : List (String × Value)) : Prop :=
  List.Forall₂ (fun a b => a.1 = b.1 ∧ a.2.same b.2 = true) entries entries'

theorem assign_congr (hm : Matches entries entries') (hc : c.same c' = true) (key : String) :
    Matches (Keyed.assign key c entries) (Keyed.assign key c' entries') := by
  induction hm with
  | nil => exact .cons ⟨rfl, hc⟩ .nil
  | @cons a b _ _ hab hrest ih =>
    obtain ⟨k, v⟩ := a
    obtain ⟨l, w⟩ := b
    obtain ⟨rfl, hvw⟩ : k = l ∧ v.same w = true := hab
    rw [Keyed.assign, Keyed.assign]
    split
    · exact .cons ⟨rfl, hc⟩ hrest
    · exact .cons ⟨rfl, hvw⟩ ih

theorem insert_congr (hm : Matches entries entries') (hc : c.same c' = true) (key : String) :
    Matches (Keyed.insert key c entries) (Keyed.insert key c' entries') := by
  induction hm with
  | nil => exact .cons ⟨rfl, hc⟩ .nil
  | @cons a b _ _ hab hrest ih =>
    obtain ⟨k, v⟩ := a
    obtain ⟨l, w⟩ := b
    obtain ⟨rfl, hvw⟩ : k = l ∧ v.same w = true := hab
    rw [Keyed.insert, Keyed.insert]
    split
    · exact .cons ⟨rfl, hc⟩ (.cons ⟨rfl, hvw⟩ hrest)
    · split
      · exact .cons ⟨rfl, hc⟩ hrest
      · exact .cons ⟨rfl, hvw⟩ ih

theorem putElement_eq (items : List Value) (w c : Value) :
    putElement items (items.findIdx? fun v => v.same w) c =
      if (items.eraseP fun v => v.same w).any (fun v => v.same c) then
        items.eraseP fun v => v.same w
      else
        (items.eraseP fun v => v.same w).insertIdx ((items.findIdx? fun v => v.same w).getD
          (items.eraseP fun v => v.same w).length) c := by
  unfold putElement
  rw [List.eraseP_eq_eraseIdx]
  cases items.findIdx? fun v => v.same w <;> rfl

/-- The new form of an element takes the old one's class out of the set and puts its own in, if that
is not there anyway. -/
theorem classes_putElement (items : List Value) (w c : Value) :
    classes (putElement items (items.findIdx? fun v => v.same w) c) =
      ((classes items).erase w.classOf).ndinsert c.classOf := by
  rw [putElement_eq, ← classes_eraseP]
  by_cases hany : (items.eraseP fun v => v.same w).any (fun v => v.same c) = true
  · rw [if_pos hany, Multiset.ndinsert_of_mem (classOf_mem_classes.2 (List.any_eq_true.1 hany))]
  · have hnew : c.classOf ∉ classes (items.eraseP fun v => v.same w) := fun hc =>
      hany (List.any_eq_true.2 (classOf_mem_classes.1 hc))
    have hplace : (items.findIdx? fun v => v.same w).getD
        (items.eraseP fun v => v.same w).length ≤ (items.eraseP fun v => v.same w).length := by
      cases hi : items.findIdx? fun v => v.same w with
      | none => exact Nat.le_refl _
      | some i =>
        have hlt := findIdx?_lt hi
        rw [List.eraseP_eq_eraseIdx, hi, Option.getD_some, List.length_eraseIdx_of_lt hlt]
        omega
    rw [if_neg hany, Multiset.ndinsert_of_notMem hnew,
      classes_eq_of_perm (List.perm_insertIdx c _ hplace), classes_cons]

/-- Equal children in the places of equal steps leave equal values equal. -/
theorem putAt_congr (hv : v.same w = true) (hs : s.same s' = true) (hc : c.same c' = true) :
    (v.putAt s c).same (w.putAt s' c') = true := by
  have hm := materialize_congr hv
  unfold putAt
  generalize v.materialize = a at *
  generalize w.materialize = b at *
  rcases PathStep.same_cases hs with rfl | ⟨x, y, rfl, rfl, hxy⟩
  · cases sameParts_of_same hm with
    | list h =>
      cases s <;> try exact hm
      next i =>
      refine same_of_sameParts (.list ?_)
      rw [h.length_eq]
      split
      · exact forall₂_set h hc i.toNat
      · exact List.rel_append h (.cons hc .nil)
    | set h =>
      cases s <;> try exact hm
      next x =>
      refine same_of_sameParts (.set (pairUp_iff_classes.2 ?_))
      rw [classes_putElement, classes_putElement, pairUp_iff_classes.1 h, classOf_eq_iff.2 hc]
    | map h =>
      cases s <;> try exact hm
      exact same_of_sameParts (.map (insert_congr h hc _))
    | object h =>
      cases s <;> try exact hm
      exact same_of_sameParts (.object (assign_congr h hc _))
    | _ => exact hm
  · cases sameParts_of_same hm with
    | set h =>
      refine same_of_sameParts (.set (pairUp_iff_classes.2 ?_))
      rw [classes_putElement, classes_putElement, pairUp_iff_classes.1 h, classOf_eq_iff.2 hc,
        classOf_eq_iff.2 hxy]
    | _ => exact hm

theorem setAt_rel (hv : v.same w = true) (hp : Path.same p q = true)
    (hnew : new.same new' = true) : SameWrite (v.setAt p new) (w.setAt q new') := by
  rw [Path.same_iff] at hp
  induction hp generalizing v w with
  | nil =>
    rw [setAt, setAt, ← ty_eq_of_same hv, ← ty_eq_of_same hnew]
    split
    · exact .ok hnew
    · exact .error (SetError.same_refl _)
  | cons hs _ ih =>
    rw [setAt_cons, setAt_cons]
    exact (openAt_rel hv hs).bind fun child child' hchild =>
      (ih hchild).bind fun c c' hc => .ok (putAt_congr hv hs hc)

end Value

/-! ## Interchangeable values -/

namespace Pending

/-- A rule whose id is not known yet. -/
def rule (tags : List String) : Value :=
  .object [("id", .unknown .string), ("tags", .set .string (tags.map .string))]

def ruleTy : Ty := .object [("id", .string), ("tags", .set .string)]

def rules (items : List (List String)) : Value := .set ruleTy (items.map rule)

/-- The place of a tag of a rule. -/
def tagOf (tags : List String) (tag : String) : Path :=
  [.element (rule tags), .name "tags", .element (.string tag)]

end Pending

namespace Value

/-- Equal values have equal values at equal paths, or fail there with equal errors; and equal
replacements are written to them with equal results or equal errors. -/
theorem interchangeable {v w : Value} {p q : Path} (hv : v.same w = true)
    (hp : Path.same p q = true) :
    SameRead (v.atPath p) (w.atPath q) ∧
      ∀ new new', new.same new' = true → SameWrite (v.setAt p new) (w.setAt q new') :=
  ⟨atPath_rel hv hp, fun _ _ hnew => setAt_rel hv hp hnew⟩

/-- Two rules of one set that are equal so far, with their tags and themselves in either order. -/
theorem interchangeable_pending_rules :
    let v := Pending.rules [["a", "b"], ["a", "b"], ["c"]]
    let w := Pending.rules [["c"], ["b", "a"], ["b", "a"]]
    let p := Pending.tagOf ["a", "b"] "a"
    let q := Pending.tagOf ["b", "a"] "a"
    v.same w = true ∧ Path.same p q = true ∧ SameRead (v.atPath p) (w.atPath q) ∧
      SameWrite (v.setAt p (.string "c")) (w.setAt q (.string "c")) ∧
      ((v.setAt p (.string "c")).toOption.any fun x =>
        x.same (Pending.rules [["a", "b"], ["b", "c"], ["c"]])) = true := by
  intro v w p q
  have hv : v.same w = true := by decide +kernel
  have hp : Path.same p q = true := by decide +kernel
  obtain ⟨hread, hwrite⟩ := interchangeable hv hp
  exact ⟨hv, hp, hread, hwrite _ _ (same_refl _), by decide +kernel⟩

end Value
end ResourceSchema
