import ResourceSchema.Proofs.Keyed
import ResourceSchema.Proofs.Recursion
import ResourceSchema.Proofs.Schema.Built
import ResourceSchema.Validation

/-!
# Configurations without errors

A configuration has no error exactly if every node in it has a value that the shape of the node
admits and that its validators find nothing wrong with (`Data.hasError_validate_iff`).
-/

namespace ResourceSchema

variable {path : Path} {v : Value} {visit : Visit}

/-! ## The validators of a schema -/

/-- The validators of an attribute and of those nested in it. -/
inductive Attribute.Checks : Attribute → Validator → Prop
  | own {a : Attribute} {c : Validator} (h : c ∈ a.traits.behaviour.validators) : Checks a c
  | member {mode : NestingMode} {members : List (String × Attribute)} {traits : AttributeTraits}
      {e : String × Attribute} {c : Validator} (he : e ∈ members) (h : Checks e.2 c) :
      Checks (.group mode members traits) c

/-- The validators of a block and of what is nested in it. -/
inductive Block.Checks : Block → Validator → Prop
  | own {b : Block} {c : Validator} (h : c ∈ b.traits.behaviour.validators) : Checks b c
  | attr {b : Block} {e : String × Attribute} {c : Validator} (he : e ∈ b.attributes)
      (h : e.2.Checks c) : Checks b c
  | block {b : Block} {e : String × Block} {c : Validator} (he : e ∈ b.blocks)
      (h : Checks e.2 c) : Checks b c

/-- The validators at any depth of a schema. -/
def Schema.Checks (s : Schema) (c : Validator) : Prop :=
  (∃ e ∈ s.attributes, e.2.Checks c) ∨ ∃ e ∈ s.blocks, e.2.Checks c

/-! ## Visits -/

/-- Visits of a member where the fields have a value for it. -/
def presentVisits {M : Type} (visits : Path → Value → M → List Visit) (path : Path)
    (fields : List (String × Value)) (e : String × M) : List Visit :=
  match fields.lookup e.1 with
  | some v => visits (path ++ [.name e.1]) v e.2
  | none => []

theorem mem_presentVisits {M : Type} {visits : Path → Value → M → List Visit}
    {fields : List (String × Value)} {members : List (String × M)} :
    visit ∈ members.flatMap (presentVisits visits path fields) ↔
      ∃ e ∈ members, ∃ v, fields.lookup e.1 = some v ∧
        visit ∈ visits (path ++ [.name e.1]) v e.2 := by
  rw [List.mem_flatMap]
  refine exists_congr fun e => and_congr_right fun _ => ?_
  unfold presentVisits
  cases fields.lookup e.1 <;> simp

theorem Attribute.memberVisits_eq_flatMap (path : Path) (fields : List (String × Value))
    (members : List (String × Attribute)) :
    memberVisits path fields members = members.flatMap (presentVisits visits path fields) :=
  eq_flatMap_of_cons (f := memberVisits path fields) rfl
    (fun e _ => by cases h : fields.lookup e.1 <;> simp [memberVisits, presentVisits, h]) members

theorem Block.memberVisits_eq_flatMap (path : Path) (fields : List (String × Value))
    (members : List (String × Block)) :
    memberVisits path fields members = members.flatMap (presentVisits visits path fields) :=
  eq_flatMap_of_cons (f := memberVisits path fields) rfl
    (fun e _ => by cases h : fields.lookup e.1 <;> simp [memberVisits, presentVisits, h]) members

theorem Attribute.mem_visits_group {mode : NestingMode} {members : List (String × Attribute)}
    {traits : AttributeTraits} : visit ∈ visits path v (.group mode members traits) ↔
      visit = ⟨path, .attr (.group mode members traits), v⟩ ∨
        ∃ o ∈ collectedObjects path v, visit ∈ memberVisits o.1 (objectFields o.2) members := by
  rw [visits, List.mem_cons, List.mem_flatMap]

theorem Block.mem_visits {b : Block} : visit ∈ visits path v b ↔
    visit = ⟨path, .block b, v⟩ ∨ ∃ o ∈ collectedObjects path v,
      visit ∈ Attribute.memberVisits o.1 (objectFields o.2) b.attributes ∨
        visit ∈ memberVisits o.1 (objectFields o.2) b.blocks := by
  obtain ⟨nesting, attributes, blocks, traits⟩ := b
  simp only [visits, List.mem_cons, List.mem_flatMap, List.mem_append]

theorem Schema.mem_visits {s : Schema} : visit ∈ s.visits v ↔
    visit ∈ Attribute.memberVisits [] (objectFields v) s.attributes ∨
      visit ∈ Block.memberVisits [] (objectFields v) s.blocks := by
  rw [visits, List.mem_append]

theorem Attribute.WellFormed.checks_of_visit {a : Attribute} {c : Validator} (ha : a.WellFormed)
    (hv : visit ∈ a.visits path v) (hc : c ∈ visit.member.behaviour.validators) : a.Checks c := by
  induction ha generalizing path v with
  | leaf _ _ =>
    rw [visits, List.mem_singleton] at hv
    exact .own (by rw [hv] at hc; exact hc)
  | @group mode members traits _ _ _ ih =>
    rcases mem_visits_group.1 hv with hv | ⟨o, _, hv⟩
    · exact .own (by rw [hv] at hc; exact hc)
    · rw [memberVisits_eq_flatMap] at hv
      obtain ⟨e, he, x, _, hx⟩ := mem_presentVisits.1 hv
      exact .member he (ih e he hx)

theorem Block.WellFormed.checks_of_visit {b : Block} {c : Validator} (hb : b.WellFormed)
    (hv : visit ∈ b.visits path v) (hc : c ∈ visit.member.behaviour.validators) : b.Checks c := by
  induction hb generalizing path v with
  | mk _ ha _ _ ih =>
    rcases mem_visits.1 hv with hv | ⟨o, _, hv | hv⟩
    · exact .own (by rw [hv] at hc; exact hc)
    · rw [Attribute.memberVisits_eq_flatMap] at hv
      obtain ⟨e, he, x, _, hx⟩ := mem_presentVisits.1 hv
      exact .attr he ((ha e he).checks_of_visit hx hc)
    · rw [memberVisits_eq_flatMap] at hv
      obtain ⟨e, he, x, _, hx⟩ := mem_presentVisits.1 hv
      exact .block he (ih e he hx)

theorem Schema.WellFormed.checks_of_visit {s : Schema} {c : Validator} (hs : s.WellFormed)
    (hv : visit ∈ s.visits v) (hc : c ∈ visit.member.behaviour.validators) : s.Checks c := by
  rcases Schema.mem_visits.1 hv with hv | hv
  · rw [Attribute.memberVisits_eq_flatMap] at hv
    obtain ⟨e, he, x, _, hx⟩ := mem_presentVisits.1 hv
    exact .inl ⟨e, he, (hs.attributes e he).checks_of_visit hx hc⟩
  · rw [Block.memberVisits_eq_flatMap] at hv
    obtain ⟨e, he, x, _, hx⟩ := mem_presentVisits.1 hv
    exact .inr ⟨e, he, (hs.blocks e he).checks_of_visit hx hc⟩

/-! ## What the shape of a node admits -/

/-- A required attribute is set, and one that is only computed is not. -/
structure Attribute.Admits (a : Attribute) (v : Value) : Prop where
  required : a.flags.required = true → v.isNull = false
  readOnly : a.flags.computed = true → a.flags.optional = false → a.flags.required = false →
    v.isNull = true

/-- The count of a block that is not unknown is within the bounds; a maximum of zero is none. -/
structure Block.Admits (b : Block) (v : Value) : Prop where
  min : v.isUnknown = false → b.traits.minItems.toNat ≤ b.itemCount v
  max : v.isUnknown = false → b.traits.maxItems = 0 ∨ b.itemCount v ≤ b.traits.maxItems.toNat

/-- The value at a node is one that the shape of the node admits. -/
def Visit.Passes (visit : Visit) : Prop :=
  match visit.member with
  | .attr a => a.Admits visit.value
  | .block b => b.Admits visit.value

@[simp] theorem Diagnostics.hasError_append (ds es : Diagnostics) :
    hasError (ds ++ es) = (hasError ds || hasError es) :=
  List.any_append

@[simp] theorem Diagnostics.hasError_flatMap {α : Type} {f : α → Diagnostics} {xs : List α} :
    hasError (xs.flatMap f) = false ↔ ∀ x ∈ xs, (f x).hasError = false := by
  simp only [hasError, List.any_flatMap, List.any_eq_false, Bool.not_eq_true]

@[simp] theorem Diagnostic.isError_errorAt (path : Path) (summary detail : String) :
    (errorAt path summary detail).isError = true := rfl

@[simp] theorem Diagnostic.isError_warningAt (path : Path) (summary detail : String) :
    (warningAt path summary detail).isError = false := rfl

@[simp] theorem Diagnostic.isError_warning (summary detail : String) :
    (warning summary detail).isError = false := rfl

@[simp] theorem hasError_diagnoseIf (condition : Bool) (d : Diagnostic) :
    (diagnoseIf condition d).hasError = (condition && d.isError) := by
  cases condition <;> simp [diagnoseIf, Diagnostics.hasError]

@[simp] theorem hasError_deprecationWarning (summary : String) (docs : Documentation) :
    (deprecationWarning path summary docs v).hasError = false := by
  unfold deprecationWarning
  split
  · simp
  · rfl

theorem Attribute.hasError_diagnose (a : Attribute) :
    (a.diagnose path v).hasError = false ↔ a.Admits v := by
  have hadmits : a.Admits v ↔ (a.flags.required = true → v.isNull = false) ∧
      (a.flags.computed = true → a.flags.optional = false → a.flags.required = false →
        v.isNull = true) :=
    ⟨fun ⟨hr, hc⟩ => ⟨hr, hc⟩, fun ⟨hr, hc⟩ => ⟨hr, hc⟩⟩
  simp [diagnose, hadmits]

theorem BlockTraits.maxItems_pos {traits : BlockTraits} :
    0 < traits.maxItems.toNat ↔ traits.maxItems ≠ 0 := by
  simp only [Nat.pos_iff_ne_zero, ne_eq, ← UInt64.toNat_inj, UInt64.toNat_zero]

theorem Block.hasError_diagnose (b : Block) :
    (b.diagnose path v).hasError = false ↔ b.Admits v := by
  have hadmits : b.Admits v ↔ (v.isUnknown = false → b.traits.minItems.toNat ≤ b.itemCount v) ∧
      (v.isUnknown = false → b.traits.maxItems ≠ 0 →
        b.itemCount v ≤ b.traits.maxItems.toNat) := by
    simp only [ne_eq, ← or_iff_not_imp_left]
    exact ⟨fun ⟨hmin, hmax⟩ => ⟨hmin, hmax⟩, fun ⟨hmin, hmax⟩ => ⟨hmin, hmax⟩⟩
  simp [diagnose, hadmits, BlockTraits.maxItems_pos]

/-- A configuration has no error exactly if no shape and no validator finds one. -/
theorem Data.hasError_validate_iff {custom : CustomValidators} {d : Data} :
    (d.validate custom).hasError = false ↔ ∀ visit ∈ d.schema.visits d.raw,
      visit.Passes ∧ ∀ c ∈ visit.member.behaviour.validators,
        (c.check custom ⟨visit.path, visit.value, d⟩).hasError = false := by
  rw [validate, validateWith, Diagnostics.hasError_append, Bool.or_eq_false_iff,
    Diagnostics.hasError_flatMap]
  refine (and_iff_right ?_).trans ?_
  · split
    · simp
    · rfl
  refine forall₂_congr fun visit _ => ?_
  rw [Visit.diagnose, Diagnostics.hasError_append, Bool.or_eq_false_iff,
    Diagnostics.hasError_flatMap]
  refine and_congr_left fun _ => ?_
  unfold Visit.Passes
  cases visit.member with
  | attr a => exact a.hasError_diagnose
  | block b => exact b.hasError_diagnose

end ResourceSchema
