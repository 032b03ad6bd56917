import ResourceSchema.Proofs.Planning.Typed
import ResourceSchema.Proofs.Value.Typing

/-!
# Values that can be obtained

A program obtains values from the constructors, from documents, by reading and writing along paths
and by planning, in any order and nesting. Each of these says of what type its result is: a
constructor is given the type or that of the elements, a read goes by the types on its path, a write
leaves the type, and a plan is of the type of its schema. The values are of these types at every
depth (`Obtainable.hasType`). The operations are the only ways to a value, so that a custom plan
modifier has to make its answer from what it is asked about, by the same operations.
-/

namespace ResourceSchema

/-- The values that can be obtained from some given ones, each with the type that the operation it
comes from says it is of. -/
inductive Obtainable : (Ty → Value → Prop) → Ty → Value → Prop
  | given {G : Ty → Value → Prop} {t : Ty} {v : Value} (h : G t v) : Obtainable G t v
  | null {G : Ty → Value → Prop} {t : Ty} (ht : t.WellFormed) : Obtainable G t (.null t)
  | unknown {G : Ty → Value → Prop} {t : Ty} (ht : t.WellFormed) : Obtainable G t (.unknown t)
  | string {G : Ty → Value → Prop} (s : String) : Obtainable G .string (.string s)
  | number {G : Ty → Value → Prop} (n : Number) : Obtainable G .number (.number n)
  | float {G : Ty → Value → Prop} {x : Extended} {v : Value} (h : Value.ofExtended? x = some v) :
      Obtainable G .number v
  | bool {G : Ty → Value → Prop} (b : Bool) : Obtainable G .bool (.bool b)
  | list {G : Ty → Value → Prop} {t : Ty} {T : Value → Ty} {items : List Value} {v : Value}
      (ht : t.WellFormed) (hi : ∀ x ∈ items, Obtainable G (T x) x)
      (h : Value.listOf t items = .ok v) : Obtainable G (.list t) v
  | set {G : Ty → Value → Prop} {t : Ty} {T : Value → Ty} {items : List Value} {v : Value}
      (ht : t.WellFormed) (hi : ∀ x ∈ items, Obtainable G (T x) x)
      (h : Value.setOf t items = .ok v) : Obtainable G (.set t) v
  | map {G : Ty → Value → Prop} {t : Ty} {T : Value → Ty} {entries : List (String × Value)}
      {v : Value} (ht : t.WellFormed) (he : ∀ e ∈ entries, Obtainable G (T e.2) e.2)
      (h : Value.mapOf t entries = .ok v) : Obtainable G (.map t) v
  | object {G : Ty → Value → Prop} {T : Value → Ty} {fields : List (String × Value)}
      (hf : ∀ e ∈ fields, Obtainable G (T e.2) e.2) :
      Obtainable G (.ofAttributes (fields.map fun e => (e.1, T e.2))) (Value.objectOf fields)
  | objectOfType {G : Ty → Value → Prop} {t : Ty} {T : Value → Ty}
      {fields : List (String × Value)} {v : Value} (ht : t.WellFormed)
      (hf : ∀ e ∈ fields, Obtainable G (T e.2) e.2)
      (h : Value.objectOfType t fields = .ok v) : Obtainable G t v
  | document {G : Ty → Value → Prop} {t : Ty} {j : Json} {v : Value} (ht : t.WellFormed)
      (h : Value.ofJson t j = .ok v) : Obtainable G t v
  | read {G : Ty → Value → Prop} {t u : Ty} {v w : Value} {p : Path} (hv : Obtainable G t v)
      (ht : t.atPath p = .ok u) (h : v.atPath p = .ok w) : Obtainable G u w
  | write {G : Ty → Value → Prop} {t u : Ty} {T : Value → Ty} {v new w : Value} {p : Path}
      (hv : Obtainable G t v) (hp : ∀ x, .element x ∈ p → Obtainable G (T x) x)
      (hnew : Obtainable G u new) (h : v.setAt p new = .ok w) : Obtainable G t w
  | plan {G : Ty → Value → Prop} {custom : CustomModifiers} {config state plan : Data}
      {T : Value → Ty} {A : String → PlanRequest → Ty} {t : Ty} {v : Value}
      (hs : plan.schema.Built)
      (hd : ∀ x, plan.schema.Runs (.default x) → Obtainable G (T x) x)
      (hcustom : ∀ name (r : PlanRequest), (∃ t, r.plan.schema.typeAt r.path = .ok t) →
        Obtainable (fun u x => G u x ∨ r.Holds u x) (A name r) (custom name r).planValue)
      (hconfig : Obtainable G config.schema.ty config.raw)
      (hstate : Obtainable G state.schema.ty state.raw)
      (hplan : Obtainable G plan.schema.ty plan.raw)
      (h : (Data.modifyPlan custom config state plan).Holds t v) : Obtainable G t v

/-! ## Obtained values are of their types -/

theorem Path.wellFormed_iff {p : Path} :
    p.WellFormed ↔ ∀ v, .element v ∈ p → v.WellFormed := by
  constructor
  · exact fun h v hv => h _ hv
  · intro h s hs
    cases s with
    | element v => exact h v hs
    | name name => trivial
    | index i => trivial
    | key key => trivial

theorem Value.ofExtended?_spec {x : Extended} {v : Value} (h : ofExtended? x = some v) :
    v.ty = .number ∧ v.WellFormed := by
  obtain ⟨y, _, rfl⟩ := Option.map_eq_some_iff.1 h
  exact ⟨rfl, trivial⟩

namespace Obtainable

variable {G : Ty → Value → Prop} {t : Ty} {v : Value}

theorem spec (h : Obtainable G t v) (hg : ∀ u x, G u x → x.ty = u ∧ x.WellFormed) :
    v.ty = t ∧ v.WellFormed := by
  induction h with
  | given h => exact hg _ _ h
  | null ht => exact ⟨rfl, ht⟩
  | unknown ht => exact ⟨rfl, ht⟩
  | string s => exact ⟨rfl, trivial⟩
  | number n => exact ⟨rfl, trivial⟩
  | float h => exact Value.ofExtended?_spec h
  | bool b => exact ⟨rfl, trivial⟩
  | list ht _ h ih => exact Value.wellFormed_listOf ht (fun x hx => (ih x hx hg).2) h
  | set ht _ h ih => exact Value.wellFormed_setOf ht (fun x hx => (ih x hx hg).2) h
  | map ht _ h ih => exact Value.wellFormed_mapOf ht (fun e he => (ih e he hg).2) h
  | object _ ih =>
    refine ⟨(Value.ty_objectOf _).trans (congrArg Ty.ofAttributes ?_),
      Value.wellFormed_objectOf fun e he => (ih e he hg).2⟩
    exact List.map_congr_left fun e he => by rw [(ih e he hg).1]
  | objectOfType ht _ h ih =>
    exact Value.wellFormed_objectOfType ht (fun e he => (ih e he hg).2) h
  | document ht h => exact Value.wellFormed_ofJson ht h
  | read _ ht h ih =>
    obtain ⟨rfl, hv⟩ := ih hg
    obtain ⟨hty, hw⟩ := Value.atPath_spec hv h
    exact ⟨Except.ok.inj (hty.symm.trans ht), hw⟩
  | write _ _ _ h ihv ihp ihnew =>
    obtain ⟨rfl, hv⟩ := ihv hg
    exact Value.setAt_spec hv (Path.wellFormed_iff.2 fun x hx => (ihp x hx hg).2) (ihnew hg).2 h
  | @plan G custom config state plan _ _ t v hs _ _ _ _ _ h ihd ihcustom ihconfig ihstate
      ihplan =>
    have hcontext : PlanContext.Typed ⟨PlanModifier.respond custom, config, state, plan⟩ := by
      refine ⟨ihconfig hg, ihstate hg, ihplan hg, hs.wellFormed, fun m r hm hr htyped => ?_⟩
      -- What a custom modifier is given is of its types when its request is.
      have hgiven : ∀ u x, G u x ∨ r.Holds u x → x.ty = u ∧ x.WellFormed := fun u x hx =>
        hx.elim (hg u x) fun h => ⟨htyped.holds u x h, hr.holds h⟩
      exact PlanModifier.wellFormed_respond
        (fun name _ _ => (ihcustom name r htyped.path hgiven).2)
        (fun w hw => (ihd w (hw ▸ hm) hg).2) hr
    exact hcontext.holds h

/-- Every value that can be obtained is of its type at every depth. -/
theorem hasType (h : Obtainable (fun _ _ => False) t v) : Value.HasType t v :=
  Value.hasType_iff.2 (h.spec fun _ _ hx => hx.elim)

end Obtainable

/-! ## An example

A rule is made with a note and no id, the id is written as one to come, and planning renames it. -/

namespace Renamed

def schema : Schema := Ruled.schemaWith (.custom "rename" "Renames the rules")

theorem schema_built : schema.Built := Ruled.schemaWith_built _

/-- Gives all rules one note. -/
def rename : CustomModifiers := fun _ _ => .keep (.string "b")

def ruleTy : Ty := .object [("id", .string), ("note", .string)]

/-- A resource with one rule. -/
def data (role : Role) (id : Value) : Data :=
  { Ruled.data role [Ruled.rule id "a"] with schema := schema }

/-- Where the rule gets its id. -/
def idAt : Path := [.name "rules", .element (Ruled.rule (.null .string) "a"), .name "id"]

theorem setAt_idAt : (data .config (.null .string)).raw.setAt idAt (.unknown .string) =
    .ok (data .plan (.unknown .string)).raw := by
  have hopen : (Value.set ruleTy [Ruled.rule (.null .string) "a"]).openAt
      (.element (Ruled.rule (.null .string) "a")) = .ok (Ruled.rule (.null .string) "a") := by
    show Except.ok (([Ruled.rule (.null .string) "a"].find? _).getD _) = _
    rw [List.find?_cons_of_pos (Value.same_refl _), Option.getD_some]
  have hput : (Value.set ruleTy [Ruled.rule (.null .string) "a"]).putAt
      (.element (Ruled.rule (.null .string) "a")) (Ruled.rule (.unknown .string) "a") =
        .set ruleTy [Ruled.rule (.unknown .string) "a"] := by
    show Value.set ruleTy (Value.putElement _ ([Ruled.rule (.null .string) "a"].findIdx? _) _) = _
    rw [List.findIdx?_cons, Value.same_refl]
    rfl
  refine Value.setAt_cons_eq_ok.2 ⟨_, .set ruleTy [Ruled.rule (.unknown .string) "a"], rfl, ?_, rfl⟩
  exact Value.setAt_cons_eq_ok.2 ⟨_, _, hopen, rfl, hput.symm⟩

variable (G : Ty → Value → Prop)

theorem wellFormed_ruleTy : ruleTy.WellFormed := by
  have hid : (Value.null .string).ty = .string := rfl
  exact (Ruled.rule_spec "a" hid trivial).2.ty

theorem obtainable_rule : Obtainable G ruleTy (Ruled.rule (.null .string) "a") := by
  have hmade : Value.objectOfType ruleTy [("note", .string "a")] =
      .ok (Ruled.rule (.null .string) "a") := rfl
  exact .objectOfType (T := fun _ => .string) wellFormed_ruleTy
    (List.forall_mem_singleton.2 (.string "a")) hmade

theorem obtainable_config : Obtainable G schema.ty (data .config (.null .string)).raw := by
  have hrules : Obtainable G (.set ruleTy) (.set ruleTy [Ruled.rule (.null .string) "a"]) := by
    refine .set (T := fun _ => ruleTy) wellFormed_ruleTy
      (List.forall_mem_singleton.2 (obtainable_rule G)) (Value.setOf_eq_ok.2 ⟨?_, ?_, rfl⟩)
    · exact List.forall_mem_singleton.2 rfl
    · exact List.pairwise_singleton _ _
  have hmade : Value.objectOfType schema.ty
      [("rules", .set ruleTy [Ruled.rule (.null .string) "a"])] =
        .ok (data .config (.null .string)).raw := rfl
  exact .objectOfType (T := fun _ => .set ruleTy) schema_built.wellFormed.ty
    (List.forall_mem_singleton.2 hrules) hmade

theorem obtainable_plan : Obtainable G schema.ty (data .plan (.unknown .string)).raw := by
  refine .write (T := fun _ => ruleTy) (obtainable_config G) (fun x hx => ?_)
    (.unknown (t := .string) trivial) setAt_idAt
  obtain rfl : x = Ruled.rule (.null .string) "a" := by simpa [idAt] using hx
  exact obtainable_rule G

theorem not_runs_default (x : Value) : ¬schema.Runs (.default x) := fun h => by
  rcases Ruled.runs_schemaWith h with h | h <;> cases h

end Renamed

/-- The rule that was written into is renamed, in a resource of the type of the schema. -/
theorem Obtainable.hasType_renamed_rule :
    let outcome := Data.modifyPlan Renamed.rename (Renamed.data .config (.null .string))
      (.absent .state Renamed.schema) (Renamed.data .plan (.unknown .string))
    Obtainable (fun _ _ => False) Renamed.schema.ty outcome.plan.raw ∧
      Value.HasType Renamed.schema.ty outcome.plan.raw ∧
      (outcome.plan.raw.atPlace? (Ruled.noteAt 0)).any fun v => v.same (.string "b") := by
  intro outcome
  have hschema : outcome.plan.schema.ty = Renamed.schema.ty := by decide +kernel
  have hplanned : Obtainable (fun _ _ => False) outcome.plan.schema.ty outcome.plan.raw :=
    .plan (T := fun _ => .string) (A := fun _ _ => .string) Renamed.schema_built
      (fun x hx => absurd hx (Renamed.not_runs_default x)) (fun _ _ _ => .string "b")
      (Renamed.obtainable_config _) (.null Renamed.schema_built.wellFormed.ty)
      (Renamed.obtainable_plan _) .plan
  rw [hschema] at hplanned
  exact ⟨hplanned, hplanned.hasType, by decide +kernel⟩

end ResourceSchema
