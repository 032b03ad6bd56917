import ResourceSchema.Proofs.Schema.Resolution
import ResourceSchema.Proofs.Value.ReadBack

/-!
# Steps of one kind

The nodes of a schema take the steps into a collection by their kind: all indices that are not
negative, all keys and all set elements lead to the one node of the elements
(`SchemaNode.step_eq_ok_iff`), while each name leads to a member of its own. So paths that differ in
set elements only lead to the same node.
-/

namespace ResourceSchema

variable {t u : Ty} {s s' : PathStep} {p q : Path}

/-! ## One step -/

theorem Ty.step_eq_ok_iff_element? (hname : s.kind ≠ .name) : t.step s = .ok u ↔
    t.childStep? = some s.kind ∧ (∀ i, s = .index i → 0 ≤ i) ∧ t.element? = some u := by
  rw [Ty.step_eq_ok_iff]
  constructor
  · intro h
    cases h with
    | name _ => exact absurd rfl hname
    | index hi => exact ⟨rfl, fun j hj => by cases hj; exact hi, rfl⟩
    | element => exact ⟨rfl, nofun, rfl⟩
    | key => exact ⟨rfl, nofun, rfl⟩
  · rintro ⟨hk, hindex, hu⟩
    cases t with
    | list t => cases s <;> cases hk; cases hu; exact .index (hindex _ rfl)
    | set t => cases s <;> cases hk; cases hu; exact .element
    | map t => cases s <;> cases hk; cases hu; exact .key
    | _ => cases hu

namespace SchemaNode

variable {node next : SchemaNode} {mode : NestingMode} {target : Ty} {element : SchemaNode}
  {single : Except StepError SchemaNode}

/-- The node of one element of what a node collects. -/
def element? : SchemaNode → Option SchemaNode
  | .attr (.leaf t _) | .type t => t.element?.map .type
  | .attr (.group _ members _) => some (.groupElement members)
  | .block b => some (.blockElement b)
  | .root _ | .groupElement _ | .blockElement _ => none

theorem kind_of_member {attributes : List (String × Attribute)} {blocks : List (String × Block)}
    (h : member attributes blocks s = .ok next) : s.kind = .name := by
  cases s <;> first | rfl | cases h

theorem collected_eq_ok_iff (hname : s.kind ≠ .name) :
    collected mode target element single s = .ok next ↔ some mode.stepKind = some s.kind ∧
      (∀ i, s = .index i → 0 ≤ i) ∧ some element = some next := by
  constructor
  · intro h
    unfold collected at h
    split at h
    · split at h <;> cases h
      next i hi => exact ⟨rfl, fun j hj => by cases hj; exact Int.not_lt.1 hi, rfl⟩
    · cases h; exact ⟨rfl, nofun, rfl⟩
    · cases h; exact ⟨rfl, nofun, rfl⟩
    · exact absurd rfl hname
    · cases h
  · rintro ⟨hk, hindex, hnext⟩
    cases hnext
    cases mode <;> cases s <;> cases hk
    · exact if_neg (Int.not_lt.2 (hindex _ rfl))
    · rfl
    · rfl
    · exact absurd rfl hname

theorem tyStep_eq_ok_iff (hname : s.kind ≠ .name) : (t.step s).map type = .ok next ↔
    t.childStep? = some s.kind ∧ (∀ i, s = .index i → 0 ≤ i) ∧ t.element?.map type = some next := by
  rw [Except.map_eq_ok, Option.map_eq_some_iff]
  constructor
  · rintro ⟨u, hu, rfl⟩
    obtain ⟨hk, hindex, helement⟩ := (Ty.step_eq_ok_iff_element? hname).1 hu
    exact ⟨hk, hindex, u, helement, rfl⟩
  · rintro ⟨hk, hindex, u, helement, rfl⟩
    exact ⟨u, (Ty.step_eq_ok_iff_element? hname).2 ⟨hk, hindex, helement⟩, rfl⟩

/-- A step that is no name leads to the elements, from a node that takes steps of its kind. -/
theorem step_eq_ok_iff (hname : s.kind ≠ .name) : node.step s = .ok next ↔
    node.stepKind? = some s.kind ∧ (∀ i, s = .index i → 0 ≤ i) ∧ node.element? = some next := by
  have hmember : ∀ {attributes : List (String × Attribute)} {blocks : List (String × Block)},
      member attributes blocks s = .ok next ↔ some StepKind.name = some s.kind ∧
        (∀ i, s = .index i → 0 ≤ i) ∧ none = some next :=
    iff_of_false (fun h => hname (kind_of_member h)) fun h => nomatch h.2.2
  cases node with
  | root schema => exact hmember
  | attr a =>
    cases a with
    | leaf t traits => exact tyStep_eq_ok_iff hname
    | group mode members traits => exact collected_eq_ok_iff hname
  | groupElement members => exact hmember
  | block b => exact collected_eq_ok_iff hname
  | blockElement b => exact hmember
  | type t => exact tyStep_eq_ok_iff hname

/-- All indices, all keys and all set elements lead to the same node, negative indices apart. -/
theorem step_of_kind (h : node.step s = .ok next) (hk : s'.kind = s.kind) (hname : s.kind ≠ .name)
    (hindex : ∀ i, s' = .index i → 0 ≤ i) : node.step s' = .ok next := by
  obtain ⟨hnode, -, hnext⟩ := (step_eq_ok_iff hname).1 h
  rw [← hk] at hname hnode
  exact (step_eq_ok_iff hname).2 ⟨hnode, hindex, hnext⟩

/-! ## Alike paths -/

theorem step_alike (hs : s.Alike s') (h : node.step s = .ok next) : node.step s' = .ok next := by
  cases hs with
  | refl => exact h
  | element v w => exact step_of_kind h rfl nofun nofun

theorem resolveFrom_alike {consumed consumed' : Path} (hp : Path.Alike p q)
    (h : resolveFrom consumed node p = .ok next) : resolveFrom consumed' node q = .ok next := by
  induction hp generalizing node consumed consumed' with
  | nil => exact h
  | cons hs _ ih =>
    obtain ⟨child, hchild, h⟩ := resolveFrom_cons_eq_ok.1 h
    exact resolveFrom_cons_eq_ok.2 ⟨child, step_alike hs hchild, ih h⟩

end SchemaNode

theorem Schema.typeAt_alike {schema : Schema} (hp : Path.Alike p q)
    (h : schema.typeAt p = .ok t) : schema.typeAt q = .ok t := by
  obtain ⟨node, hnode, hty⟩ := Except.bind_eq_ok.1 h
  exact Except.bind_eq_ok.2 ⟨node, SchemaNode.resolveFrom_alike hp hnode, hty⟩

end ResourceSchema
