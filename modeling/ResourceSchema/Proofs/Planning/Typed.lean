import ResourceSchema.Proofs.Planning.Replaced

/-!
# Types of what planning hands out

A plan modifier is given values of the types that the schema has for them: the planned value is of
the type at the path of the request, a set element on this path of the type that its set declares
(`PlanContext.Asks.typed`). What comes out keeps to its types if the answers to such requests are
well formed (`PlanContext.Typed.holds`), since a run depends on the answers to what it asks only.
-/

namespace ResourceSchema

variable {context : PlanContext} {path : Path} {nodes : PlanNodes} {m : Member} {s : PathStep}
  {t : Ty} {v : Value}

/-! ## Set elements on a path -/

/-- The set elements on a path from a type are of the types that their sets declare. -/
def Path.TypedIn (t : Ty) (p : Path) : Prop :=
  ∀ before v after u, p = before ++ .element v :: after → t.atPath before = .ok (.set u) → v.ty = u

theorem Path.TypedIn.nil : Path.TypedIn t [] :=
  fun _ _ _ _ hp => absurd hp.symm (by simp)

theorem Path.TypedIn.append_singleton (h : path.TypedIn t)
    (hs : ∀ v u, s = .element v → t.atPath path = .ok (.set u) → v.ty = u) :
    Path.TypedIn t (path ++ [s]) := by
  intro before v after u hp hset
  rcases List.eq_nil_or_concat' after with rfl | ⟨after, last, rfl⟩
  · obtain ⟨rfl, hlast⟩ := List.append_inj' hp rfl
    exact hs v u (List.singleton_inj.1 hlast) hset
  · rw [← List.cons_append, ← List.append_assoc] at hp
    exact h before v after u (List.append_inj' hp rfl).1 hset

/-- An element of a set is of the type that the set declares. -/
theorem Value.ty_of_inSlot?_element {i : Nat} {x : Value} (hv : v.WellFormed)
    (hty : v.ty = .set t) (h : v.inSlot? (.element i) = some x) : x.ty = t := by
  obtain ⟨y, hy, hyx⟩ := step_of_inSlot? h
  obtain ⟨hstep, _⟩ := step_spec hv hy
  rw [hty] at hstep
  rw [← ty_eq_of_same hyx]
  exact (Except.ok.inj hstep).symm

theorem PlannedAt.typed_path (hc : context.Valid) (h : PlannedAt context path m nodes) :
    path.TypedIn context.plan.schema.ty := by
  induction h with
  | root hfields he => exact Path.TypedIn.nil.append_singleton nofun
  | @member path m nodes o fields e h ho hfields he ih =>
    obtain ⟨hmodified, hty⟩ := (h.invariant hc).modified hc
    refine (?_ : o.1.TypedIn context.plan.schema.ty).append_singleton nofun
    rcases PlanNodes.slot_cases hmodified.plan ho with rfl | ⟨slot, x, t, hx, -, rfl⟩
    · exact ih
    refine ih.append_singleton fun w u hs hset => ?_
    cases slot with
    | element i =>
      obtain rfl : x = w := PathStep.element.inj hs
      have htype := Schema.typeAt_of_nodeAt (h.invariant hc).nodeAt
      have hmember := (Schema.typeAt_eq_ok_iff hc.schema).1 htype
      exact Value.ty_of_inSlot?_element hmodified.plan
        (hty.trans (Except.ok.inj (hmember.symm.trans hset))) hx
    | _ => cases hs

/-! ## Values in requests and outcomes -/

/-- All data that the request refers to is of one schema. -/
def PlanRequest.OneSchema (r : PlanRequest) : Prop :=
  r.config.schema = r.plan.schema ∧ r.state.schema = r.plan.schema

/-- The values that a plan modifier is given, each with its type. Of data of other schemas nothing
is known at the path, so that what is found there says itself of what type it is. -/
inductive PlanRequest.Holds (r : PlanRequest) : Ty → Value → Prop
  | path {before after : Path} {t : Ty} {v : Value} (hp : r.path = before ++ .element v :: after)
      (ht : r.plan.schema.typeAt before = .ok (.set t)) : Holds r t v
  | planValue {t : Ty} (ht : r.plan.schema.typeAt r.path = .ok t) : Holds r t r.planValue
  | configValue {t : Ty} (hs : r.OneSchema) (ht : r.plan.schema.typeAt r.path = .ok t) :
      Holds r t r.configValue
  | stateValue {t : Ty} (hs : r.OneSchema) (ht : r.plan.schema.typeAt r.path = .ok t) :
      Holds r t r.stateValue
  | otherConfigValue (hs : ¬r.OneSchema) : Holds r r.configValue.ty r.configValue
  | otherStateValue (hs : ¬r.OneSchema) : Holds r r.stateValue.ty r.stateValue
  | config : Holds r r.config.schema.ty r.config.raw
  | state : Holds r r.state.schema.ty r.state.raw
  | plan : Holds r r.plan.schema.ty r.plan.raw

/-- The values in the outcome of planning, each with its type. -/
inductive PlanOutcome.Holds (o : PlanOutcome) : Ty → Value → Prop
  | plan : Holds o o.plan.schema.ty o.plan.raw
  | path {before after : Path} {t : Ty} {v : Value}
      (hp : before ++ .element v :: after ∈ o.requiresReplace)
      (ht : o.plan.schema.typeAt before = .ok (.set t)) : Holds o t v

/-- The request is about a node of the schema, and its values are of their types. -/
structure PlanRequest.Typed (r : PlanRequest) : Prop where
  path : ∃ t, r.plan.schema.typeAt r.path = .ok t
  holds : ∀ t v, r.Holds t v → v.ty = t

theorem Path.WellFormed.element {before after : Path} (h : path.WellFormed)
    (hp : path = before ++ .element v :: after) : v.WellFormed :=
  h (.element v) (hp ▸ List.mem_append_right _ List.mem_cons_self)

theorem PlanRequest.WellFormed.holds {r : PlanRequest} (hr : r.WellFormed) (h : r.Holds t v) :
    v.WellFormed := by
  cases h with
  | path hp _ => exact hr.path.element hp
  | planValue _ => exact hr.planValue
  | configValue _ _ => exact hr.configValue
  | stateValue _ _ => exact hr.stateValue
  | otherConfigValue _ => exact hr.configValue
  | otherStateValue _ => exact hr.stateValue
  | config => exact hr.config
  | state => exact hr.state
  | plan => exact hr.plan

/-! ## Requests of a run -/

/-- Data of the types of their schemas, with modifiers that answer typed requests with well-formed
values. -/
structure PlanContext.Typed (c : PlanContext) : Prop where
  config : c.config.raw.ty = c.config.schema.ty ∧ c.config.raw.WellFormed
  state : c.state.raw.ty = c.state.schema.ty ∧ c.state.raw.WellFormed
  plan : c.plan.raw.ty = c.plan.schema.ty ∧ c.plan.raw.WellFormed
  schema : c.plan.schema.WellFormed
  answers : ∀ m (r : PlanRequest), c.plan.schema.Runs m → r.WellFormed → r.Typed →
    (c.answer m r).planValue.WellFormed

theorem PlanContext.Asks.typed {modifier : PlanModifier} {r : PlanRequest} (hc : context.Valid)
    (hconfig : context.config.raw.ty = context.config.schema.ty)
    (hstate : context.state.raw.ty = context.state.schema.ty) (h : context.Asks modifier r) :
    r.Typed := by
  cases h with
  | @intro path m nodes before after _ h hm =>
    have hinvariant := h.invariant hc
    have htype := Schema.typeAt_of_nodeAt hinvariant.nodeAt
    refine ⟨⟨m.ty, htype⟩, fun t v hv => ?_⟩
    -- Data of the schema of the plan is read at the path.
    have hone : context.config.schema = context.plan.schema ∧
        context.state.schema = context.plan.schema → context.OneSchema := fun ⟨hcs, hss⟩ =>
      ⟨hc, ⟨hcs ▸ hc.schema, hconfig, hc.config⟩, ⟨hss ▸ hc.schema, hstate, hc.state⟩, hcs, hss⟩
    cases hv with
    | path hp ht =>
      exact h.typed_path hc _ _ _ _ hp ((Schema.typeAt_eq_ok_iff hc.schema).1 ht)
    | planValue ht =>
      obtain rfl := Except.ok.inj (htype.symm.trans ht)
      exact (ty_runModifiers _ _).trans hinvariant.ty
    | configValue hs ht =>
      obtain rfl := Except.ok.inj (htype.symm.trans ht)
      exact (h.ty_reads (hone hs)).1
    | stateValue hs ht =>
      obtain rfl := Except.ok.inj (htype.symm.trans ht)
      exact (h.ty_reads (hone hs)).2
    | otherConfigValue _ => rfl
    | otherStateValue _ => rfl
    | config => exact hconfig
    | state => exact hstate
    | plan => exact hc.ty

namespace PlanContext.Typed

open Classical in
/-- A run asks typed requests only, so that other answers may be taken to be well formed. -/
theorem exists_valid (hc : context.Typed) : ∃ answer,
    PlanContext.Valid { context with answer := answer } ∧
      Data.modifyPlanWith context.answer context.config context.state context.plan =
        Data.modifyPlanWith answer context.config context.state context.plan := by
  refine ⟨fun m r => if r.Typed then context.answer m r else .keep r.planValue, ?_⟩
  have hvalid : PlanContext.Valid { context with
      answer := fun m r => if r.Typed then context.answer m r else .keep r.planValue } := by
    refine ⟨⟨hc.config.2, hc.state.2, hc.plan.2, fun m r hm hr => ?_⟩, hc.schema, hc.plan.1⟩
    dsimp only
    split
    · next htyped => exact hc.answers m r hm hr htyped
    · exact hr.planValue
  refine ⟨hvalid, Data.modifyPlanWith_of_agrees hc.schema fun m r hr => ?_⟩
  exact (if_pos (hr.typed hvalid hc.config.1 hc.state.1)).symm

/-- What comes out of planning is well formed and of its type. -/
theorem holds (hc : context.Typed)
    (h : (Data.modifyPlanWith context.answer context.config context.state context.plan).Holds t v) :
    v.ty = t ∧ v.WellFormed := by
  obtain ⟨answer, hvalid, hequal⟩ := hc.exists_valid
  rw [hequal] at h
  cases hnull : context.plan.raw.isNull with
  | true =>
    rw [Data.modifyPlanWith_of_isNull hnull] at h
    cases h with
    | plan => exact hc.plan
    | path hp _ => cases hp
  | false =>
    have hsound := hvalid.sound_planResource hvalid.schema hvalid.rootNodes
    rw [hvalid.modifyPlanWith hnull] at h
    cases h with
    | plan => exact ⟨hvalid.planResource.1, hsound.result⟩
    | path hp ht =>
      have hnoted := mem_of_mem_distinctPaths hp
      obtain ⟨m, nodes, hplanned, _⟩ := hvalid.mem_replaced_iff.1 hnoted
      exact ⟨hplanned.typed_path hvalid _ _ _ _ rfl ((Schema.typeAt_eq_ok_iff hc.schema).1 ht),
        (hsound.replaced _ hnoted).element rfl⟩

end PlanContext.Typed
end ResourceSchema
