import ResourceSchema.Proofs.Planning.Kept
import ResourceSchema.Proofs.Value.Document

/-!
# Positions that planning leaves as they are

What planning takes apart it puts together again: where it finds all parts of a value planned as
they are, the value stays, and nothing is noted (`planCollected_eq_pure`, `planLevel_eq_pure`). So a
member stays at a position where no modifier has anything to do if the same holds one step further
(`Inert.plan`), and with all members the plan (`Data.modifyPlanWith_of_pure`). One such position is
where the plan is fully known and all modifiers keep the state (`inert_known`).
-/

namespace ResourceSchema

variable {context : PlanContext} {path : Path} {nodes : PlanNodes} {v w : Value} {t : Ty}
  {attributes : List (String × Attribute)} {blocks : List (String × Block)}

/-! ## Putting together what has stayed -/

/-- A collection stays if the objects collected in it do. -/
theorem planCollected_eq_pure {planOne : Path → PlanNodes → Planned Value}
    (hv : nodes.plan.WellFormed)
    (h : ∀ o ∈ nodes.objects path, planOne o.1 o.2 = pure o.2.plan) :
    planCollected planOne path nodes = pure nodes.plan := by
  obtain ⟨config, state, plan⟩ := nodes
  dsimp only at hv
  cases plan with
  | object fields => exact h _ (List.mem_singleton.2 rfl)
  | list t items =>
    unfold planCollected
    dsimp only
    split
    · rfl
    have hplanned := Planned.mapM_eq_pure (g := fun e : Value × Nat => e.1)
      fun e he => h _ (List.mem_map_of_mem he)
    have hmade : Value.listOf t items = .ok (.list t items) :=
      Value.listOf_eq_ok.2 ⟨fun x hx => ((Value.wellFormed_list_iff.1 hv).2 x hx).1, rfl⟩
    refine (congrArg (· >>= _) hplanned).trans ?_
    rw [pure_bind, List.zipIdx_map_fst, hmade]
    rfl
  | set t items =>
    unfold planCollected
    dsimp only
    split
    · rfl
    have hplanned := Planned.mapM_eq_pure (g := id) fun x hx => h _ (List.mem_map_of_mem hx)
    obtain ⟨_, hitems, hapart⟩ := Value.wellFormed_set_iff.1 hv
    have hmade : Value.setOf t items = .ok (.set t items) :=
      Value.setOf_eq_ok.2 ⟨fun x hx => (hitems x hx).1, hapart, rfl⟩
    refine (congrArg (· >>= _) hplanned).trans ?_
    rw [pure_bind, List.map_id, hmade]
    rfl
  | map t entries =>
    unfold planCollected
    dsimp only
    split
    · rfl
    have hplanned := Planned.mapM_eq_pure (g := id) fun e he =>
      congrArg (· >>= fun planned => pure (e.1, planned)) (h _ (List.mem_map_of_mem he))
    obtain ⟨_, hsorted, hentries⟩ := Value.wellFormed_map_iff.1 hv
    have hmade : Value.mapOf t entries = .ok (.map t entries) := Value.mapOf_eq_ok.2
      ⟨fun e he => (hentries e he).1, by rw [Keyed.sorted_eq_self hsorted]⟩
    refine (congrArg (· >>= _) hplanned).trans ?_
    rw [pure_bind, List.map_id, hmade]
    rfl
  | _ => rfl

theorem planEach_eq_pure {M : Type} {planOne : String × M → Planned Value}
    {members : List (String × M)} {fields : List (String × Value)}
    (h : ∀ e ∈ members, ∃ v, fields.lookup e.1 = some v ∧ planOne e = pure v) :
    planEach planOne members fields = pure fields := by
  induction members with
  | nil => rfl
  | cons e rest ih =>
    obtain ⟨⟨v, hl, hv⟩, hrest⟩ := List.forall_mem_cons.1 h
    rw [planEach, hv, pure_bind, Keyed.assign_eq_self hl]
    exact ih hrest

/-- An object stays if the fields of its members do. -/
theorem planLevel_eq_pure {members : List (String × Member)} (hv : nodes.plan.WellFormed)
    (h : ∀ fields, nodes.plan = .object fields → ∀ e ∈ members,
      ∃ v, fields.lookup e.1 = some v ∧ e.2.plan context (path ++ [.name e.1])
        (nodes.descend (.name e.1) e.2.ty) = pure v) :
    planLevel members context path nodes = pure nodes.plan := by
  unfold planLevel planObject
  split
  · next fields hobject =>
    rw [hobject] at hv
    have hmade := Value.objectOfType_fieldTypes (Value.wellFormed_object_iff.1 hv).1.nodup
    rw [planEach_eq_pure (h fields hobject), pure_bind, hobject, Value.ty, hmade]
    rfl
  · rfl

theorem absorb_keep (path : Path) (h : w.ty = v.ty) : absorb path v (.keep w) = pure w := by
  unfold absorb
  rw [PlanResponse.keep, if_pos h]
  rfl

/-- Modifiers that all keep a value leave it as it is. -/
theorem runModifiers_of_keep {ms : List PlanModifier}
    (h : ∀ m ∈ ms, context.answer m ⟨path, nodes.config, nodes.state, v, context.config,
      context.state, context.plan⟩ = .keep v) :
    runModifiers context path nodes v ms = pure v := by
  induction ms with
  | nil => rfl
  | cons m rest ih =>
    obtain ⟨hfirst, hrest⟩ := List.forall_mem_cons.1 h
    rw [runModifiers, hfirst, absorb_keep path rfl, pure_bind]
    exact ih hrest

/-! ## Positions where no modifier has anything to do -/

/-- Positions of a kind that goes on below, at which modifiers of a kind leave a well-formed planned
value as it is. -/
structure Inert (context : PlanContext) (M : PlanModifier → Prop) (G : PlanNodes → Prop) :
    Prop where
  wellFormed : ∀ {nodes : PlanNodes}, G nodes → nodes.plan.WellFormed
  child : ∀ {nodes : PlanNodes} {s : Slot} {v : Value} (t : Ty), G nodes →
    nodes.plan.inSlot? s = some v → G { nodes.descend (s.step v) t with plan := v }
  modifiers : ∀ {path : Path} {nodes : PlanNodes} {ms : List PlanModifier}, G nodes →
    (∀ m ∈ ms, M m) → runModifiers context path nodes nodes.plan ms = pure nodes.plan

namespace Inert

variable {M : PlanModifier → Prop} {G : PlanNodes → Prop}

theorem field {name : String} (hi : Inert context M G) (h : G nodes)
    (hv : nodes.plan.inSlot? (.field name) = some v) :
    (nodes.descend (.name name) t).plan = v ∧ G (nodes.descend (.name name) t) := by
  have hplan : (nodes.descend (.name name) t).plan = v :=
    Value.descend_of_step (Value.step_of_inSlot?_field hv)
  have hchild := hi.child t h hv
  rw [← hplan] at hchild
  exact ⟨hplan, hchild⟩

theorem objects (hi : Inert context M G) (h : G nodes) {o : Path × PlanNodes}
    (ho : o ∈ nodes.objects path) : G o.2 := by
  rcases PlanNodes.slot_cases (hi.wellFormed h) ho with rfl | ⟨s, v, t, hv, -, rfl⟩
  · exact h
  · exact hi.child t h hv

/-- An object stays if its members do. -/
theorem planLevel (hi : Inert context M G) (h : G nodes)
    (hn : MemberNames (Keyed.keys attributes ++ Keyed.keys blocks))
    (hty : nodes.plan.ty = Block.objectTyOf attributes blocks)
    (hone : ∀ e ∈ levelMembers attributes blocks, ∀ path nodes, G nodes →
      nodes.plan.ty = e.2.ty → e.2.plan context path nodes = pure nodes.plan) :
    planLevel (levelMembers attributes blocks) context path nodes = pure nodes.plan := by
  refine planLevel_eq_pure (hi.wellFormed h) fun fields hobject e he => ?_
  obtain ⟨v, hl, hvty⟩ := exists_field hn (hobject ▸ hty) he
  have hslot : nodes.plan.inSlot? (.field e.1) = some v := by rw [hobject]; exact hl
  obtain ⟨hfield, hbelow⟩ := hi.field (t := e.2.ty) h hslot
  refine ⟨v, hl, ?_⟩
  rw [hone e he _ _ hbelow (hfield.symm ▸ hvty), hfield]

/-- A member stays as it is where modifiers of its kinds have nothing to do. -/
theorem plan {m : Member} (hi : Inert context M G) (hm : m.WellFormed) :
    (∀ modifier, m.Runs modifier → M modifier) → ∀ path nodes, G nodes →
      nodes.plan.ty = m.ty → m.plan context path nodes = pure nodes.plan := by
  refine hm.induct (P := fun m => (∀ modifier, m.Runs modifier → M modifier) →
    ∀ path nodes, G nodes → nodes.plan.ty = m.ty →
      m.plan context path nodes = pure nodes.plan) ?_
  intro m hm ih hruns path nodes h hty
  have hown : runModifiers context path nodes nodes.plan m.behaviour.modifiers =
      pure nodes.plan := hi.modifiers h fun _ hmem => hruns _ (Member.runs_own hmem)
  rcases hm.leaf_or_collects with
    ⟨t, traits, rfl⟩ | ⟨mode, element, attributes, blocks, hcollects⟩
  · rw [Member.plan_leaf]
    exact hown
  have hmembers := hcollects.members
  have hwf := hi.wellFormed h
  rw [hcollects.plan, hown, pure_bind]
  refine planCollected_eq_pure hwf fun o ho => ?_
  refine hi.planLevel (hi.objects h ho) hcollects.names
    (PlanNodes.ty_of_mem_objects hwf (hty.trans hcollects.ty) ho) fun e he => ?_
  exact ih e (hmembers ▸ he) fun modifier hr => hruns modifier (hcollects.runs e he hr)

/-- A whole resource stays as it is. -/
theorem planResource {s : Schema} (hi : Inert context M G) (hs : s.WellFormed)
    (hruns : ∀ modifier, s.Runs modifier → M modifier) (h : G nodes)
    (hty : nodes.plan.ty = s.ty) : s.planResource context nodes = pure nodes.plan := by
  rw [Schema.planResource_eq]
  exact hi.planLevel h hs.names hty fun e he => hi.plan (hs.members e he)
    fun modifier hr => hruns modifier (Schema.runs e he hr)

end Inert

/-- A plan that planning leaves as it is comes out with nothing to replace and no diagnostics. -/
theorem Data.modifyPlanWith_of_pure {answer : PlanModifier → PlanRequest → PlanResponse}
    {config state plan : Data} (hty : plan.raw.ty = plan.schema.ty) (hrole : plan.role = .plan)
    (h : plan.schema.planResource ⟨answer, config, state, plan⟩
      ⟨config.raw, state.raw, plan.raw⟩ = pure plan.raw) :
    modifyPlanWith answer config state plan = ⟨plan, [], []⟩ := by
  cases hnull : plan.raw.isNull with
  | true => exact modifyPlanWith_of_isNull hnull
  | false =>
    rw [modifyPlanWith_of_ty hnull h hty, Planned.result_pure, ← hrole]
    rfl

theorem PlanModifier.respond_of_known {custom : CustomModifiers} {r : PlanRequest}
    (h : r.planValue.isUnknown = false) :
    PlanModifier.useStateForUnknown.respond custom r = .keep r.planValue := by
  rw [respond, h, Bool.not_false, Bool.or_true, Bool.true_or, if_pos rfl]

/-- Keeping the state has nothing to do where the plan is fully known. -/
theorem inert_known (hcontext : context.Standard) :
    Inert context (· = .useStateForUnknown)
      fun nodes => nodes.plan.WellFormed ∧ nodes.plan.isFullyKnown = true where
  wellFormed h := h.1
  child _ h hv := ⟨h.1.inSlot? hv, Value.isFullyKnown_of_inSlot? h.2 hv⟩
  modifiers h hm := by
    obtain ⟨custom, hanswer⟩ := hcontext
    refine runModifiers_of_keep fun m hmem => ?_
    rw [hanswer, hm m hmem]
    exact PlanModifier.respond_of_known (Value.isUnknown_of_isFullyKnown h.2)

end ResourceSchema
