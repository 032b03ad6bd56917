import ResourceSchema.Proofs.Data.Basic
import ResourceSchema.Proofs.Planning.Level
import ResourceSchema.Proofs.Value.Build

/-!
# Planning keeps values well formed

Plan modifiers may answer with any well-formed value. What planning puts together from the answers
is well formed again, since it goes through the constructors, and the value that there was before
takes its place when one of them fails (`PlanContext.WellFormed.sound_planResource`).
-/

namespace ResourceSchema

/-! ## The modifiers of a schema -/

/-- The plan modifiers of an attribute and of those nested in it. -/
inductive Attribute.Runs : Attribute → PlanModifier → Prop
  | own {a : Attribute} {m : PlanModifier} (h : m ∈ a.traits.behaviour.modifiers) : Runs a m
  | member {mode : NestingMode} {members : List (String × Attribute)} {traits : AttributeTraits}
      {e : String × Attribute} {m : PlanModifier} (he : e ∈ members) (h : Runs e.2 m) :
      Runs (.group mode members traits) m

/-- The plan modifiers of a block and of what is nested in it. -/
inductive Block.Runs : Block → PlanModifier → Prop
  | own {b : Block} {m : PlanModifier} (h : m ∈ b.traits.behaviour.modifiers) : Runs b m
  | attr {b : Block} {e : String × Attribute} {m : PlanModifier} (he : e ∈ b.attributes)
      (h : e.2.Runs m) : Runs b m
  | block {b : Block} {e : String × Block} {m : PlanModifier} (he : e ∈ b.blocks)
      (h : Runs e.2 m) : Runs b m

/-- The plan modifiers of a member and of what is nested in it. -/
def Member.Runs : Member → PlanModifier → Prop
  | .attr a => a.Runs
  | .block b => b.Runs

/-- The plan modifiers at any depth of a schema. -/
def Schema.Runs (s : Schema) (m : PlanModifier) : Prop :=
  (∃ e ∈ s.attributes, e.2.Runs m) ∨ ∃ e ∈ s.blocks, e.2.Runs m

/-! ## Well-formed requests -/

/-- All values in a request are well formed. -/
structure PlanRequest.WellFormed (r : PlanRequest) : Prop where
  path : r.path.WellFormed
  configValue : r.configValue.WellFormed
  stateValue : r.stateValue.WellFormed
  planValue : r.planValue.WellFormed
  config : r.config.raw.WellFormed
  state : r.state.raw.WellFormed
  plan : r.plan.raw.WellFormed

/-- All values that planning refers to are well formed, and the modifiers of the plan's schema
answer with well-formed values. -/
structure PlanContext.WellFormed (c : PlanContext) : Prop where
  config : c.config.raw.WellFormed
  state : c.state.raw.WellFormed
  plan : c.plan.raw.WellFormed
  answers : ∀ m (r : PlanRequest), c.plan.schema.Runs m → r.WellFormed →
    (c.answer m r).planValue.WellFormed

structure PlanNodes.WellFormed (nodes : PlanNodes) : Prop where
  config : nodes.config.WellFormed
  state : nodes.state.WellFormed
  plan : nodes.plan.WellFormed

variable {context : PlanContext} {path : Path} {nodes : PlanNodes} {v : Value} {t : Ty}
  {attributes : List (String × Attribute)} {blocks : List (String × Block)}

theorem Path.WellFormed.append_singleton {s : PathStep} (hp : path.WellFormed)
    (hs : s.WellFormed) : Path.WellFormed (path ++ [s]) := by
  intro s' hs'
  rcases List.mem_append.1 hs' with h | h
  · exact hp s' h
  · exact List.mem_singleton.1 h ▸ hs

theorem Path.WellFormed.append_name (hp : path.WellFormed) (name : String) :
    Path.WellFormed (path ++ [.name name]) :=
  hp.append_singleton (s := .name name) trivial

theorem Value.WellFormed.descend {s : PathStep} (hv : v.WellFormed) (ht : t.WellFormed) :
    (v.descend s t).WellFormed := by
  unfold Value.descend
  split
  · next child hchild => exact hv.lookup ht hchild
  · exact ht

theorem PlanNodes.WellFormed.descend {s : PathStep} (hn : nodes.WellFormed)
    (ht : t.WellFormed) : (nodes.descend s t).WellFormed :=
  ⟨hn.config.descend ht, hn.state.descend ht, hn.plan.descend ht⟩

/-! ## Modifiers and their answers -/

/-- The modifiers answer with well-formed values if the custom ones do and the defaults are. -/
theorem PlanModifier.wellFormed_respond {custom : CustomModifiers} {m : PlanModifier}
    {r : PlanRequest}
    (hcustom : ∀ name description, m = .custom name description →
      (custom name r).planValue.WellFormed)
    (hdefault : ∀ w, m = .default w → w.WellFormed) (hr : r.WellFormed) :
    (m.respond custom r).planValue.WellFormed := by
  cases m with
  | requiresReplace => exact hr.planValue
  | useStateForUnknown =>
    rw [respond]
    split
    · exact hr.planValue
    · exact hr.stateValue
  | default w =>
    rw [respond]
    split
    · exact hr.planValue
    · exact hdefault w rfl
  | custom name description => exact hcustom name description rfl

theorem sound_absorb {current : Value} {response : PlanResponse} (hp : path.WellFormed)
    (hcurrent : current.WellFormed) (hr : response.planValue.WellFormed) :
    (absorb path current response).Sound Value.WellFormed := by
  have hnote : (Planned.note response.diagnostics
      (if response.requiresReplace then [path] else [])).Sound fun _ => True := by
    refine ⟨trivial, ?_⟩
    intro p hmem
    change p ∈ (if response.requiresReplace then [path] else []) at hmem
    split at hmem
    · exact List.mem_singleton.1 hmem ▸ hp
    · cases hmem
  refine hnote.bind ?_
  intro _ _
  split
  · exact .pure hr
  · exact (Planned.Sound.report _).bind fun _ _ => .pure hcurrent

theorem sound_runModifiers {current : Value} {ms : List PlanModifier} (hc : context.WellFormed)
    (hp : path.WellFormed) (hn : nodes.WellFormed) (hcurrent : current.WellFormed)
    (hm : ∀ m ∈ ms, context.plan.schema.Runs m) :
    (runModifiers context path nodes current ms).Sound Value.WellFormed := by
  induction ms generalizing current with
  | nil => exact .pure hcurrent
  | cons m rest ih =>
    have hrequest : PlanRequest.WellFormed ⟨path, nodes.config, nodes.state, current,
        context.config, context.state, context.plan⟩ :=
      ⟨hp, hn.config, hn.state, hcurrent, hc.config, hc.state, hc.plan⟩
    obtain ⟨hfirst, hrest⟩ := List.forall_mem_cons.1 hm
    refine (sound_absorb hp hcurrent (hc.answers m _ hfirst hrequest)).bind ?_
    intro next hnext
    exact ih hnext hrest

/-! ## Putting values together again -/

theorem sound_rebuilt {result : Except ValueError Value} (hv : v.WellFormed)
    (hr : ∀ w, result = .ok w → w.WellFormed) :
    (rebuilt path v result).Sound Value.WellFormed := by
  cases result with
  | ok w => exact .pure (hr w rfl)
  | error e => exact (Planned.Sound.report _).bind fun _ _ => .pure hv

/-- The values of all fields are well formed; the fields are in any order. -/
def FieldsSound (fields : List (String × Value)) : Prop := ∀ e ∈ fields, e.2.WellFormed

theorem sound_planObject
    {planFields : List (String × Value) → Planned (List (String × Value))} (hv : v.WellFormed)
    (hf : ∀ fields, FieldsSound fields → (planFields fields).Sound FieldsSound) :
    (planObject planFields path v).Sound Value.WellFormed := by
  unfold planObject
  split
  · next fields =>
    refine (hf fields (Value.wellFormed_object_iff.1 hv).2).bind ?_
    intro planned hplanned
    exact sound_rebuilt hv fun w hw => (Value.wellFormed_objectOfType hv.ty hplanned hw).2
  · exact .pure hv

/-- The objects collected in well-formed values are well formed. -/
theorem PlanNodes.WellFormed.objects (hp : path.WellFormed) (hn : nodes.WellFormed)
    {o : Path × PlanNodes} (ho : o ∈ nodes.objects path) : o.1.WellFormed ∧ o.2.WellFormed := by
  rcases slot_cases hn.plan ho with rfl | ⟨s, v, t, hv, ht, rfl⟩
  · exact ⟨hp, hn⟩
  · have hchild : v.WellFormed := hn.plan.inSlot? hv
    have hstep : (s.step v).WellFormed := by
      cases s with
      | element i => exact hchild
      | _ => trivial
    have hd := hn.descend (s := s.step v) (hn.plan.ty.step ht)
    exact ⟨hp.append_singleton hstep, hd.config, hd.state, hchild⟩

theorem sound_planCollected {planOne : Path → PlanNodes → Planned Value}
    (hv : nodes.plan.WellFormed)
    (hone : ∀ o ∈ nodes.objects path, (planOne o.1 o.2).Sound Value.WellFormed) :
    (planCollected planOne path nodes).Sound Value.WellFormed := by
  obtain ⟨config, state, plan⟩ := nodes
  dsimp only at hv
  cases plan with
  | object fields => exact hone _ (List.mem_singleton.2 rfl)
  | list t items =>
    obtain ⟨ht, _⟩ := Value.wellFormed_list_iff.1 hv
    unfold planCollected
    dsimp only
    split
    · exact .pure hv
    refine (Planned.Sound.mapM fun e he => hone _ (List.mem_map_of_mem he)).bind ?_
    exact fun planned hplanned => sound_rebuilt hv fun w hw =>
      (Value.wellFormed_listOf ht hplanned hw).2
  | set t items =>
    obtain ⟨ht, _, _⟩ := Value.wellFormed_set_iff.1 hv
    unfold planCollected
    dsimp only
    split
    · exact .pure hv
    refine (Planned.Sound.mapM fun x hx => hone _ (List.mem_map_of_mem hx)).bind ?_
    exact fun planned hplanned => sound_rebuilt hv fun w hw =>
      (Value.wellFormed_setOf ht hplanned hw).2
  | map t entries =>
    obtain ⟨ht, _, _⟩ := Value.wellFormed_map_iff.1 hv
    unfold planCollected
    dsimp only
    split
    · exact .pure hv
    refine Planned.Sound.bind (Planned.Sound.mapM (Q := fun e : String × Value => e.2.WellFormed)
      fun e he => ?_) fun planned hplanned => sound_rebuilt hv fun w hw =>
        (Value.wellFormed_mapOf ht hplanned hw).2
    exact (hone _ (List.mem_map_of_mem he)).bind fun x hx => .pure hx
  | _ => exact .pure hv

/-! ## Members and whole resources -/

theorem sound_planEach {M : Type} {planOne : String × M → Planned Value}
    {members : List (String × M)} {fields : List (String × Value)}
    (hone : ∀ m ∈ members, (planOne m).Sound Value.WellFormed) (hf : FieldsSound fields) :
    (planEach planOne members fields).Sound FieldsSound := by
  induction members generalizing fields with
  | nil => exact .pure hf
  | cons m rest ih =>
    obtain ⟨hm, hrest⟩ := List.forall_mem_cons.1 hone
    refine hm.bind fun planned hv => ih hrest ?_
    intro e he
    rcases Keyed.mem_assign he with rfl | he
    · exact hv
    · exact hf e he

theorem sound_planLevel {members : List (String × Member)} (hp : path.WellFormed)
    (hn : nodes.WellFormed) (hm : ∀ e ∈ members, e.2.WellFormed)
    (hone : ∀ e ∈ members, ∀ path nodes, path.WellFormed → nodes.WellFormed →
      (e.2.plan context path nodes).Sound Value.WellFormed) :
    (planLevel members context path nodes).Sound Value.WellFormed :=
  sound_planObject hn.plan fun _ hfields => sound_planEach (fun e he =>
    hone e he _ _ (hp.append_name e.1) (hn.descend (hm e he).ty)) hfields

theorem Member.runs_own {m : Member} {modifier : PlanModifier}
    (h : modifier ∈ m.behaviour.modifiers) : m.Runs modifier := by
  cases m with
  | attr a => exact Attribute.Runs.own h
  | block b => exact Block.Runs.own h

theorem Member.Collects.runs {m : Member} {mode : NestingMode} {element : SchemaNode}
    {modifier : PlanModifier} (hm : m.Collects mode element attributes blocks) :
    ∀ e ∈ levelMembers attributes blocks, e.2.Runs modifier → m.Runs modifier := by
  refine forall_levelMembers (P := fun e => e.2.Runs modifier → m.Runs modifier) ?_ ?_
  · cases hm with
    | group _ => exact fun e he h => Attribute.Runs.member he h
    | block _ => exact fun e he h => Block.Runs.attr he h
  · cases hm with
    | group _ => exact fun e he => by cases he
    | block _ => exact fun e he h => Block.Runs.block he h

theorem Schema.runs {s : Schema} {modifier : PlanModifier} :
    ∀ e ∈ levelMembers s.attributes s.blocks, e.2.Runs modifier → s.Runs modifier :=
  forall_levelMembers (P := fun e => e.2.Runs modifier → s.Runs modifier)
    (fun e he h => .inl ⟨e, he, h⟩) fun e he h => .inr ⟨e, he, h⟩

theorem Member.sound_plan {m : Member} (hc : context.WellFormed) (hm : m.WellFormed) :
    (∀ modifier, m.Runs modifier → context.plan.schema.Runs modifier) → ∀ path nodes,
      path.WellFormed → nodes.WellFormed →
        (m.plan context path nodes).Sound Value.WellFormed := by
  refine hm.induct (P := fun m =>
    (∀ modifier, m.Runs modifier → context.plan.schema.Runs modifier) → ∀ path nodes,
      path.WellFormed → nodes.WellFormed →
        (m.plan context path nodes).Sound Value.WellFormed) ?_
  intro m hm ih hruns path nodes hp hn
  have hown : (runModifiers context path nodes nodes.plan m.behaviour.modifiers).Sound
      Value.WellFormed :=
    sound_runModifiers hc hp hn hn.plan fun modifier hmem => hruns modifier (runs_own hmem)
  rcases hm.leaf_or_collects with ⟨t, traits, rfl⟩ | ⟨mode, element, attributes, blocks, h⟩
  · rw [plan_leaf]
    exact hown
  · have hmembers := h.members
    rw [h.plan]
    refine hown.bind fun planned hv => sound_planCollected hv fun o ho => ?_
    have hplanned : PlanNodes.WellFormed { nodes with plan := planned } := { hn with plan := hv }
    obtain ⟨hop, hon⟩ := hplanned.objects hp ho
    refine sound_planLevel hop hon (fun e he => hm.members e (hmembers ▸ he)) fun e he => ?_
    exact ih e (hmembers ▸ he) fun modifier hr => hruns modifier (h.runs e he hr)

/-- Planning makes a well-formed value, and so are the set elements on the paths that it notes. -/
theorem PlanContext.WellFormed.sound_planResource (hc : context.WellFormed)
    (hs : context.plan.schema.WellFormed) (hn : nodes.WellFormed) :
    (context.plan.schema.planResource context nodes).Sound Value.WellFormed := by
  have hroot : Path.WellFormed [] := fun s hs => by cases hs
  rw [Schema.planResource_eq]
  exact sound_planLevel hroot hn hs.members fun e he =>
    Member.sound_plan hc (hs.members e he) fun _ => Schema.runs e he

/-! ## What comes out -/

/-- The plan of a resource that is to be destroyed stays. -/
theorem Data.modifyPlanWith_of_isNull {answer : PlanModifier → PlanRequest → PlanResponse}
    {config state plan : Data} (hnull : plan.raw.isNull = true) :
    modifyPlanWith answer config state plan = ⟨plan, [], []⟩ :=
  if_pos hnull

/-- The planned value of any other resource is taken, with what was noted on the way to it. -/
theorem Data.modifyPlanWith_of_ty {answer : PlanModifier → PlanRequest → PlanResponse}
    {config state plan : Data} {planned : Planned Value} (hnull : plan.raw.isNull = false)
    (hplanned : plan.schema.planResource ⟨answer, config, state, plan⟩
      ⟨config.raw, state.raw, plan.raw⟩ = planned)
    (hty : planned.result.ty = plan.schema.ty) :
    modifyPlanWith answer config state plan = ⟨⟨.plan, plan.schema, planned.result⟩,
      distinctPaths planned.log.replaced, planned.log.diagnostics⟩ := by
  unfold modifyPlanWith
  rw [hnull, if_neg Bool.false_ne_true]
  dsimp only
  rw [hplanned, ofValue_of_ty (by decide) hty]

end ResourceSchema
