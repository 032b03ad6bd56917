import ResourceSchema.Proofs.Planning.Inert
import ResourceSchema.Proofs.Planning.Places
import ResourceSchema.Proofs.Planning.Requests

/-!
# Keeping the state for what is unknown

Where all modifiers keep the state, a planned resource has the value of the state for an unknown of
the plan if the attribute or block there keeps it and there is a value to keep, and all else as it
was planned (`Data.modifyPlan_keeps_state`). The value that is kept goes through the modifiers of
the members below as well. It has no unknowns, so that these leave it as it is.
-/

namespace ResourceSchema

variable {context : PlanContext} {path p : Path} {nodes : PlanNodes} {m : Member} {v x : Value}
  {ms : List PlanModifier}

/-! ## Members with an unknown -/

/-- What the plan has does not matter to modifiers, which are asked about what they go on with. -/
theorem runModifiers_with_plan (v current : Value) (ms : List PlanModifier) :
    runModifiers context path { nodes with plan := v } current ms =
      runModifiers context path nodes current ms := by
  induction ms generalizing current with
  | nil => rfl
  | cons m rest ih => simp only [runModifiers, ih]

/-- A value is kept for an unknown by modifiers that keep the state. -/
theorem runModifiers_keep_state (hcontext : context.Standard)
    (hms : ∀ m ∈ ms, m = .useStateForUnknown) (hmem : .useStateForUnknown ∈ ms)
    (hu : nodes.plan.isUnknown = true) (hty : nodes.state.ty = nodes.plan.ty)
    (hknown : nodes.state.isUnknown = false) (hstate : nodes.state.isNull = false)
    (hconfig : nodes.config.isUnknown = false) :
    runModifiers context path nodes nodes.plan ms = pure nodes.state := by
  obtain ⟨custom, hanswer⟩ := hcontext
  cases ms with
  | nil => cases hmem
  | cons first rest =>
    obtain ⟨rfl, hrest⟩ := List.forall_mem_cons.1 hms
    rw [runModifiers, hanswer, PlanModifier.respond, hu, hstate, hconfig]
    refine (congrArg (· >>= _) (absorb_keep path hty)).trans ?_
    rw [pure_bind]
    -- The modifiers after the first find a value that is known.
    refine runModifiers_of_keep fun m hm => ?_
    rw [hanswer, hrest m hm]
    exact PlanModifier.respond_of_known hknown

/-- Without a value to keep an unknown stays. -/
theorem runModifiers_of_unknown (hcontext : context.Standard)
    (hms : ∀ m ∈ ms, m = .useStateForUnknown)
    (h : .useStateForUnknown ∈ ms →
      ¬(nodes.state.isNull = false ∧ nodes.config.isUnknown = false)) :
    runModifiers context path nodes nodes.plan ms = pure nodes.plan := by
  obtain ⟨custom, hanswer⟩ := hcontext
  refine runModifiers_of_keep fun m hm => ?_
  obtain rfl := hms m hm
  have hkept := h hm
  rw [hanswer, PlanModifier.respond]
  refine if_pos ?_
  cases hnull : nodes.state.isNull with
  | true => rfl
  | false =>
    have hconfig : nodes.config.isUnknown = true := by simpa [hnull] using hkept
    simp [hconfig]

theorem planLevel_of_unknown (members : List (String × Member)) (hu : nodes.plan.isUnknown = true) :
    planLevel members context path nodes = pure nodes.plan := by
  unfold planLevel planObject
  split
  · next hobject =>
    rw [hobject] at hu
    cases hu
  · rfl

theorem PlanNodes.objects_of_unknown (hu : nodes.plan.isUnknown = true) :
    nodes.objects path = [] := by
  obtain ⟨config, state, plan⟩ := nodes
  cases plan <;> first | rfl | cases hu

namespace Member

/-- A member goes on with what its modifiers leave of the planned value. -/
theorem plan_congr (hm : m.WellFormed)
    (h : runModifiers context path nodes nodes.plan m.behaviour.modifiers =
      runModifiers context path nodes v m.behaviour.modifiers) :
    m.plan context path nodes = m.plan context path { nodes with plan := v } := by
  have hown := h.trans (runModifiers_with_plan v v _).symm
  rcases hm.leaf_or_collects with
    ⟨t, traits, rfl⟩ | ⟨mode, element, attributes, blocks, hcollects⟩
  · rw [plan_leaf, plan_leaf]
    exact hown
  · rw [hcollects.plan, hcollects.plan]
    exact congrArg (· >>= _) hown

/-- An unknown that the modifiers leave stays. -/
theorem plan_of_unknown (hm : m.WellFormed) (hv : nodes.plan.WellFormed)
    (hu : nodes.plan.isUnknown = true)
    (h : runModifiers context path nodes nodes.plan m.behaviour.modifiers = pure nodes.plan) :
    m.plan context path nodes = pure nodes.plan := by
  rcases hm.leaf_or_collects with
    ⟨t, traits, rfl⟩ | ⟨mode, element, attributes, blocks, hcollects⟩
  · rw [plan_leaf]
    exact h
  rw [hcollects.plan, h, pure_bind]
  refine planCollected_eq_pure hv fun o ho => ?_
  rw [PlanNodes.objects_of_unknown hu] at ho
  cases ho

/-- A value of the state that is kept goes through the members below as it is. -/
theorem plan_keep_state (hcontext : context.Standard) (hm : m.WellFormed)
    (hruns : ∀ modifier, m.Runs modifier → modifier = .useStateForUnknown)
    (hmem : .useStateForUnknown ∈ m.behaviour.modifiers) (hu : nodes.plan.isUnknown = true)
    (hty : nodes.plan.ty = m.ty) (hstate : nodes.state.WellFormed)
    (hstateTy : nodes.state.ty = m.ty) (hknown : nodes.state.isFullyKnown = true)
    (hnull : nodes.state.isNull = false) (hconfig : nodes.config.isUnknown = false) :
    m.plan context path nodes = pure nodes.state := by
  have hms : ∀ modifier ∈ m.behaviour.modifiers, modifier = .useStateForUnknown :=
    fun modifier h => hruns modifier (runs_own h)
  have hkept : runModifiers context path nodes nodes.plan m.behaviour.modifiers =
      pure nodes.state :=
    runModifiers_keep_state hcontext hms hmem hu (hstateTy.trans hty.symm)
      (Value.isUnknown_of_isFullyKnown hknown) hnull hconfig
  have hstays : runModifiers context path nodes nodes.state m.behaviour.modifiers =
      pure nodes.state :=
    (runModifiers_with_plan nodes.state nodes.state _).symm.trans
      ((inert_known hcontext).modifiers ⟨hstate, hknown⟩ hms)
  rw [plan_congr hm (hkept.trans hstays.symm)]
  exact (inert_known hcontext).plan hm hruns path _ ⟨hstate, hknown⟩ hstateTy

end Member

/-! ## Plans whose modifiers keep the state -/

/-- All modifiers keep the state, which has no unknowns. -/
structure PlanContext.KeepsState (c : PlanContext) : Prop extends PlanContext.OneSchema c where
  standard : c.Standard
  runs : ∀ modifier, c.plan.schema.Runs modifier → modifier = .useStateForUnknown
  known : c.state.raw.isFullyKnown = true

/-- The attribute or block that the path leads to keeps the state. -/
def Schema.KeepsStateAt (schema : Schema) (p : Path) : Prop :=
  ∃ m, schema.LeadsTo p m ∧ .useStateForUnknown ∈ m.behaviour.modifiers

namespace PlannedAt

theorem keeps_own (hc : context.KeepsState) (h : PlannedAt context path m nodes) :
    ∀ modifier ∈ m.behaviour.modifiers, modifier = .useStateForUnknown :=
  fun modifier hmem => hc.runs modifier (h.runs_own hc.toValid modifier hmem)

theorem left_of_known (hc : context.KeepsState) (h : PlannedAt context path m nodes)
    (hk : nodes.plan.isUnknown = false) :
    nodes.left context path m.behaviour.modifiers = nodes.plan := by
  refine result_runModifiers hc.standard (fun name description hmem => ?_) (fun w hmem => ?_) hk
  · cases h.keeps_own hc _ hmem
  · cases h.keeps_own hc _ hmem

end PlannedAt

namespace PlanContext.KeepsState

/-- What a program can come to have of a schema whose modifiers all keep the state. -/
theorem of_reachable {custom : CustomModifiers} {config state plan : Data}
    (hconfig : config.Reachable) (hstate : state.Reachable) (hplan : plan.Reachable)
    (hrole : state.role = .state) (hconfigSchema : config.schema = plan.schema)
    (hstateSchema : state.schema = plan.schema)
    (hruns : ∀ modifier, plan.schema.Runs modifier → modifier = .useStateForUnknown) :
    KeepsState ⟨PlanModifier.respond custom, config, state, plan⟩ where
  toOneSchema := by
    refine .of_invariant hconfig.invariant hstate.invariant hplan.invariant hconfigSchema
      hstateSchema fun m r hm hr => ?_
    obtain rfl := hruns m hm
    exact PlanModifier.wellFormed_respond nofun nofun hr
  standard := ⟨custom, rfl⟩
  runs := hruns
  known := hstate.isFullyKnown hrole

/-- Planning comes to all that the plan has on a path without set elements. -/
theorem exists_node (hc : context.KeepsState) (hp : Path.AvoidsSets p)
    (hx : context.plan.raw.atPath p = .ok x) :
    ∃ node, context.plan.schema.nodeAt p = .ok node ∧ Placed context p node x :=
  hc.exists_placed hp (fun _ _ _ h _ => h.left_of_known hc) hx

/-- What the plan has without unknowns stays. -/
theorem atPath_of_known (hc : context.KeepsState) (hp : Path.AvoidsSets p)
    (hx : context.plan.raw.atPath p = .ok x) (hk : x.isFullyKnown = true) :
    (context.plan.schema.planResource context context.rootNodes).result.atPath p = .ok x := by
  have hwf : x.WellFormed := (Value.atPath_spec hc.plan hx).2
  obtain ⟨node, _, hplaced⟩ := hc.exists_node hp hx
  refine hplaced.atPath_planResource hc.toValid hp (fun _ _ _ h _ => h.left_of_known hc) ?_ ?_
  · intro attributes blocks path nodes hl hplan hty
    have hone : ∀ e ∈ levelMembers attributes blocks, ∀ path nodes,
        nodes.plan.WellFormed ∧ nodes.plan.isFullyKnown = true → nodes.plan.ty = e.2.ty →
          e.2.plan context path nodes = pure nodes.plan := fun e he =>
      (inert_known hc.standard).plan (hl.wellFormed e he) fun modifier hr =>
        hc.runs modifier (hl.runs e he modifier hr)
    subst hplan
    exact (inert_known hc.standard).planLevel ⟨hwf, hk⟩ hl.names hty hone
  · intro m nodes _ h hplan
    have hinvariant := h.invariant hc.toValid
    subst hplan
    exact (inert_known hc.standard).plan (hinvariant.wellFormed hc.toValid)
      (fun modifier hr => hc.runs modifier (hinvariant.runs modifier hr)) p nodes ⟨hwf, hk⟩
        hinvariant.ty

variable {c s : Value}

/-- An unknown stays if there is no value to keep for it. -/
theorem atPath_of_unknown (hc : context.KeepsState) (hp : Path.AvoidsSets p)
    (hx : context.plan.raw.atPath p = .ok x) (hu : x.isUnknown = true)
    (hconfig : context.config.get p = .ok c) (hstate : context.state.get p = .ok s)
    (h : ¬(context.plan.schema.KeepsStateAt p ∧ s.isNull = false ∧ c.isUnknown = false)) :
    (context.plan.schema.planResource context context.rootNodes).result.atPath p = .ok x := by
  obtain ⟨node, hnode, hplaced⟩ := hc.exists_node hp hx
  refine hplaced.atPath_planResource hc.toValid hp (fun _ _ _ h _ => h.left_of_known hc) ?_ ?_
  · intro attributes blocks path nodes _ hplan _
    subst hplan
    exact planLevel_of_unknown _ hu
  · rintro m nodes rfl hplanned hplan
    subst hplan
    have hinvariant := hplanned.invariant hc.toValid
    obtain ⟨hreadConfig, hreadState⟩ := hplanned.reads hc.toOneSchema
    obtain rfl := Except.ok.inj (hreadConfig.symm.trans hconfig)
    obtain rfl := Except.ok.inj (hreadState.symm.trans hstate)
    have hstays : runModifiers context p nodes nodes.plan m.behaviour.modifiers =
        pure nodes.plan :=
      runModifiers_of_unknown hc.standard (hplanned.keeps_own hc) fun hmem hvalue =>
        h ⟨⟨m, Schema.leadsTo_iff.2 hnode, hmem⟩, hvalue⟩
    exact Member.plan_of_unknown (hinvariant.wellFormed hc.toValid) hinvariant.nodes.plan hu hstays

/-- A value of the state takes the place of an unknown that is kept. -/
theorem atPath_of_kept (hc : context.KeepsState) (hp : Path.AvoidsSets p)
    (hx : context.plan.raw.atPath p = .ok x) (hu : x.isUnknown = true)
    (hconfig : context.config.get p = .ok c) (hstate : context.state.get p = .ok s)
    (h : context.plan.schema.KeepsStateAt p ∧ s.isNull = false ∧ c.isUnknown = false) :
    (context.plan.schema.planResource context context.rootNodes).result.atPath p = .ok s := by
  obtain ⟨⟨m, hleads, hmem⟩, hnull, hknown⟩ := h
  obtain ⟨node, hnode, hplaced⟩ := hc.exists_node hp hx
  obtain rfl := Except.ok.inj (hnode.symm.trans (Schema.leadsTo_iff.1 hleads))
  obtain ⟨nodes, hplanned, rfl⟩ := hplaced.plannedAt rfl
  have hinvariant := hplanned.invariant hc.toValid
  obtain ⟨hreadConfig, hreadState⟩ := hplanned.reads hc.toOneSchema
  obtain rfl := Except.ok.inj (hreadConfig.symm.trans hconfig)
  obtain rfl := Except.ok.inj (hreadState.symm.trans hstate)
  have hstateKnown : nodes.state.isFullyKnown = true := by
    obtain ⟨t, _, hlookup⟩ := Data.get_eq_ok_iff.1 hstate
    exact Value.isFullyKnown_of_lookup hc.known hlookup
  have hplan : m.plan context p nodes = pure nodes.state :=
    Member.plan_keep_state hc.standard (hinvariant.wellFormed hc.toValid)
      (fun modifier hr => hc.runs modifier (hinvariant.runs modifier hr)) hmem hu hinvariant.ty
      hinvariant.nodes.state (hplanned.ty_reads hc.toOneSchema).2 hstateKnown hnull hknown
  rw [hplanned.atPath_planResource hc.toValid hp, hplan]
  rfl

end PlanContext.KeepsState

namespace Data

variable {config state plan : Data}

/-- Where all modifiers keep the state, the plan that comes out has for an unknown at a path without
set elements the value of the state, if the attribute or block there keeps it, the state has a value
to keep and the configuration has none that is unknown. All other unknowns and all that has no
unknowns in it are as they were planned. -/
theorem modifyPlan_keeps_state {p : Path} {x : Value} (custom : CustomModifiers)
    (hconfig : config.Reachable) (hstate : state.Reachable) (hplan : plan.Reachable)
    (hrole : state.role = .state) (hconfigSchema : config.schema = plan.schema)
    (hstateSchema : state.schema = plan.schema)
    (hruns : ∀ modifier, plan.schema.Runs modifier → modifier = .useStateForUnknown)
    (hp : Path.AvoidsSets p) (hx : plan.raw.atPath p = .ok x) :
    ∃ c s, config.get p = .ok c ∧ state.get p = .ok s ∧
      let outcome := modifyPlan custom config state plan
      let kept := plan.schema.KeepsStateAt p ∧ s.isNull = false ∧ c.isUnknown = false
      (x.isUnknown = true → kept → outcome.plan.raw.atPath p = .ok s) ∧
        (x.isUnknown = true → ¬kept → outcome.plan.raw.atPath p = .ok x) ∧
        (x.isFullyKnown = true → outcome.plan.raw.atPath p = .ok x) := by
  have htype : plan.schema.typeAt p = .ok x.ty :=
    hplan.invariant.typeAt.2 (Value.atPath_spec hplan.invariant.raw hx).1
  obtain ⟨c, hc, _⟩ := hconfig.invariant.exists_get (hconfigSchema ▸ htype)
  obtain ⟨s, hs, _⟩ := hstate.invariant.exists_get (hstateSchema ▸ htype)
  have hcontext : PlanContext.KeepsState ⟨PlanModifier.respond custom, config, state, plan⟩ :=
    .of_reachable hconfig hstate hplan hrole hconfigSchema hstateSchema hruns
  refine ⟨c, s, hc, hs, ?_⟩
  unfold modifyPlan
  dsimp only
  cases hnull : plan.raw.isNull with
  | true =>
    -- The plan of a resource that is to be destroyed stays and has no unknowns.
    rw [modifyPlanWith_of_isNull hnull]
    refine ⟨fun hu _ => ?_, fun _ _ => hx, fun _ => hx⟩
    cases hnull.symm.trans (Value.isNull_of_atPath hx (Value.isNull_of_isUnknown hu))
  | false =>
    rw [hcontext.toValid.modifyPlanWith hnull]
    exact ⟨fun hu => hcontext.atPath_of_kept hp hx hu hc hs,
      fun hu => hcontext.atPath_of_unknown hp hx hu hc hs, hcontext.atPath_of_known hp hx⟩

end Data

/-! ## An example

Two disks that are planned with unknown ids, the first of which the state has. -/

namespace Attached

def disks : AttributeDraft :=
  ⟨none, some (.list, [("id", Ruled.id.build), ("label", (Server.optional .string).build)]),
    ⟨⟨false, true, true, false⟩, .empty, ⟨[], [.useStateForUnknown]⟩⟩⟩

def schema : Schema :=
  ⟨1, [("disks", .group .list [("id", Ruled.leaf Ruled.id), ("label", Server.leaf .string)]
    disks.traits)], [], .empty⟩

theorem schema_built : schema.Built := by
  refine ⟨⟨1, [("disks", disks.build)], [], .empty⟩, fun name a ha => ?_,
    fun name b hb => (by cases hb), rfl⟩
  simp only [List.mem_singleton, Prod.mk.injEq] at ha
  refine .build (d := disks) (fun t ht => by cases ht) (fun mode members hm name b hb => ?_)
    ha.2.symm
  cases hm
  simp only [List.mem_cons, Prod.mk.injEq, List.not_mem_nil, or_false] at hb
  rcases hb with ⟨_, hb⟩ | ⟨_, hb⟩
  · exact Ruled.built_text hb.symm
  · exact Server.built_optional (t := .string) trivial hb.symm

theorem runs {modifier : PlanModifier} (h : schema.Runs modifier) :
    modifier = .useStateForUnknown := by
  rcases Ruled.runs_group (Ruled.runs_schema h) with h | h | h
  · exact List.mem_singleton.1 h
  · exact List.mem_singleton.1 (Ruled.runs_leaf h)
  · cases Ruled.runs_leaf h

def disk (id : Value) (label : String) : Value := .object [("id", id), ("label", .string label)]

def data (role : Role) (items : List Value) : Data :=
  ⟨role, schema, .object [("disks", .list (disk (.null .string) "").ty items)]⟩

def config : Data := data .config [disk (.null .string) "a", disk (.null .string) "b"]

def state : Data := data .state [disk (.string "1") "a"]

def plan : Data := data .plan [disk (.unknown .string) "a", disk (.unknown .string) "b"]

theorem reachable_config : config.Reachable :=
  .ofJson schema_built (j := .object [("disks", .array
      [.object [("label", .string "a")], .object [("label", .string "b")]])])
    (show Data.ofJson .config schema _ = .ok config from rfl)

theorem reachable_state : state.Reachable :=
  .ofJson schema_built (j := .object [("disks", .array
      [.object [("id", .string "1"), ("label", .string "a")]])])
    (show Data.ofJson .state schema _ = .ok state from rfl)

theorem disk_spec {id : Value} (label : String) (hty : id.ty = .string) (hid : id.WellFormed) :
    (disk id label).ty = (disk (.null .string) "").ty ∧ (disk id label).WellFormed := by
  refine ⟨by simp only [disk, Value.ty, Value.fieldTypes, hty], ?_⟩
  show (Value.objectOf [("id", id), ("label", .string label)]).WellFormed
  refine Value.wellFormed_objectOf ?_
  simp only [List.forall_mem_cons]
  exact ⟨hid, trivial, by simp⟩

theorem reachable_plan : plan.Reachable := by
  have hitems : ∀ x ∈ [disk (.unknown .string) "a", disk (.unknown .string) "b"],
      x.ty = (disk (.null .string) "").ty ∧ x.WellFormed := by
    simp only [List.forall_mem_cons]
    exact ⟨disk_spec "a" rfl trivial, disk_spec "b" rfl trivial, by simp⟩
  have hdisk : (disk (.null .string) "").ty = _ ∧ (disk (.null .string) "").WellFormed :=
    disk_spec "" rfl trivial
  refine .ofValue schema_built ?_ (show Data.ofValue .plan schema plan.raw = _ from rfl)
  show (Value.objectOf [("disks", .list (disk (.null .string) "").ty _)]).WellFormed
  exact Value.wellFormed_objectOf (by simpa using Value.wellFormed_list_iff.2 ⟨hdisk.2.ty, hitems⟩)

/-- The path of the id of a disk. -/
def idAt (i : Nat) : Path := [.name "disks", .index i, .name "id"]

end Attached

/-- The first disk keeps its id. The state has no other, so that the second id stays unknown. -/
theorem Data.modifyPlan_keeps_state_disks :
    Attached.config.Reachable ∧ Attached.state.Reachable ∧ Attached.plan.Reachable ∧
      Attached.plan.raw.atPath (Attached.idAt 0) = .ok (.unknown .string) ∧
      Attached.plan.raw.atPath (Attached.idAt 1) = .ok (.unknown .string) ∧
      let outcome := modifyPlan (fun _ r => .keep r.planValue) Attached.config Attached.state
        Attached.plan
      outcome.plan.raw.atPath (Attached.idAt 0) = .ok (.string "1") ∧
        outcome.plan.raw.atPath (Attached.idAt 1) = .ok (.unknown .string) := by
  have havoids : ∀ i, Path.AvoidsSets (Attached.idAt i) := by
    simp [Path.AvoidsSets, Attached.idAt, PathStep.kind]
  have hkeeps : Attached.schema.KeepsStateAt (Attached.idAt 0) :=
    ⟨.attr (Ruled.leaf Ruled.id), rfl, List.mem_cons_self⟩
  have hplanned := fun i x => modifyPlan_keeps_state (p := Attached.idAt i) (x := x)
    (fun _ r => .keep r.planValue) Attached.reachable_config Attached.reachable_state
    Attached.reachable_plan rfl rfl rfl (fun _ => Attached.runs) (havoids i)
  obtain ⟨c, s, hc, hs, hkept, -⟩ := hplanned 0 (.unknown .string) rfl
  obtain ⟨c', s', hc', hs', -, hstays, -⟩ := hplanned 1 (.unknown .string) rfl
  cases hc
  cases hs
  cases hs'
  exact ⟨Attached.reachable_config, Attached.reachable_state, Attached.reachable_plan, rfl, rfl,
    hkept rfl ⟨hkeeps, rfl, rfl⟩, hstays rfl fun h => Bool.false_ne_true h.2.1.symm⟩

end ResourceSchema
