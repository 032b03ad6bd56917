import ResourceSchema.Proofs.Data.Reads
import ResourceSchema.Proofs.Planning.Valid

/-!
# What plan modifiers are asked

Planning takes the values of the configuration and of the state along one step at a time, while it
puts the path together beside them. What they come to is what a read at the whole path gives
(`PlannedAt.reads`): below nulls and unknowns, where elements are missing, and where an element of
a set is named by what the modifiers before have made of it. The requests that a run makes of its
modifiers (`PlanContext.Asks`) are all that it depends on: modifiers that answer these alike lead
to the same plan (`Data.modifyPlanWith_of_agrees`).
-/

namespace ResourceSchema

variable {context : PlanContext} {path p : Path} {nodes : PlanNodes} {m : Member} {s : PathStep}
  {t u : Ty} {v w : Value}

/-! ## Reads, one step at a time -/

/-- One step below what a lookup gives is what the longer lookup gives. -/
theorem Value.lookup_append_singleton (hv : v.WellFormed) (hp : v.ty.atPath (p ++ [s]) = .ok u)
    (h : v.lookup t p = .ok w) : v.lookup u (p ++ [s]) = .ok (w.descend s u) := by
  induction p generalizing v with
  | nil =>
    cases h
    obtain ⟨x, hx, _⟩ := lookup_spec hv hp
    rw [List.nil_append] at hx ⊢
    rw [descend, hx]
  | cons s' p ih =>
    obtain ⟨t', ht', hp⟩ := Except.bind_eq_ok.1 hp
    rw [List.cons_append]
    unfold lookup at h ⊢
    split at h
    · cases h
      rfl
    · cases h
      rfl
    · split at h
      · next child hchild =>
        obtain ⟨hty, hwf⟩ := step_spec hv hchild
        cases ht'.symm.trans hty
        exact ih hwf hp h
      · cases h
        rfl
      · cases h

theorem Data.Invariant.get_append_singleton {d : Data} (hd : d.Invariant) (hp : d.get p = .ok w)
    (hu : d.schema.typeAt (p ++ [s]) = .ok u) : d.get (p ++ [s]) = .ok (w.descend s u) := by
  obtain ⟨t, _, hw⟩ := Data.get_eq_ok_iff.1 hp
  exact Data.get_eq_ok_iff.2
    ⟨u, hu, Value.lookup_append_singleton hd.raw (hd.typeAt.1 hu) hw⟩

/-! ## Values at a position -/

/-- A configuration, a state and a plan of one schema, with modifiers that may answer with any
well-formed values. -/
structure PlanContext.OneSchema (c : PlanContext) : Prop extends PlanContext.Valid c where
  configData : c.config.Invariant
  stateData : c.state.Invariant
  configSchema : c.config.schema = c.plan.schema
  stateSchema : c.state.schema = c.plan.schema

/-- Data of one schema, with modifiers that answer with well-formed values. -/
theorem PlanContext.OneSchema.of_invariant {config state plan : Data}
    {answer : PlanModifier → PlanRequest → PlanResponse}
    (hconfig : config.Invariant) (hstate : state.Invariant) (hplan : plan.Invariant)
    (hconfigSchema : config.schema = plan.schema) (hstateSchema : state.schema = plan.schema)
    (hanswers : ∀ m (r : PlanRequest), plan.schema.Runs m → r.WellFormed →
      (answer m r).planValue.WellFormed) : OneSchema ⟨answer, config, state, plan⟩ where
  config := hconfig.raw
  state := hstate.raw
  plan := hplan.raw
  answers := hanswers
  schema := hplan.schema
  ty := hplan.ty
  configData := hconfig
  stateData := hstate
  configSchema := hconfigSchema
  stateSchema := hstateSchema

/-- The values of the configuration and of the state are those that are read at the path. -/
structure PlanNodes.Reads (context : PlanContext) (path : Path) (nodes : PlanNodes) : Prop where
  config : context.config.get path = .ok nodes.config
  state : context.state.get path = .ok nodes.state

namespace PlanNodes

theorem reads_rootNodes : context.rootNodes.Reads context [] :=
  ⟨Data.get_eq_ok_iff.2 ⟨_, rfl, rfl⟩, Data.get_eq_ok_iff.2 ⟨_, rfl, rfl⟩⟩

theorem Reads.descend (hc : context.OneSchema) (h : nodes.Reads context path)
    (hu : context.plan.schema.typeAt (path ++ [s]) = .ok u) :
    (nodes.descend s u).Reads context (path ++ [s]) :=
  ⟨hc.configData.get_append_singleton h.config (hc.configSchema ▸ hu),
    hc.stateData.get_append_singleton h.state (hc.stateSchema ▸ hu)⟩

theorem Reads.objects (hc : context.OneSchema) (h : nodes.Reads context path)
    (hty : context.plan.schema.typeAt path = .ok nodes.plan.ty) {o : Path × PlanNodes}
    (ho : o ∈ nodes.objects path) : o.2.Reads context o.1 := by
  rcases objects_cases ho with rfl | ⟨s, t, hs, hpath, hconfig, hstate⟩
  · exact h
  · have hbelow : context.plan.schema.typeAt (path ++ [s]) = .ok t := by
      rw [Schema.typeAt_eq_ok_iff hc.schema] at hty ⊢
      rw [Ty.atPath_append, hty]
      show nodes.plan.ty.atPath [s] = .ok t
      rw [Ty.atPath, hs]
      rfl
    obtain ⟨hreadConfig, hreadState⟩ := h.descend hc hbelow
    exact ⟨by rw [hpath, hconfig, hreadConfig], by rw [hpath, hstate, hreadState]⟩

end PlanNodes

/-- At each member that planning comes to it has the values that are read at the path. -/
theorem PlannedAt.reads (hc : context.OneSchema) (h : PlannedAt context path m nodes) :
    nodes.Reads context path := by
  have htype : ∀ {path : Path} {m : Member} {nodes : PlanNodes}, PlannedAt context path m nodes →
      context.plan.schema.typeAt path = .ok m.ty :=
    fun h => Schema.typeAt_of_nodeAt (h.invariant hc.toValid).nodeAt
  induction h with
  | root hfields he => exact PlanNodes.reads_rootNodes.descend hc (htype (.root hfields he))
  | @member path m nodes o fields e h ho hfields he ih =>
    have hmodified : (nodes.modified context path m).Reads context path := ⟨ih.config, ih.state⟩
    obtain ⟨_, hty⟩ := (h.invariant hc.toValid).modified hc.toValid
    exact (hmodified.objects hc (hty.symm ▸ htype h) ho).descend hc
      (htype (.member h ho hfields he))

/-- The values of the configuration and of the state are of the type of the member. -/
theorem PlannedAt.ty_reads (hc : context.OneSchema) (h : PlannedAt context path m nodes) :
    nodes.config.ty = m.ty ∧ nodes.state.ty = m.ty := by
  have htype := Schema.typeAt_of_nodeAt (h.invariant hc.toValid).nodeAt
  obtain ⟨hconfig, hstate⟩ := h.reads hc
  exact ⟨hc.configData.ty_of_get (hc.configSchema ▸ htype) hconfig,
    hc.stateData.ty_of_get (hc.stateSchema ▸ htype) hstate⟩

/-! ## Requests -/

/-- The requests that a run of planning makes of modifiers: at each member that it comes to one of
each modifier, about the value that those before have left. -/
inductive PlanContext.Asks (context : PlanContext) : PlanModifier → PlanRequest → Prop
  | intro {path : Path} {m : Member} {nodes : PlanNodes} {before after : List PlanModifier}
      {modifier : PlanModifier} (h : PlannedAt context path m nodes)
      (hm : m.behaviour.modifiers = before ++ modifier :: after) :
      Asks context modifier ⟨path, nodes.config, nodes.state, nodes.left context path before,
        context.config, context.state, context.plan⟩

/-- The request is about a member that has the modifier, with what is read at its path. -/
structure PlanRequest.Consistent (context : PlanContext) (modifier : PlanModifier)
    (r : PlanRequest) : Prop where
  owner : ∃ m, context.plan.schema.LeadsTo r.path m ∧ modifier ∈ m.behaviour.modifiers
  configValue : context.config.get r.path = .ok r.configValue
  stateValue : context.state.get r.path = .ok r.stateValue
  config : r.config = context.config
  state : r.state = context.state
  plan : r.plan = context.plan

theorem PlanContext.Asks.consistent {modifier : PlanModifier} {r : PlanRequest}
    (hc : context.OneSchema) (h : context.Asks modifier r) : r.Consistent context modifier := by
  cases h with
  | @intro path m nodes before after _ h hm =>
    obtain ⟨hconfig, hstate⟩ := h.reads hc
    refine ⟨⟨m, Schema.leadsTo_iff.2 (h.invariant hc.toValid).nodeAt, ?_⟩, hconfig, hstate,
      rfl, rfl, rfl⟩
    rw [hm]
    exact List.mem_append_right _ List.mem_cons_self

/-! ## Runs that ask the same -/

/-- Other answers to all requests of a run are the same. -/
def PlanContext.Agrees (context : PlanContext)
    (answer : PlanModifier → PlanRequest → PlanResponse) : Prop :=
  ∀ modifier r, context.Asks modifier r → answer modifier r = context.answer modifier r

variable {answer : PlanModifier → PlanRequest → PlanResponse}

namespace PlanContext.Agrees

/-- The modifiers of a member from some on. -/
theorem runModifiers_eq (ha : context.Agrees answer) (h : PlannedAt context path m nodes)
    {ms : List PlanModifier} (before : List PlanModifier)
    (hm : m.behaviour.modifiers = before ++ ms) :
    runModifiers { context with answer := answer } path nodes
        (nodes.left context path before) ms =
      runModifiers context path nodes (nodes.left context path before) ms := by
  induction ms generalizing before with
  | nil => rfl
  | cons modifier rest ih =>
    rw [runModifiers, runModifiers]
    dsimp only
    rw [ha modifier _ (.intro h hm)]
    refine Planned.bind_congr_result ?_
    have hrest := ih (before ++ [modifier]) (by rw [hm, List.append_assoc]; rfl)
    rwa [PlanNodes.left_append_singleton] at hrest

theorem plan_eq (ha : context.Agrees answer) (hm : m.WellFormed) :
    ∀ path nodes, PlannedAt context path m nodes →
      m.plan { context with answer := answer } path nodes = m.plan context path nodes := by
  refine hm.induct (P := fun m => ∀ path nodes, PlannedAt context path m nodes →
    m.plan { context with answer := answer } path nodes = m.plan context path nodes) ?_
  intro m hm ih path nodes h
  have hown := ha.runModifiers_eq h [] rfl
  rcases hm.leaf_or_collects with
    ⟨t, traits, rfl⟩ | ⟨mode, element, attributes, blocks, hcollects⟩
  · rw [Member.plan_leaf, Member.plan_leaf]
    exact hown
  have hmembers := hcollects.members
  rw [hcollects.plan, hcollects.plan]
  refine (congrArg (· >>= _) hown).trans (Planned.bind_congr_result ?_)
  -- Both runs go on from what the modifiers of the member have left.
  show planCollected _ path (nodes.modified context path m) =
    planCollected _ path (nodes.modified context path m)
  refine planCollected_congr fun o ho => planLevel_congr fun fields hobject e he => ?_
  exact ih e (hmembers ▸ he) _ _ (.member h ho hobject (hmembers ▸ he))

end PlanContext.Agrees

/-- Planning with modifiers that answer the requests of a run alike is the same run. -/
theorem Data.modifyPlanWith_of_agrees {other : PlanModifier → PlanRequest → PlanResponse}
    {config state plan : Data} (hs : plan.schema.WellFormed)
    (ha : PlanContext.Agrees ⟨answer, config, state, plan⟩ other) :
    modifyPlanWith other config state plan = modifyPlanWith answer config state plan := by
  have hplan : plan.schema.planResource ⟨other, config, state, plan⟩
        ⟨config.raw, state.raw, plan.raw⟩ =
      plan.schema.planResource ⟨answer, config, state, plan⟩
        ⟨config.raw, state.raw, plan.raw⟩ := by
    rw [Schema.planResource_eq, Schema.planResource_eq]
    exact planLevel_congr fun fields hobject e he =>
      ha.plan_eq (hs.members e he) _ _ (.root hobject he)
  unfold modifyPlanWith
  rw [hplan]

/-! ## An example -/

namespace Ruled

theorem oneSchema_twinsContext : twinsContext.OneSchema where
  toValid := valid_twinsContext
  configData := ⟨schema_built.wellFormed, rfl, valid_twinsContext.config⟩
  stateData := ⟨schema_built.wellFormed, rfl, schema_built.wellFormed.ty⟩
  configSchema := rfl
  stateSchema := rfl

/-- The default for a note is asked about a rule that is not configured with the id it gets. -/
theorem exists_asks_twinsContext :
    ∃ r, twinsContext.Asks (.default (.string "none")) r ∧ r.configValue.isNull = true := by
  have hrules : PlannedAt twinsContext [.name "rules"] _ _ := .root (e := ("rules", .attr (.group
    .set [("note", leaf note), ("id", leaf id)] rules.traits))) rfl List.mem_cons_self
  have hnote := PlannedAt.member (e := ("note", .attr (leaf note))) hrules
    (o := _) List.mem_cons_self rfl List.mem_cons_self
  have hmodifiers : (Member.attr (leaf note)).behaviour.modifiers =
    [] ++ .default (.string "none") :: [] := rfl
  exact ⟨_, .intro hnote hmodifiers, by decide +kernel⟩

end Ruled

end ResourceSchema
