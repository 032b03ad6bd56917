import ResourceSchema.Proofs.Planning.Places
import ResourceSchema.Proofs.Planning.Requests

/-!
# Changes that replace the resource

The paths that planning notes are those of the members at which some modifier asks for the resource
to be replaced, whatever the modifiers are (`PlanContext.Valid.mem_replaced_iff`). Where all of them
ask for it on a change, these are the attributes and blocks with such a modifier at which the plan
has another value than the state (`Data.modifyPlan_replaces_changed`): planning comes to each
position of the plan and compares it with what a read of the state at its path gives, in a set by
the value of the planned element. Elements of a set that are equal have one path.
-/

namespace ResourceSchema

variable {context : PlanContext} {path p q : Path} {nodes : PlanNodes} {m : Member} {v x : Value}
  {attributes : List (String × Attribute)} {blocks : List (String × Block)}

/-! ## What is noted on the way -/

@[simp] theorem replaced_rebuilt (path : Path) (v : Value) (result : Except ValueError Value) :
    (rebuilt path v result).log.replaced = [] := by cases result <;> rfl

@[simp] theorem replaced_planEach {M : Type} {planOne : String × M → Planned Value}
    {members : List (String × M)} {fields : List (String × Value)} :
    (planEach planOne members fields).log.replaced =
      members.flatMap fun e => (planOne e).log.replaced := by
  induction members generalizing fields with
  | nil => rfl
  | cons e rest ih => simp [planEach, ih]

/-- For an object is noted what is noted for its members. -/
theorem mem_replaced_planLevel {members : List (String × Member)} :
    p ∈ (planLevel members context path nodes).log.replaced ↔
      ∃ fields, nodes.plan = .object fields ∧ ∃ e ∈ members, p ∈ (e.2.plan context
        (path ++ [.name e.1]) (nodes.descend (.name e.1) e.2.ty)).log.replaced := by
  unfold planLevel planObject
  split
  · next fields hobject =>
    simp [hobject]
  · next hobject =>
    exact ⟨fun h => absurd h List.not_mem_nil, fun ⟨fields, h, _⟩ => absurd h (hobject fields)⟩

/-- For a collection is noted what is noted for the objects that are collected in it. -/
theorem replaced_planCollected {planOne : Path → PlanNodes → Planned Value} :
    (planCollected planOne path nodes).log.replaced =
      (nodes.objects path).flatMap fun o => (planOne o.1 o.2).log.replaced := by
  obtain ⟨config, state, plan⟩ := nodes
  cases plan with
  | object fields => exact (List.append_nil _).symm
  | list t items | set t items =>
    unfold planCollected
    dsimp only
    split
    · next hempty => rw [List.isEmpty_iff.1 hempty]; rfl
    · simp [PlanNodes.objects, List.flatMap_map]
  | map t entries =>
    unfold planCollected
    dsimp only
    split
    · next hempty => rw [List.isEmpty_iff.1 hempty]; rfl
    · simp [PlanNodes.objects, List.flatMap_map]
  | _ => rfl

/-- A modifier of the member asks for the resource to be replaced. -/
def PlanNodes.Replaces (context : PlanContext) (path : Path) (nodes : PlanNodes) (m : Member) :
    Prop :=
  ∃ before modifier after, m.behaviour.modifiers = before ++ modifier :: after ∧
    (nodes.answer context path before modifier).requiresReplace = true

/-- A modifier notes the path if it asks for a replacement, and those after it go on. -/
theorem replaced_runModifiers_cons (before : List PlanModifier) (modifier : PlanModifier)
    (rest : List PlanModifier) :
    (runModifiers context path nodes (nodes.left context path before)
        (modifier :: rest)).log.replaced =
      (if (nodes.answer context path before modifier).requiresReplace then [path] else []) ++
        (runModifiers context path nodes (nodes.left context path (before ++ [modifier]))
          rest).log.replaced := by
  rw [runModifiers, Planned.replaced_bind, PlanNodes.left_append_singleton]
  refine congrArg (· ++ _) ?_
  show (absorb path _ (nodes.answer context path before modifier)).log.replaced = _
  unfold absorb
  rw [Planned.replaced_bind]
  refine Eq.trans (congrArg _ ?_) (List.append_nil _)
  split <;> rfl

/-- The modifiers of a member from some on note the path, if one of them asks for a replacement. -/
theorem mem_replaced_runModifiers {ms : List PlanModifier} (before : List PlanModifier) :
    p ∈ (runModifiers context path nodes (nodes.left context path before) ms).log.replaced ↔
      p = path ∧ ∃ between modifier after, ms = between ++ modifier :: after ∧
        (nodes.answer context path (before ++ between) modifier).requiresReplace = true := by
  induction ms generalizing before with
  | nil => simp [runModifiers]
  | cons first rest ih =>
    rw [replaced_runModifiers_cons, List.mem_append, ih]
    constructor
    · rintro (hfirst | ⟨hpath, between, modifier, after, rfl, hasks⟩)
      · split at hfirst
        · next hasks =>
          exact ⟨List.mem_singleton.1 hfirst, [], first, rest, rfl, by rwa [List.append_nil]⟩
        · cases hfirst
      · rw [List.append_assoc] at hasks
        exact ⟨hpath, first :: between, modifier, after, rfl, hasks⟩
    · rintro ⟨rfl, between, modifier, after, hms, hasks⟩
      rcases between with _ | ⟨first', between⟩
      · obtain ⟨rfl, rfl⟩ := List.cons.inj hms
        rw [List.append_nil] at hasks
        exact .inl (by rw [if_pos hasks]; exact List.mem_cons_self)
      · obtain ⟨rfl, rfl⟩ := List.cons.inj hms
        refine .inr ⟨rfl, between, modifier, after, rfl, ?_⟩
        rwa [List.append_assoc]

/-! ## Whole resources -/

theorem Member.Collects.mem_replaced_plan {mode : NestingMode} {element : SchemaNode}
    (hm : m.Collects mode element attributes blocks) :
    p ∈ (m.plan context path nodes).log.replaced ↔
      p = path ∧ nodes.Replaces context path m ∨
        ∃ o ∈ (nodes.modified context path m).objects path,
          p ∈ (planLevel m.node.members context o.1 o.2).log.replaced := by
  rw [hm.plan, hm.members, Planned.replaced_bind, List.mem_append, replaced_planCollected,
    List.mem_flatMap]
  exact or_congr (mem_replaced_runModifiers []) Iff.rfl

/-- What a member notes that planning comes to has been noted at the end. -/
theorem PlannedAt.replaced_subset (hc : context.Valid) (h : PlannedAt context path m nodes) :
    (m.plan context path nodes).log.replaced ⊆
      (context.plan.schema.planResource context context.rootNodes).log.replaced := by
  induction h with
  | @root e fields hfields he =>
    intro p hp
    rw [Schema.planResource_eq, mem_replaced_planLevel]
    exact ⟨fields, hfields, e, he, hp⟩
  | @member path m nodes o fields e h ho hfields he ih =>
    intro p hp
    rcases ((h.invariant hc).wellFormed hc).leaf_or_collects with
      ⟨t, traits, rfl⟩ | ⟨mode, element, attributes, blocks, hm⟩
    · cases he
    refine ih (hm.mem_replaced_plan.2 (.inr ⟨o, ho, ?_⟩))
    exact mem_replaced_planLevel.2 ⟨fields, hfields, e, he, hp⟩

/-- What is noted for a member is noted at a member that planning comes to. -/
theorem Member.exists_replaces (hm : m.WellFormed) :
    ∀ path nodes, PlannedAt context path m nodes → ∀ p ∈ (m.plan context path nodes).log.replaced,
      ∃ n nodes', PlannedAt context p n nodes' ∧ nodes'.Replaces context p n := by
  refine hm.induct (P := fun m => ∀ path nodes, PlannedAt context path m nodes →
    ∀ p ∈ (m.plan context path nodes).log.replaced,
      ∃ n nodes', PlannedAt context p n nodes' ∧ nodes'.Replaces context p n) ?_
  intro m hm ih path nodes h p hp
  rcases hm.leaf_or_collects with
    ⟨t, traits, rfl⟩ | ⟨mode, element, attributes, blocks, hcollects⟩
  · rw [Member.plan_leaf] at hp
    obtain ⟨rfl, hasks⟩ := (mem_replaced_runModifiers []).1 hp
    exact ⟨_, nodes, h, hasks⟩
  rcases hcollects.mem_replaced_plan.1 hp with ⟨rfl, hasks⟩ | ⟨o, ho, hbelow⟩
  · exact ⟨m, nodes, h, hasks⟩
  · obtain ⟨fields, hobject, e, he, hbelow⟩ := mem_replaced_planLevel.1 hbelow
    exact ih e he _ _ (.member h ho hobject he) p hbelow

/-- The paths that are noted are those of the members at which a modifier asks for it. -/
theorem PlanContext.Valid.mem_replaced_iff (hc : context.Valid) :
    p ∈ (context.plan.schema.planResource context context.rootNodes).log.replaced ↔
      ∃ m nodes, PlannedAt context p m nodes ∧ nodes.Replaces context p m := by
  constructor
  · intro hp
    rw [Schema.planResource_eq] at hp
    obtain ⟨fields, hobject, e, he, hp⟩ := mem_replaced_planLevel.1 hp
    exact Member.exists_replaces (hc.schema.members e he) _ _ (.root hobject he) p hp
  · rintro ⟨m, nodes, h, hasks⟩
    refine h.replaced_subset hc ?_
    rcases ((h.invariant hc).wellFormed hc).leaf_or_collects with
      ⟨t, traits, rfl⟩ | ⟨mode, element, attributes, blocks, hm⟩
    · rw [Member.plan_leaf]
      exact (mem_replaced_runModifiers []).2 ⟨rfl, hasks⟩
    · exact hm.mem_replaced_plan.2 (.inl ⟨rfl, hasks⟩)

/-! ## Modifiers that ask for a replacement on a change -/

/-- All modifiers ask for the resource to be replaced on a change. -/
structure PlanContext.ReplacesOnChange (c : PlanContext) : Prop
    extends PlanContext.OneSchema c where
  standard : c.Standard
  runs : ∀ modifier, c.plan.schema.Runs modifier → modifier = .requiresReplace

namespace PlannedAt

/-- Such modifiers leave what they are asked about. -/
theorem left_of_subset (hc : context.ReplacesOnChange) (h : PlannedAt context path m nodes)
    {ms : List PlanModifier} (hms : ms ⊆ m.behaviour.modifiers) :
    nodes.left context path ms = nodes.plan := by
  obtain ⟨custom, hanswer⟩ := hc.standard
  refine result_runModifiers_of_answers fun modifier hmem => ?_
  obtain rfl := hc.runs modifier (h.runs_own hc.toValid modifier (hms hmem))
  rw [hanswer]
  rfl

theorem modified_eq (hc : context.ReplacesOnChange) (h : PlannedAt context path m nodes) :
    nodes.modified context path m = nodes := by
  unfold PlanNodes.modified
  rw [h.left_of_subset hc (List.Subset.refl _)]

/-- What is planned at a member is what the plan has at its path, up to the choice among equal set
elements. -/
theorem exists_atPath (hc : context.ReplacesOnChange) (h : PlannedAt context path m nodes) :
    ∃ x, context.plan.raw.atPath path = .ok x ∧ x.same nodes.plan = true := by
  induction h with
  | @root e fields hfields he =>
    have hroot : context.rootNodes.plan = .object fields := hfields
    obtain ⟨hstep, _⟩ := descend_member_spec hc.schema.names hroot hc.ty he
    exact Value.exists_atPath_append_singleton (p := []) rfl (Value.same_refl _) hstep
  | @member path m nodes o fields e h ho hfields he ih =>
    have hinvariant := h.invariant hc.toValid
    rcases (hinvariant.wellFormed hc.toValid).leaf_or_collects with
      ⟨t, traits, rfl⟩ | ⟨mode, element, attributes, blocks, hm⟩
    · cases he
    rw [h.modified_eq hc] at ho
    have hobject : ∃ x, context.plan.raw.atPath o.1 = .ok x ∧ x.same o.2.plan = true := by
      obtain ⟨x, hx, hsame⟩ := ih
      rcases PlanNodes.slot_cases hinvariant.nodes.plan ho with rfl | ⟨s, v, t, hv, -, rfl⟩
      · exact ⟨x, hx, hsame⟩
      · obtain ⟨u, hu, huv⟩ := Value.step_of_inSlot? hv
        obtain ⟨y, hy, hyu⟩ := Value.exists_atPath_append_singleton hx hsame hu
        exact ⟨y, hy, Value.same_trans hyu huv⟩
    obtain ⟨x, hx, hsame⟩ := hobject
    have hty := PlanNodes.ty_of_mem_objects hinvariant.nodes.plan (hinvariant.ty.trans hm.ty) ho
    obtain ⟨hstep, _⟩ := descend_member_spec hm.names hfields hty (hm.members ▸ he)
    exact Value.exists_atPath_append_singleton hx hsame hstep

/-- A member asks for a replacement if it has a modifier for that, the resource exists before and
after, and the planned value is not that of the state. -/
theorem replaces_iff (hc : context.ReplacesOnChange) (h : PlannedAt context path m nodes) :
    nodes.Replaces context path m ↔ .requiresReplace ∈ m.behaviour.modifiers ∧
      context.state.raw.isNull = false ∧ context.plan.raw.isNull = false ∧
      nodes.plan.same nodes.state = false := by
  have hanswer : ∀ {before after : List PlanModifier} {modifier : PlanModifier},
      m.behaviour.modifiers = before ++ modifier :: after → modifier = .requiresReplace ∧
        (nodes.answer context path before modifier).requiresReplace =
          ((!context.state.raw.isNull && !context.plan.raw.isNull) &&
            !nodes.plan.same nodes.state) := by
    obtain ⟨custom, hstandard⟩ := hc.standard
    intro before after modifier hm
    have hmem : modifier ∈ m.behaviour.modifiers :=
      hm ▸ List.mem_append_right _ List.mem_cons_self
    obtain rfl := hc.runs modifier (h.runs_own hc.toValid modifier hmem)
    refine ⟨rfl, ?_⟩
    rw [PlanNodes.answer, h.left_of_subset hc (hm ▸ List.subset_append_left _ _), hstandard]
    rfl
  constructor
  · rintro ⟨before, modifier, after, hm, hasks⟩
    obtain ⟨rfl, hvalue⟩ := hanswer hm
    rw [hvalue] at hasks
    refine ⟨hm ▸ List.mem_append_right _ List.mem_cons_self, ?_⟩
    simpa [and_assoc] using hasks
  · rintro ⟨hmem, hstate, hplan, hchanged⟩
    obtain ⟨before, after, hm⟩ := List.append_of_mem hmem
    refine ⟨before, .requiresReplace, after, hm, ?_⟩
    rw [(hanswer hm).2, hstate, hplan, hchanged]
    rfl

end PlannedAt

/-- The paths that are noted are, up to equality, those at which the plan differs from the state and
the attribute or block asks for a replacement then. -/
theorem PlanContext.ReplacesOnChange.exists_replaced_iff (hc : context.ReplacesOnChange)
    (hstate : context.state.raw.isNull = false) (hplan : context.plan.raw.isNull = false) :
    (∃ q ∈ (context.plan.schema.planResource context context.rootNodes).log.replaced,
        Path.same q p = true) ↔
      ∃ m x s, context.plan.schema.LeadsTo p m ∧ .requiresReplace ∈ m.behaviour.modifiers ∧
        context.plan.raw.atPath p = .ok x ∧ context.state.get p = .ok s ∧ x.same s = false := by
  constructor
  · rintro ⟨q, hq, hqp⟩
    obtain ⟨m, nodes, h, hreplaces⟩ := hc.mem_replaced_iff.1 hq
    obtain ⟨hmem, _, _, hchanged⟩ := (h.replaces_iff hc).1 hreplaces
    obtain ⟨y, hy, hyplan⟩ := h.exists_atPath hc
    obtain ⟨x, hx, hyx⟩ := Value.atPath_congr (Value.same_refl _) hqp hy
    obtain ⟨s, hs, hstates⟩ := hc.stateData.get_congr hqp (h.reads hc.toOneSchema).state
    have hleads : context.plan.schema.LeadsTo p m := Schema.leadsTo_iff.2
      (SchemaNode.resolveFrom_alike (.of_same hqp) (h.invariant hc.toValid).nodeAt)
    refine ⟨m, x, s, hleads, hmem, hx, hs, ?_⟩
    rw [← hchanged]
    exact Value.same_eq_of_same (Value.same_trans (Value.same_symm hyx) hyplan)
      (Value.same_symm hstates)
  · rintro ⟨m, x, s, hleads, hmem, hx, hs, hchanged⟩
    obtain ⟨node, q, y, hnode, hqp, hyx, hplaced⟩ := hc.exists_placed_same
      (fun _ _ _ h _ => h.left_of_subset hc (List.Subset.refl _)) hx
    obtain rfl := Except.ok.inj (hnode.symm.trans (Schema.leadsTo_iff.1 hleads))
    obtain ⟨nodes, h, rfl⟩ := hplaced.plannedAt rfl
    obtain ⟨s', hs', hstates⟩ := hc.stateData.get_congr hqp (h.reads hc.toOneSchema).state
    obtain rfl := Except.ok.inj (hs.symm.trans hs')
    refine ⟨q, hc.mem_replaced_iff.2 ⟨m, nodes, h, (h.replaces_iff hc).2 ?_⟩, hqp⟩
    refine ⟨hmem, hstate, hplan, ?_⟩
    rw [← hchanged]
    exact Value.same_eq_of_same hyx hstates

namespace Data

variable {config state plan : Data}

/-- Where all modifiers ask for the resource to be replaced on a change, no path of such changes is
repeated, and there are none without a state. Otherwise a path is among them, up to equality,
exactly if it leads to an attribute or a block with such a modifier and the plan has a value there
that differs from what is read of the state. Something is read there in any case. -/
theorem modifyPlan_replaces_changed (custom : CustomModifiers) (hconfig : config.Invariant)
    (hstate : state.Invariant) (hplan : plan.Invariant)
    (hconfigSchema : config.schema = plan.schema) (hstateSchema : state.schema = plan.schema)
    (hruns : ∀ modifier, plan.schema.Runs modifier → modifier = .requiresReplace)
    (hnull : plan.raw.isNull = false) :
    let replaced := (modifyPlan custom config state plan).requiresReplace
    replaced.Pairwise (fun p q => Path.same p q = false) ∧
      (state.raw.isNull = true → replaced = []) ∧
      (state.raw.isNull = false → ∀ p, (∃ q ∈ replaced, Path.same q p = true) ↔
        ∃ m x s, plan.schema.LeadsTo p m ∧ .requiresReplace ∈ m.behaviour.modifiers ∧
          plan.raw.atPath p = .ok x ∧ state.get p = .ok s ∧ x.same s = false) ∧
      ∀ p m, plan.schema.LeadsTo p m → ∃ s, state.get p = .ok s := by
  have hc : PlanContext.ReplacesOnChange ⟨PlanModifier.respond custom, config, state, plan⟩ := by
    refine ⟨.of_invariant hconfig hstate hplan hconfigSchema hstateSchema fun m r hm hr => ?_,
      ⟨custom, rfl⟩, hruns⟩
    obtain rfl := hruns m hm
    exact PlanModifier.wellFormed_respond nofun nofun hr
  unfold modifyPlan
  rw [hc.modifyPlanWith hnull]
  refine ⟨pairwise_distinctPaths _, fun habsent => ?_, fun hpresent p => ?_, fun p m hleads => ?_⟩
  · refine List.eq_nil_iff_forall_not_mem.2 fun p hp => ?_
    obtain ⟨m, nodes, h, hreplaces⟩ := hc.mem_replaced_iff.1 (mem_of_mem_distinctPaths hp)
    obtain ⟨_, hpresent, _⟩ := (h.replaces_iff hc).1 hreplaces
    exact Bool.false_ne_true (hpresent.symm.trans habsent)
  · rw [← hc.exists_replaced_iff hpresent hnull]
    constructor
    · rintro ⟨q, hq, hqp⟩
      exact ⟨q, mem_of_mem_distinctPaths hq, hqp⟩
    · rintro ⟨q, hq, hqp⟩
      obtain ⟨r, hr, hrq⟩ := exists_mem_distinctPaths hq
      exact ⟨r, hr, Path.same_trans hrq hqp⟩
  · have htype := Schema.typeAt_of_nodeAt (Schema.leadsTo_iff.1 hleads)
    obtain ⟨s, hs, _⟩ := hstate.exists_get (hstateSchema ▸ htype)
    exact ⟨s, hs⟩

end Data

/-! ## An example

Two rules that are planned alike, with ids that are not known yet. A change of a note in a rule
replaces the resource. -/

namespace Pinned

def note : AttributeDraft := Ruled.text ⟨false, true, false, false⟩ .requiresReplace

def schema : Schema :=
  ⟨1, [("rules", .group .set [("note", Ruled.leaf note), ("id", Server.leaf .string)]
    Ruled.rules.traits)], [], .empty⟩

def data (role : Role) (items : List Value) : Data :=
  { Ruled.data role items with schema := schema }

def twin : Value := Ruled.rule (.unknown .string) "b"

def config : Data := data .config [Ruled.rule (.null .string) "b"]

def state : Data := data .state []

def plan : Data := data .plan [twin, twin]

theorem schema_wellFormed : schema.WellFormed :=
  Ruled.wellFormed_schema (.leaf trivial ⟨rfl, rfl⟩) (.leaf trivial ⟨rfl, rfl⟩) ⟨rfl, rfl⟩

theorem runs {modifier : PlanModifier} (h : schema.Runs modifier) :
    modifier = .requiresReplace := by
  rcases Ruled.runs_group (Ruled.runs_schema h) with h | h | h
  · cases h
  · exact List.mem_singleton.1 (Ruled.runs_leaf h)
  · cases Ruled.runs_leaf h

theorem invariant_data (role : Role) {items : List Value}
    (hi : ∀ x ∈ items, x.ty = (Ruled.rule (.null .string) "").ty ∧ x.WellFormed)
    (hd : items.Pairwise Value.Apart) : (data role items).Invariant :=
  ⟨schema_wellFormed, rfl, Ruled.wellFormed_data role hi hd⟩

theorem invariant_config : config.Invariant :=
  invariant_data .config (List.forall_mem_singleton.2 (Ruled.rule_spec "b" rfl trivial))
    (List.pairwise_singleton _ _)

theorem invariant_state : state.Invariant :=
  invariant_data .state (fun x hx => by cases hx) .nil

theorem invariant_plan : plan.Invariant := by
  refine invariant_data .plan ?_ (List.pairwise_pair.2 fun hknown => by cases hknown)
  simp only [List.forall_mem_cons]
  exact ⟨Ruled.rule_spec "b" rfl trivial, Ruled.rule_spec "b" rfl trivial, by simp⟩

/-- The note of the rules that are planned. -/
def noteAt : Path := [.name "rules", .element twin, .name "note"]

end Pinned

/-- The state has no such rule, so that its note is a change, but that there are rules is not. -/
theorem Data.modifyPlan_replaces_changed_twin_rules :
    Pinned.config.Invariant ∧ Pinned.state.Invariant ∧ Pinned.plan.Invariant ∧
      Pinned.plan.raw.isNull = false ∧ Pinned.state.raw.isNull = false ∧
      let replaced := (modifyPlan (fun _ r => .keep r.planValue) Pinned.config Pinned.state
        Pinned.plan).requiresReplace
      replaced.Pairwise (fun p q => Path.same p q = false) ∧
        (∃ q ∈ replaced, Path.same q Pinned.noteAt = true) ∧
        ¬∃ q ∈ replaced, Path.same q [.name "rules"] = true := by
  obtain ⟨hdistinct, _, hchanged, _⟩ := modifyPlan_replaces_changed (fun _ r => .keep r.planValue)
    Pinned.invariant_config Pinned.invariant_state Pinned.invariant_plan rfl rfl
    (fun _ => Pinned.runs) rfl
  refine ⟨Pinned.invariant_config, Pinned.invariant_state, Pinned.invariant_plan, rfl, rfl,
    hdistinct, ?_, ?_⟩
  · have hread : Pinned.state.get Pinned.noteAt = .ok (.null .string) := rfl
    have htwin : (Value.set (Ruled.rule (.null .string) "").ty [Pinned.twin, Pinned.twin]).step
        (.element Pinned.twin) = .ok Pinned.twin :=
      Value.step_eq_ok_iff_child.2 (.element (List.find?_cons_of_pos (Value.same_refl _)))
    have hrule : Pinned.plan.raw.atPath ([.name "rules"] ++ [.element Pinned.twin]) =
        .ok Pinned.twin := Value.atPath_append_singleton_eq_ok.2 ⟨_, rfl, htwin⟩
    have hplanned : Pinned.plan.raw.atPath Pinned.noteAt = .ok (.string "b") :=
      Value.atPath_append_singleton_eq_ok.2 ⟨Pinned.twin, hrule, rfl⟩
    have hdiffer : (Value.string "b").same (.null .string) = false := by simp [Value.same]
    exact (hchanged rfl Pinned.noteAt).2 ⟨.attr (Ruled.leaf Pinned.note), .string "b",
      .null .string, rfl, List.mem_cons_self, hplanned, hread, hdiffer⟩
  · intro hrules
    obtain ⟨m, x, s, hleads, hmem, _⟩ := (hchanged rfl [.name "rules"]).1 hrules
    cases m <;> cases hleads
    cases hmem

end ResourceSchema
