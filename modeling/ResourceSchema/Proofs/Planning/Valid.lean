import ResourceSchema.Proofs.Planning.Configured

/-!
# Planning makes plans

Whatever the modifiers answer, planning keeps the type of each value: an answer of another type is
refused, and what planned elements and fields are put together to is of the type of what they come
from. It can fail only where the planned elements of a set have become equal, and then the set
stays. Planning makes a plan of the schema from a plan of the schema, and each of its own
diagnostics is about an answer that was refused or a set that stays (`Data.modifyPlan_spec`).
-/

namespace ResourceSchema

variable {context : PlanContext} {path : Path} {nodes : PlanNodes} {t : Ty} {v w : Value}
  {attributes : List (String × Attribute)} {blocks : List (String × Block)}

/-! ## Types -/

theorem ty_rebuilt {result : Except ValueError Value} (h : ∀ w, result = .ok w → w.ty = v.ty) :
    (rebuilt path v result).result.ty = v.ty := by
  cases result with
  | ok w => exact h w rfl
  | error e => rfl

theorem result_absorb_of_ne {current : Value} {response : PlanResponse}
    (h : response.planValue.ty ≠ current.ty) : (absorb path current response).result = current := by
  unfold absorb
  rw [Planned.result_bind, if_neg h]
  rfl

@[simp] theorem ty_absorb (current : Value) (response : PlanResponse) :
    (absorb path current response).result.ty = current.ty := by
  by_cases h : response.planValue.ty = current.ty
  · unfold absorb
    rw [Planned.result_bind, if_pos h]
    exact h
  · rw [result_absorb_of_ne h]

@[simp] theorem ty_runModifiers (current : Value) (ms : List PlanModifier) :
    (runModifiers context path nodes current ms).result.ty = current.ty := by
  induction ms generalizing current with
  | nil => rfl
  | cons m rest ih => exact (ih _).trans (ty_absorb current _)

@[simp]
theorem ty_planObject (planFields : List (String × Value) → Planned (List (String × Value))) :
    (planObject planFields path v).result.ty = v.ty := by
  unfold planObject
  split
  · exact ty_rebuilt fun w hw => Value.ty_objectOfType hw
  · rfl

theorem ty_planCollected {planOne : Path → PlanNodes → Planned Value}
    (hone : ∀ path nodes, (planOne path nodes).result.ty = nodes.plan.ty) :
    (planCollected planOne path nodes).result.ty = nodes.plan.ty := by
  unfold planCollected
  split
  · exact hone path nodes
  · next t items heq =>
    split
    · rfl
    · refine ty_rebuilt fun w hw => ?_
      rw [(Value.listOf_eq_ok.1 hw).2, heq]
      rfl
  · next t items heq =>
    split
    · rfl
    · refine ty_rebuilt fun w hw => ?_
      rw [(Value.setOf_eq_ok.1 hw).2.2, heq]
      rfl
  · next t entries heq =>
    split
    · rfl
    · refine ty_rebuilt fun w hw => ?_
      rw [(Value.mapOf_eq_ok.1 hw).2, heq]
      rfl
  · rfl

/-- Planning a member keeps the type of its value. -/
theorem Member.WellFormed.ty_plan {m : Member} (h : m.WellFormed) :
    (m.plan context path nodes).result.ty = nodes.plan.ty := by
  rcases h.leaf_or_collects with ⟨t, traits, rfl⟩ | ⟨mode, element, attributes, blocks, h⟩
  · rw [Member.plan_leaf]
    exact ty_runModifiers _ _
  · rw [h.plan, Planned.result_bind]
    exact (ty_planCollected fun _ _ => ty_planObject _).trans (ty_runModifiers _ _)

/-! ## What planning reports -/

/-- What some modifiers leave of the planned value. -/
def PlanNodes.left (context : PlanContext) (path : Path) (nodes : PlanNodes)
    (ms : List PlanModifier) : Value :=
  (runModifiers context path nodes nodes.plan ms).result

/-- What a modifier answers that runs after some others. -/
def PlanNodes.answer (context : PlanContext) (path : Path) (nodes : PlanNodes)
    (before : List PlanModifier) (modifier : PlanModifier) : PlanResponse :=
  context.answer modifier ⟨path, nodes.config, nodes.state, nodes.left context path before,
    context.config, context.state, context.plan⟩

/-- The values that planning starts from. -/
def PlanContext.rootNodes (c : PlanContext) : PlanNodes := ⟨c.config.raw, c.state.raw, c.plan.raw⟩

/-- The values at a member after its own modifiers. -/
def PlanNodes.modified (context : PlanContext) (path : Path) (nodes : PlanNodes) (m : Member) :
    PlanNodes :=
  { nodes with plan := nodes.left context path m.behaviour.modifiers }

/-- The members that planning comes to, with the path and the values at each: those of the resource,
and those of the objects collected in what the modifiers leave of a member that it comes to. -/
inductive PlannedAt (context : PlanContext) : Path → Member → PlanNodes → Prop
  | root {e : String × Member} {fields : List (String × Value)}
      (hfields : context.plan.raw = .object fields)
      (he : e ∈ levelMembers context.plan.schema.attributes context.plan.schema.blocks) :
      PlannedAt context [.name e.1] e.2 (context.rootNodes.descend (.name e.1) e.2.ty)
  | member {path : Path} {m : Member} {nodes : PlanNodes} {o : Path × PlanNodes}
      {fields : List (String × Value)} {e : String × Member} (h : PlannedAt context path m nodes)
      (ho : o ∈ (nodes.modified context path m).objects path) (hfields : o.2.plan = .object fields)
      (he : e ∈ m.node.members) :
      PlannedAt context (o.1 ++ [.name e.1]) e.2 (o.2.descend (.name e.1) e.2.ty)

/-- What is reported at a member: the diagnostics of an answer, that an answer was of another type,
and then the value stays as the modifiers before have left it, or that planned elements of a set
have become equal, and then the set stays as the modifiers have left it. -/
inductive PlanReport (context : PlanContext) (path : Path) (m : Member) (nodes : PlanNodes) :
    Diagnostics → Prop
  | answered {before after : List PlanModifier} {modifier : PlanModifier}
      (hm : m.behaviour.modifiers = before ++ modifier :: after) :
      PlanReport context path m nodes (nodes.answer context path before modifier).diagnostics
  | refused {before after : List PlanModifier} {modifier : PlanModifier}
      (hm : m.behaviour.modifiers = before ++ modifier :: after)
      (hty : (nodes.answer context path before modifier).planValue.ty ≠
        (nodes.left context path before).ty)
      (hkept : nodes.left context path (before ++ [modifier]) = nodes.left context path before) :
      PlanReport context path m nodes [invalidModification path
        ("Plan modifier returned a value of type " ++
          (nodes.answer context path before modifier).planValue.ty.text ++ ", expected " ++
          (nodes.left context path before).ty.text)]
  | collapsed {t : Ty} {items before between after : List Value} {x y : Value}
      (hset : (nodes.modified context path m).plan = .set t items)
      (hplanned : (((nodes.modified context path m).objects path).map fun o =>
        (planLevel m.node.members context o.1 o.2).result) = before ++ x :: between ++ y :: after)
      (hknown : x.isFullyKnown = true) (hsame : x.same y = true)
      (hkept : (m.plan context path nodes).result = .set t items) :
      PlanReport context path m nodes
        [invalidModification path (ValueError.duplicateSetElement x).message]

variable {E : Diagnostics → Prop}

theorem accounted_absorb {current : Value} {response : PlanResponse} (h : E response.diagnostics)
    (hty : response.planValue.ty ≠ current.ty → E [invalidModification path
      ("Plan modifier returned a value of type " ++ response.planValue.ty.text ++
        ", expected " ++ current.ty.text)]) :
    (absorb path current response).Accounted E := by
  refine (Planned.Accounted.note h _).bind ?_
  split
  · exact .pure _
  · next hne => exact (Planned.Accounted.note (hty hne) _).bind (.pure _)

theorem runModifiers_append (current : Value) (before after : List PlanModifier) :
    runModifiers context path nodes current (before ++ after) = (do
      let next ← runModifiers context path nodes current before
      runModifiers context path nodes next after) := by
  induction before generalizing current with
  | nil => rfl
  | cons m rest ih => simp only [List.cons_append, runModifiers, ih, bind_assoc]

theorem PlanNodes.left_append_singleton (before : List PlanModifier) (modifier : PlanModifier) :
    nodes.left context path (before ++ [modifier]) =
      (absorb path (nodes.left context path before)
        (nodes.answer context path before modifier)).result := by
  rw [left, runModifiers_append]
  rfl

/-- The reports of the modifiers of a member from some on. -/
theorem accounted_runModifiers {m : Member} {ms : List PlanModifier} (before : List PlanModifier)
    (h : ∀ ds, PlanReport context path m nodes ds → E ds)
    (hm : m.behaviour.modifiers = before ++ ms) :
    (runModifiers context path nodes (nodes.left context path before) ms).Accounted E := by
  induction ms generalizing before with
  | nil => exact .pure _
  | cons modifier rest ih =>
    refine (accounted_absorb (h _ (.answered hm)) fun hty => ?_).bind ?_
    · exact h _ (.refused hm hty
        ((PlanNodes.left_append_singleton before modifier).trans (result_absorb_of_ne hty)))
    · have hrest := ih (before ++ [modifier]) (by rw [hm, List.append_assoc]; rfl)
      rwa [PlanNodes.left_append_singleton] at hrest

theorem accounted_rebuilt {result : Except ValueError Value}
    (h : ∀ e, result = .error e → E [invalidModification path e.message]) :
    (rebuilt path v result).Accounted E := by
  cases result with
  | ok w => exact .pure w
  | error e => exact (Planned.Accounted.note (h e rfl) []).bind (.pure v)

/-! ## Objects and collections -/

theorem accounted_planEach {M : Type} {planOne : String × M → Planned Value}
    {members : List (String × M)} {fields : List (String × Value)}
    (h : ∀ e ∈ members, (planOne e).Accounted E) :
    (planEach planOne members fields).Accounted E := by
  induction members generalizing fields with
  | nil => exact .pure fields
  | cons e rest ih =>
    obtain ⟨he, hrest⟩ := List.forall_mem_cons.1 h
    exact he.bind (ih hrest)

/-- Fields of some types keep to them if the planned values of the members do. -/
theorem types_planEach {M : Type} {planOne : String × M → Planned Value}
    {members : List (String × M)} {fields : List (String × Value)} {types : List (String × Ty)}
    (h : ∀ e ∈ members, types.lookup e.1 = some (planOne e).result.ty)
    (hf : ∀ f ∈ fields, types.lookup f.1 = some f.2.ty) :
    ∀ f ∈ (planEach planOne members fields).result, types.lookup f.1 = some f.2.ty := by
  induction members generalizing fields with
  | nil => exact hf
  | cons e rest ih =>
    obtain ⟨he, hrest⟩ := List.forall_mem_cons.1 h
    refine ih hrest fun f hmem => ?_
    rcases Keyed.mem_assign hmem with rfl | hmem
    · exact he
    · exact hf f hmem

/-- In an object of the type of a level a member has a value of its type. -/
theorem descend_member_spec {fields : List (String × Value)} {e : String × Member}
    (hn : MemberNames (Keyed.keys attributes ++ Keyed.keys blocks))
    (hobject : nodes.plan = .object fields)
    (hty : nodes.plan.ty = Block.objectTyOf attributes blocks)
    (he : e ∈ levelMembers attributes blocks) :
    nodes.plan.step (.name e.1) = .ok (nodes.descend (.name e.1) e.2.ty).plan ∧
      (nodes.descend (.name e.1) e.2.ty).plan.ty = e.2.ty := by
  rw [hobject] at hty
  obtain ⟨w, hw, hwty⟩ := exists_field hn hty he
  have hstep : nodes.plan.step (.name e.1) = .ok w := by
    rw [hobject]
    exact Value.step_of_inSlot?_field hw
  have hdescend : (nodes.descend (.name e.1) e.2.ty).plan = w := Value.descend_of_step hstep
  rw [hdescend]
  exact ⟨hstep, hwty⟩

/-- The planned fields of an object make an object of its type again. -/
theorem exists_objectOfType_planEach {fields : List (String × Value)}
    (hn : MemberNames (Keyed.keys attributes ++ Keyed.keys blocks))
    (hm : ∀ e ∈ levelMembers attributes blocks, e.2.WellFormed)
    (hv : nodes.plan.WellFormed) (hty : nodes.plan.ty = Block.objectTyOf attributes blocks)
    (hobject : nodes.plan = .object fields) :
    ∃ made, Value.objectOfType nodes.plan.ty (planEach (fun e => e.2.plan context
      (path ++ [.name e.1]) (nodes.descend (.name e.1) e.2.ty))
        (levelMembers attributes blocks) fields).result = .ok made := by
  have hplanned : ∀ e ∈ levelMembers attributes blocks, (Value.fieldTypes fields).lookup e.1 =
      some (e.2.plan context (path ++ [.name e.1])
        (nodes.descend (.name e.1) e.2.ty)).result.ty := by
    intro e he
    rw [(hm e he).ty_plan, (descend_member_spec hn hobject hty he).2,
      ← lookup_levelTypes_of_mem hn he]
    rw [hobject] at hty
    exact congrArg _ (Ty.object.inj hty)
  have hfields : ∀ f ∈ fields, (Value.fieldTypes fields).lookup f.1 = some f.2.ty := by
    intro f hf
    rw [hobject] at hv
    have hd := (Value.wellFormed_object_iff.1 hv).1.nodup
    rw [Value.lookup_fieldTypes, Keyed.lookup_of_mem hd hf]
    rfl
  have htype : nodes.plan.ty = .object (Value.fieldTypes fields) := by rw [hobject]; rfl
  rw [htype]
  exact ⟨_, Value.objectOfType_eq_ok.2 ⟨types_planEach hplanned hfields, rfl⟩⟩

theorem accounted_planLevel (hn : MemberNames (Keyed.keys attributes ++ Keyed.keys blocks))
    (hm : ∀ e ∈ levelMembers attributes blocks, e.2.WellFormed)
    (hv : nodes.plan.WellFormed) (hty : nodes.plan.ty = Block.objectTyOf attributes blocks)
    (h : ∀ fields, nodes.plan = .object fields → ∀ e ∈ levelMembers attributes blocks,
      (e.2.plan context (path ++ [.name e.1])
        (nodes.descend (.name e.1) e.2.ty)).Accounted E) :
    (planLevel (levelMembers attributes blocks) context path nodes).Accounted E := by
  unfold planLevel planObject
  split
  · next fields hobject =>
    refine (accounted_planEach (h fields hobject)).bind (accounted_rebuilt fun error herror => ?_)
    obtain ⟨made, hmade⟩ := exists_objectOfType_planEach hn hm hv hty hobject
    cases hmade.symm.trans herror
  · exact .pure _

/-- Planned elements of the types of what they come from make a collection again, but for a set in
which some have become equal. -/
theorem accounted_planCollected {planOne : Path → PlanNodes → Planned Value}
    (hv : nodes.plan.WellFormed)
    (hty : ∀ path nodes, (planOne path nodes).result.ty = nodes.plan.ty)
    (h : ∀ o ∈ nodes.objects path, (planOne o.1 o.2).Accounted E)
    (hset : ∀ t items before x between y after, nodes.plan = .set t items →
      ((nodes.objects path).map fun o => (planOne o.1 o.2).result) =
        before ++ x :: between ++ y :: after →
      x.isFullyKnown = true → x.same y = true →
      (planCollected planOne path nodes).result = .set t items →
      E [invalidModification path (ValueError.duplicateSetElement x).message]) :
    (planCollected planOne path nodes).Accounted E := by
  obtain ⟨config, state, plan⟩ := nodes
  dsimp only at hv
  cases plan with
  | object fields => exact h _ (List.mem_singleton.2 rfl)
  | list t items =>
    obtain ⟨_, hitems⟩ := Value.wellFormed_list_iff.1 hv
    unfold planCollected
    dsimp only
    split
    · exact .pure _
    refine (Planned.Accounted.mapM fun e he => h _ (List.mem_map_of_mem he)).bind
      (accounted_rebuilt fun error herror => ?_)
    refine absurd herror (Value.listOf_ne_error (Planned.forall_result_mapM fun e he => ?_))
    exact (hty _ _).trans (hitems e.1 (List.fst_mem_of_mem_zipIdx he)).1
  | set t items =>
    obtain ⟨_, hitems, _⟩ := Value.wellFormed_set_iff.1 hv
    unfold planCollected at hset ⊢
    dsimp only at hset ⊢
    split at hset
    · next hempty =>
      rw [if_pos hempty]
      exact .pure _
    next hempty =>
    rw [if_neg hempty]
    refine (Planned.Accounted.mapM fun x hx => h _ (List.mem_map_of_mem hx)).bind
      (accounted_rebuilt fun error herror => ?_)
    -- The types are right, so that only the search for duplicates is left to fail.
    obtain ⟨x, hx, rfl⟩ := Value.setOf_eq_error herror (Planned.forall_result_mapM fun x hx =>
      (hty _ _).trans (hitems x hx).1)
    obtain ⟨before, between, y, after, hplanned, hknown, hsame⟩ :=
      Value.exists_of_firstDuplicate? hx
    refine hset t items before x between y after rfl ?_ hknown hsame ?_
    · rw [← hplanned, Planned.result_mapM]
      exact List.map_map
    · rw [Planned.result_bind, herror]
      rfl
  | map t entries =>
    obtain ⟨_, _, hentries⟩ := Value.wellFormed_map_iff.1 hv
    unfold planCollected
    dsimp only
    split
    · exact .pure _
    refine .bind (.mapM fun e he => (h _ (List.mem_map_of_mem he)).bind (.pure _))
      (accounted_rebuilt fun error herror => ?_)
    refine absurd herror (Value.mapOf_ne_error (Planned.forall_result_mapM fun e he => ?_))
    exact (hty _ _).trans (hentries e he).1
  | _ => exact .pure _

/-! ## Members -/

/-- A well-formed plan of a well-formed schema, with modifiers that answer with well-formed
values. -/
structure PlanContext.Valid (c : PlanContext) : Prop extends PlanContext.WellFormed c where
  schema : c.plan.schema.WellFormed
  ty : c.plan.raw.ty = c.plan.schema.ty

theorem PlanContext.WellFormed.rootNodes (hc : context.WellFormed) :
    context.rootNodes.WellFormed :=
  ⟨hc.config, hc.state, hc.plan⟩

/-- What holds of the members that planning comes to: each is where its path leads, and the planned
value is of its type. -/
structure PlannedAt.Invariant (context : PlanContext) (path : Path) (m : Member)
    (nodes : PlanNodes) : Prop where
  nodeAt : context.plan.schema.nodeAt path = .ok m.node
  ty : nodes.plan.ty = m.ty
  runs : ∀ modifier, m.Runs modifier → context.plan.schema.Runs modifier
  path : path.WellFormed
  nodes : nodes.WellFormed

namespace PlannedAt

variable {m : Member}

theorem Invariant.wellFormed (hc : context.Valid) (h : Invariant context path m nodes) :
    m.WellFormed :=
  m.wellFormed_node.1 (hc.schema.nodeAt h.nodeAt).2

theorem Invariant.modified (hc : context.Valid) (h : Invariant context path m nodes) :
    (nodes.modified context path m).WellFormed ∧
      (nodes.modified context path m).plan.ty = m.ty := by
  have hsound : (runModifiers context path nodes nodes.plan m.behaviour.modifiers).Sound
      Value.WellFormed :=
    sound_runModifiers hc.toWellFormed h.path h.nodes h.nodes.plan fun modifier hmem =>
      h.runs modifier (Member.runs_own hmem)
  exact ⟨⟨h.nodes.config, h.nodes.state, hsound.result⟩, (ty_runModifiers _ _).trans h.ty⟩

theorem invariant (hc : context.Valid) (h : PlannedAt context path m nodes) :
    Invariant context path m nodes := by
  induction h with
  | @root e fields hfields he =>
    have hempty : Path.WellFormed [] := fun s hs => by cases hs
    refine ⟨?_, (descend_member_spec hc.schema.names hfields hc.ty he).2,
      fun modifier => Schema.runs e he, hempty.append_name e.1,
      hc.rootNodes.descend (hc.schema.members e he).ty⟩
    exact SchemaNode.resolveFrom_cons_eq_ok.2 ⟨_, SchemaNode.member_name hc.schema.names he, rfl⟩
  | @member path m nodes o fields e h ho hfields he ih =>
    obtain ⟨hmodified, hty⟩ := ih.modified hc
    obtain ⟨hop, hon⟩ := hmodified.objects ih.path ho
    rcases (ih.wellFormed hc).leaf_or_collects with
      ⟨t, traits, rfl⟩ | ⟨mode, element, attributes, blocks, hm⟩
    · cases he
    have hnode := hm.nodeAt (e := e) ih.nodeAt hty ho (hm.members ▸ he)
    have hmember : e.2.WellFormed := e.2.wellFormed_node.1 (hc.schema.nodeAt hnode).2
    refine ⟨hnode, ?_, fun modifier h => ih.runs _ (hm.runs e (hm.members ▸ he) h),
      hop.append_name e.1, hon.descend hmember.ty⟩
    exact (descend_member_spec hm.names hfields
      (PlanNodes.ty_of_mem_objects hmodified.plan (hty.trans hm.ty) ho) (hm.members ▸ he)).2

theorem runs_own (hc : context.Valid) (h : PlannedAt context path m nodes) :
    ∀ modifier ∈ m.behaviour.modifiers, context.plan.schema.Runs modifier :=
  fun modifier hmem => (h.invariant hc).runs modifier (Member.runs_own hmem)

/-- Whatever is reported at a member and below it is accounted for. -/
theorem accounted_plan (hc : context.Valid) (hm : m.WellFormed)
    (h : ∀ path m nodes, PlannedAt context path m nodes →
      ∀ ds, PlanReport context path m nodes ds → E ds) :
    ∀ path nodes, PlannedAt context path m nodes → (m.plan context path nodes).Accounted E := by
  refine hm.induct (P := fun m => ∀ path nodes, PlannedAt context path m nodes →
    (m.plan context path nodes).Accounted E) ?_
  intro m hm ih path nodes hplanned
  have hreport := h path m nodes hplanned
  obtain ⟨hmodified, hty⟩ := (hplanned.invariant hc).modified hc
  rcases hm.leaf_or_collects with
    ⟨t, traits, rfl⟩ | ⟨mode, element, attributes, blocks, hcollects⟩
  · rw [Member.plan_leaf]
    exact accounted_runModifiers [] hreport rfl
  rw [hcollects.plan]
  refine (accounted_runModifiers [] hreport rfl).bind ?_
  show (planCollected _ path (nodes.modified context path m)).Accounted E
  refine accounted_planCollected hmodified.plan (fun path nodes => ty_planObject _)
    (fun o ho => ?_) ?_
  · have hon := (hmodified.objects (hplanned.invariant hc).path ho).2
    have hoty := PlanNodes.ty_of_mem_objects hmodified.plan (hty.trans hcollects.ty) ho
    have hmembers := hcollects.members
    refine accounted_planLevel hcollects.names (fun e he => hm.members e (hmembers ▸ he))
      hon.plan hoty fun fields hobject e he => ?_
    -- Planning comes to the members of a collected object from the member that is planned here.
    exact ih e (hmembers ▸ he) _ _ (.member hplanned ho hobject (hmembers ▸ he))
  · intro t items before x between y after hset hequal hknown hsame hkept
    rw [← hcollects.members] at hequal
    refine hreport _ (.collapsed hset hequal hknown hsame ?_)
    rw [hcollects.plan]
    exact hkept

end PlannedAt

/-! ## Whole resources -/

/-- Planning a resource makes a value of the type of its schema, and what is reported is reported at
members that planning comes to. -/
theorem PlanContext.Valid.planResource (hc : context.Valid) :
    (context.plan.schema.planResource context context.rootNodes).result.ty =
        context.plan.schema.ty ∧
      (context.plan.schema.planResource context context.rootNodes).Accounted fun ds =>
        ∃ path m nodes, PlannedAt context path m nodes ∧ PlanReport context path m nodes ds := by
  refine ⟨(ty_planObject _).trans hc.ty, ?_⟩
  have hmembers := hc.schema.members
  rw [Schema.planResource_eq]
  refine accounted_planLevel hc.schema.names hmembers hc.plan hc.ty fun fields hobject e he => ?_
  exact PlannedAt.accounted_plan hc (hmembers e he)
    (fun path m nodes hplanned ds hreport => ⟨path, m, nodes, hplanned, hreport⟩) _ _
    (.root hobject he)

theorem PlanContext.Valid.modifyPlanWith (hc : context.Valid)
    (hnull : context.plan.raw.isNull = false) :
    Data.modifyPlanWith context.answer context.config context.state context.plan =
      ⟨⟨.plan, context.plan.schema,
          (context.plan.schema.planResource context context.rootNodes).result⟩,
        distinctPaths (context.plan.schema.planResource context context.rootNodes).log.replaced,
        (context.plan.schema.planResource context context.rootNodes).log.diagnostics⟩ :=
  Data.modifyPlanWith_of_ty hnull rfl hc.planResource.1

/-- Planning makes a plan of the same schema from whatever the modifiers answer: the planned value
is always taken, unless the resource is to be destroyed. All diagnostics are reported at a member
that the schema has at its path: they are those of an answer, or about an answer of another type
that was refused, or about a set that stays because planned elements of it have become equal. -/
theorem Data.modifyPlan_spec {custom : CustomModifiers} {config state plan : Data}
    (h : PlanContext.Valid ⟨PlanModifier.respond custom, config, state, plan⟩)
    (hrole : plan.role = .plan) :
    (modifyPlan custom config state plan).plan.role = .plan ∧
      (modifyPlan custom config state plan).plan.schema = plan.schema ∧
      (modifyPlan custom config state plan).plan.raw.ty = plan.schema.ty ∧
      (modifyPlan custom config state plan).plan.raw.WellFormed ∧
      (plan.raw.isNull = false → ofValue .plan plan.schema
        (plan.schema.planResource ⟨PlanModifier.respond custom, config, state, plan⟩
          ⟨config.raw, state.raw, plan.raw⟩).result =
        .ok (modifyPlan custom config state plan).plan) ∧
      ∃ pieces : List Diagnostics,
        (modifyPlan custom config state plan).diagnostics = pieces.flatten ∧
        ∀ ds ∈ pieces, ∃ path m nodes,
          PlannedAt ⟨PlanModifier.respond custom, config, state, plan⟩ path m nodes ∧
          plan.schema.nodeAt path = .ok m.node ∧ nodes.plan.ty = m.ty ∧
          PlanReport ⟨PlanModifier.respond custom, config, state, plan⟩ path m nodes ds := by
  obtain ⟨hty, pieces, hpieces, hlog⟩ := h.planResource
  unfold modifyPlan
  cases hnull : plan.raw.isNull with
  | true =>
    rw [modifyPlanWith_of_isNull hnull]
    exact ⟨hrole, rfl, h.ty, h.plan, nofun, [], rfl, by simp⟩
  | false =>
    have hsound := h.sound_planResource h.schema h.rootNodes
    rw [h.modifyPlanWith hnull]
    refine ⟨rfl, rfl, hty, hsound.result, fun _ => ofValue_of_ty (by decide) hty, pieces, hlog,
      fun ds hds => ?_⟩
    obtain ⟨path, m, nodes, hplanned, hreport⟩ := hpieces ds hds
    have hinvariant := hplanned.invariant h
    exact ⟨path, m, nodes, hplanned, hinvariant.nodeAt, hinvariant.ty, hreport⟩

/-! ## An example

Two rules that are planned with one id. Neither is configured like that, so that both get the
default for a note, and the set stays as it was. -/

namespace Ruled

def twins : Data := data .plan [rule (.string "1") "a", rule (.string "1") "b"]

def twinsContext : PlanContext :=
  ⟨PlanModifier.respond fun _ r => .keep r.planValue, config, .absent .state schema, twins⟩

theorem wellFormed_of_default {w : Value} (h : schema.Runs (.default w)) : w.WellFormed := by
  rcases runs_schemaWith h with h | h
  · cases h
    trivial
  · cases h

theorem valid_twinsContext : twinsContext.Valid := by
  refine
    { config := wellFormed_data .config ?_ (List.pairwise_pair.2 fun _ => by decide +kernel)
      state := schema_built.wellFormed.ty
      plan := wellFormed_data .plan ?_ (List.pairwise_pair.2 fun _ => by decide +kernel)
      answers := fun m r hm hr => PlanModifier.wellFormed_respond (fun _ _ _ => hr.planValue)
        (fun w hw => wellFormed_of_default (hw ▸ hm)) hr
      schema := schema_built.wellFormed
      ty := rfl }
  · simp only [List.forall_mem_cons]
    exact ⟨rule_spec "a" rfl trivial, rule_spec "b" rfl trivial, by simp⟩
  · simp only [List.forall_mem_cons]
    exact ⟨rule_spec "a" rfl trivial, rule_spec "b" rfl trivial, by simp⟩

end Ruled

/-- That the two rules have become equal is reported at the set, which stays. -/
theorem Data.modifyPlan_spec_twin_rules :
    Ruled.twinsContext.Valid ∧ Ruled.twins.role = .plan ∧
      let outcome := Data.modifyPlan (fun _ r => .keep r.planValue) Ruled.config
        (.absent .state Ruled.schema) Ruled.twins
      outcome.plan.raw.WellFormed ∧ outcome.plan.raw.ty = Ruled.schema.ty ∧
        outcome.diagnostics.map (fun d => (d.summary, d.path.map Path.text)) =
          [("Invalid Plan Modification", some "rules")] ∧
        (outcome.plan.raw.atPlace? (Ruled.noteAt 1)).any fun v => v.same (.string "b") := by
  obtain ⟨_, _, hty, hwf, _, _⟩ := modifyPlan_spec Ruled.valid_twinsContext rfl
  exact ⟨Ruled.valid_twinsContext, rfl, hwf, hty, by decide +kernel, by decide +kernel⟩

end ResourceSchema
