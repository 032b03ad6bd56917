import Mathlib.Data.List.Induction
import ResourceSchema.Proofs.Planning.Valid
import ResourceSchema.Proofs.Schema.Kind

/-!
# Where planned values are

Planning puts what it makes of a member back to where the member was found. Lists, maps and objects
can always be put together again, so that on a path without set elements the planned resource has
what planning makes of the member that it comes to there, whatever the modifiers answer
(`PlannedAt.atPath_planResource`). If the modifiers on the way leave what they are asked about,
planning comes to everything that the plan has on such a path (`PlanContext.Valid.exists_placed`).
-/

namespace ResourceSchema

/-- No step of the path is by the value of a set element. -/
def Path.AvoidsSets (p : Path) : Prop := ∀ s ∈ p, s.kind ≠ .element

variable {context : PlanContext} {path p : Path} {nodes : PlanNodes} {m : Member} {s : PathStep}
  {v w x : Value} {attributes : List (String × Attribute)} {blocks : List (String × Block)}

@[simp] theorem Path.avoidsSets_append {q : Path} :
    Path.AvoidsSets (p ++ q) ↔ Path.AvoidsSets p ∧ Path.AvoidsSets q :=
  List.forall_mem_append

theorem Path.AvoidsSets.of_append {q : Path} (h : Path.AvoidsSets (p ++ q)) : Path.AvoidsSets p :=
  (avoidsSets_append.1 h).1

/-! ## Levels that planning comes to -/

/-- What holds of the attributes and the blocks of the objects at a node. -/
structure PlanContext.Level (context : PlanContext) (node : SchemaNode)
    (attributes : List (String × Attribute)) (blocks : List (String × Block)) : Prop where
  members : node.members = levelMembers attributes blocks
  names : MemberNames (Keyed.keys attributes ++ Keyed.keys blocks)
  wellFormed : ∀ e ∈ levelMembers attributes blocks, e.2.WellFormed
  runs : ∀ e ∈ levelMembers attributes blocks, ∀ modifier, e.2.Runs modifier →
    context.plan.schema.Runs modifier

theorem PlanContext.Valid.level (hc : context.Valid) : context.Level (.root context.plan.schema)
    context.plan.schema.attributes context.plan.schema.blocks where
  members := rfl
  names := hc.schema.names
  wellFormed := hc.schema.members
  runs e he _ := Schema.runs e he

theorem PlannedAt.level {mode : NestingMode} {element : SchemaNode} (hc : context.Valid)
    (h : PlannedAt context path m nodes) (hm : m.Collects mode element attributes blocks) :
    context.Level element attributes blocks where
  members := hm.members_element
  names := hm.names
  wellFormed e he := ((h.invariant hc).wellFormed hc).members e (hm.members ▸ he)
  runs e he modifier hr := (h.invariant hc).runs modifier (hm.runs e he hr)

/-! ## Planned fields and elements -/

theorem lookup_planEach_of_notMem {M : Type} {planOne : String × M → Planned Value}
    {members : List (String × M)} {fields : List (String × Value)} {name : String}
    (h : name ∉ Keyed.keys members) :
    (planEach planOne members fields).result.lookup name = fields.lookup name := by
  induction members generalizing fields with
  | nil => rfl
  | cons e rest ih =>
    obtain ⟨hname, hrest⟩ := List.ne_and_not_mem_of_not_mem_cons h
    exact (ih hrest).trans (Keyed.lookup_assign_of_ne hname _ _)

/-- The field of a member has what is planned for it. -/
theorem lookup_planEach {M : Type} {planOne : String × M → Planned Value}
    {members : List (String × M)} {fields : List (String × Value)} {e : String × M}
    (hd : (Keyed.keys members).Nodup) (he : e ∈ members) :
    (planEach planOne members fields).result.lookup e.1 = some (planOne e).result := by
  induction members generalizing fields with
  | nil => cases he
  | cons first rest ih =>
    obtain ⟨hfirst, hrest⟩ := List.nodup_cons.1 hd
    rcases List.mem_cons.1 he with rfl | he
    · exact (lookup_planEach_of_notMem hfirst).trans (Keyed.lookup_assign_self _ _ _)
    · exact ih hrest he

theorem nodup_planEach {M : Type} {planOne : String × M → Planned Value}
    {members : List (String × M)} {fields : List (String × Value)}
    (hf : (Keyed.keys fields).Nodup) :
    (Keyed.keys (planEach planOne members fields).result).Nodup := by
  induction members generalizing fields with
  | nil => exact hf
  | cons e rest ih => exact ih (Keyed.nodup_assign hf)

/-- A planned object has at the name of a member what is planned for it. -/
theorem atPath_planLevel {node : SchemaNode} {fields : List (String × Value)}
    {e : String × Member} (hl : context.Level node attributes blocks)
    (hv : nodes.plan.WellFormed) (hty : nodes.plan.ty = Block.objectTyOf attributes blocks)
    (hobject : nodes.plan = .object fields) (he : e ∈ levelMembers attributes blocks)
    (h : v.atPath path =
      .ok (planLevel (levelMembers attributes blocks) context path nodes).result) :
    v.atPath (path ++ [.name e.1]) = .ok (e.2.plan context (path ++ [.name e.1])
      (nodes.descend (.name e.1) e.2.ty)).result := by
  obtain ⟨made, hmade⟩ : ∃ made, Value.objectOfType nodes.plan.ty (planEach (fun e =>
      e.2.plan context (path ++ [.name e.1]) (nodes.descend (.name e.1) e.2.ty))
        (levelMembers attributes blocks) fields).result = .ok made :=
    exists_objectOfType_planEach hl.names hl.wellFormed hv hty hobject
  rw [hobject, Value.wellFormed_object_iff] at hv
  have hd : (Keyed.keys (levelMembers attributes blocks)).Nodup := by
    rw [keys_levelMembers]
    exact hl.names.1
  obtain ⟨filled, rfl, hfilled⟩ :=
    Value.lookup_objectOfType (nodup_planEach hv.1.nodup) (lookup_planEach hd he) hmade
  have hplanned : (planLevel (levelMembers attributes blocks) context path nodes).result =
      .object filled := by
    unfold planLevel planObject
    rw [hobject] at hmade ⊢
    rw [Planned.result_bind, hmade]
    rfl
  rw [hplanned] at h
  exact Value.atPath_append_singleton_eq_ok.2 ⟨_, h, Value.step_of_inSlot?_field hfilled⟩

/-- What is planned for an element of a collection. -/
def plannedElement (planOne : Path → PlanNodes → Planned Value) (path : Path) (nodes : PlanNodes)
    (t : Ty) (s : PathStep) (v : Value) : Value :=
  (planOne (path ++ [s]) { nodes.descend s t with plan := v }).result

section Collected

variable {planOne : Path → PlanNodes → Planned Value} {t : Ty}

theorem result_planCollected_list {items : List Value} (hplan : nodes.plan = .list t items)
    (hv : nodes.plan.WellFormed)
    (hty : ∀ path nodes, (planOne path nodes).result.ty = nodes.plan.ty) :
    (planCollected planOne path nodes).result =
      .list t (items.zipIdx.map fun e => plannedElement planOne path nodes t (.index e.2) e.1) := by
  obtain ⟨config, state, plan⟩ := nodes
  obtain rfl : plan = .list t items := hplan
  have hitems : ∀ x ∈ items.zipIdx.map fun e => plannedElement planOne path
      ⟨config, state, .list t items⟩ t (.index e.2) e.1, x.ty = t :=
    List.forall_mem_map.2 fun e he => (hty _ _).trans
      ((Value.wellFormed_list_iff.1 hv).2 _ (List.fst_mem_of_mem_zipIdx he)).1
  unfold planCollected
  dsimp only
  split
  · next hempty =>
    rw [List.isEmpty_iff.1 hempty]
    rfl
  · rw [Planned.result_bind, Planned.result_mapM]
    exact congrArg (fun made => (rebuilt path (.list t items) made).result)
      (Value.listOf_eq_ok.2 ⟨hitems, rfl⟩)

theorem result_planCollected_map {entries : List (String × Value)}
    (hplan : nodes.plan = .map t entries) (hv : nodes.plan.WellFormed)
    (hty : ∀ path nodes, (planOne path nodes).result.ty = nodes.plan.ty) :
    (planCollected planOne path nodes).result = .map t (Keyed.sorted
      (entries.map fun e => (e.1, plannedElement planOne path nodes t (.key e.1) e.2))) := by
  obtain ⟨config, state, plan⟩ := nodes
  obtain rfl : plan = .map t entries := hplan
  have hentries : ∀ e ∈ entries.map fun e => (e.1, plannedElement planOne path
      ⟨config, state, .map t entries⟩ t (.key e.1) e.2), e.2.ty = t :=
    List.forall_mem_map.2 fun e he =>
      (hty _ _).trans ((Value.wellFormed_map_iff.1 hv).2.2 e he).1
  unfold planCollected
  dsimp only
  split
  · next hempty =>
    rw [List.isEmpty_iff.1 hempty]
    rfl
  · rw [Planned.result_bind, Planned.result_mapM]
    exact congrArg (fun made => (rebuilt path (.map t entries) made).result)
      (Value.mapOf_eq_ok.2 ⟨hentries, rfl⟩)

/-- A planned collection has, where an object is collected in it, what is planned for this. -/
theorem atPath_planCollected {o : Path × PlanNodes} (hv : nodes.plan.WellFormed)
    (hty : ∀ path nodes, (planOne path nodes).result.ty = nodes.plan.ty)
    (ho : o ∈ nodes.objects path) (havoids : Path.AvoidsSets o.1)
    (h : v.atPath path = .ok (planCollected planOne path nodes).result) :
    v.atPath o.1 = .ok (planOne o.1 o.2).result := by
  unfold PlanNodes.objects at ho
  split at ho
  · next fields heq =>
    rw [List.mem_singleton.1 ho, h]
    unfold planCollected
    rw [heq]
  · next t items heq =>
    obtain ⟨⟨x, i⟩, hx, rfl⟩ := List.mem_map.1 ho
    rw [result_planCollected_list heq hv hty] at h
    refine Value.atPath_append_singleton_eq_ok.2 ⟨_, h, ?_⟩
    refine Value.step_eq_ok_iff_child.2 (.index ?_)
    have hi : items[i]? = some x := List.mk_mem_zipIdx_iff_getElem?.1 hx
    rw [List.getElem?_map, List.getElem?_zipIdx, hi, Nat.zero_add]
    rfl
  · obtain ⟨x, _, rfl⟩ := List.mem_map.1 ho
    exact absurd rfl ((Path.avoidsSets_append.1 havoids).2 _ List.mem_cons_self)
  · next t entries heq =>
    obtain ⟨e, he, rfl⟩ := List.mem_map.1 ho
    rw [result_planCollected_map heq hv hty] at h
    rw [heq] at hv
    have hkeys := (Value.wellFormed_map_iff.1 hv).2.1.nodup
    refine Value.atPath_append_singleton_eq_ok.2 ⟨_, h, ?_⟩
    refine Value.step_eq_ok_iff_child.2 (.key ?_)
    rw [Keyed.lookup_sorted]
    · refine (Keyed.lookup_mapWithKey
        (fun k => plannedElement planOne path nodes t (.key k)) entries e.1).trans ?_
      rw [Keyed.lookup_of_mem hkeys he]
      rfl
    · rw [Keyed.keys, List.map_map]
      exact hkeys
  · cases ho

end Collected

/-! ## Members -/

theorem PlanNodes.avoidsSets_of_mem_objects {o : Path × PlanNodes} (ho : o ∈ nodes.objects path)
    (h : Path.AvoidsSets o.1) : Path.AvoidsSets path := by
  rcases objects_cases ho with rfl | ⟨s, t, _, hpath, _⟩
  · exact h
  · rw [hpath] at h
    exact h.of_append

namespace PlannedAt

/-- A planned member has, where an object is collected in what its modifiers have left, what is
planned for this. -/
theorem atPath_object {mode : NestingMode} {element : SchemaNode} {o : Path × PlanNodes}
    (hc : context.Valid) (h : PlannedAt context path m nodes)
    (hm : m.Collects mode element attributes blocks)
    (ho : o ∈ (nodes.modified context path m).objects path) (havoids : Path.AvoidsSets o.1)
    (hat : v.atPath path = .ok (m.plan context path nodes).result) :
    v.atPath o.1 =
      .ok (planLevel (levelMembers attributes blocks) context o.1 o.2).result := by
  rw [hm.plan] at hat
  obtain ⟨hmodified, _⟩ := (h.invariant hc).modified hc
  exact atPath_planCollected hmodified.plan (fun _ _ => ty_planObject _) ho havoids hat

/-- A planned resource has, where planning comes to a member on a path without set elements, what
is planned for the member. -/
theorem atPath_planResource (hc : context.Valid) (h : PlannedAt context path m nodes)
    (havoids : Path.AvoidsSets path) :
    (context.plan.schema.planResource context context.rootNodes).result.atPath path =
      .ok (m.plan context path nodes).result := by
  induction h with
  | root hfields he =>
    have hroot : (context.plan.schema.planResource context context.rootNodes).result.atPath [] =
        .ok (planLevel (levelMembers context.plan.schema.attributes context.plan.schema.blocks)
          context [] context.rootNodes).result := by
      rw [Schema.planResource_eq]
      rfl
    exact atPath_planLevel hc.level hc.plan hc.ty hfields he hroot
  | @member path m nodes o fields e h ho hfields he ih =>
    have hinvariant := h.invariant hc
    obtain ⟨hmodified, hty⟩ := hinvariant.modified hc
    have hobject := (hmodified.objects hinvariant.path ho).2.plan
    rcases (hinvariant.wellFormed hc).leaf_or_collects with
      ⟨t, traits, rfl⟩ | ⟨mode, element, attributes, blocks, hm⟩
    · cases he
    refine atPath_planLevel (h.level hc hm) hobject
      (PlanNodes.ty_of_mem_objects hmodified.plan (hty.trans hm.ty) ho) hfields
      (hm.members ▸ he) ?_
    have hobjectPath : Path.AvoidsSets o.1 := havoids.of_append
    exact h.atPath_object hc hm ho hobjectPath
      (ih (PlanNodes.avoidsSets_of_mem_objects ho hobjectPath))

end PlannedAt

/-! ## Where the plan has values -/

/-- What a step other than a name leads to is collected in the value, a set element at the step by
its own value. -/
theorem PlanNodes.exists_mem_objects (path : Path) (hs : nodes.plan.step s = .ok x)
    (hname : s.kind ≠ .name) : ∃ s' t, s'.same s = true ∧
      (path ++ [s'], { nodes.descend s' t with plan := x }) ∈ nodes.objects path := by
  unfold objects
  generalize hplan : nodes.plan = plan at hs
  cases Value.step_eq_ok_iff_child.1 hs with
  | name _ => exact absurd rfl hname
  | @index t items i _ hi =>
    refine ⟨.index i, t, PathStep.same_refl _, ?_⟩
    exact List.mem_map.2 ⟨(x, i), List.mk_mem_zipIdx_iff_getElem?.2 hi, rfl⟩
  | @element t items y _ hx =>
    refine ⟨.element x, t, Value.same_of_step_element hs, ?_⟩
    exact List.mem_map.2 ⟨x, List.mem_of_find?_eq_some hx, rfl⟩
  | @key t entries key _ hl =>
    refine ⟨.key key, t, PathStep.same_refl _, ?_⟩
    exact List.mem_map.2 ⟨(key, x), Keyed.mem_of_lookup hl, rfl⟩

/-- How planning comes to a value of the plan, and the node there: it is the whole plan, or the
value of a member, or an element that is collected in one, or inside the value of a leaf. -/
inductive Placed (context : PlanContext) : Path → SchemaNode → Value → Prop
  | root : Placed context [] (.root context.plan.schema) context.plan.raw
  | member {path : Path} {m : Member} {nodes : PlanNodes} (h : PlannedAt context path m nodes) :
      Placed context path m.node nodes.plan
  | element {path : Path} {m : Member} {nodes : PlanNodes} {o : Path × PlanNodes}
      {mode : NestingMode} {element : SchemaNode} {attributes : List (String × Attribute)}
      {blocks : List (String × Block)} (h : PlannedAt context path m nodes)
      (hm : m.Collects mode element attributes blocks)
      (ho : o ∈ (nodes.modified context path m).objects path) :
      Placed context o.1 element o.2.plan
  | inside {path rest : Path} {t u : Ty} {traits : AttributeTraits} {nodes : PlanNodes}
      {s : PathStep} {x : Value} (h : PlannedAt context path (.attr (.leaf t traits)) nodes)
      (hx : nodes.plan.atPath (s :: rest) = .ok x) :
      Placed context (path ++ s :: rest) (.type u) x

namespace Placed

variable {node next : SchemaNode}

/-- From a collected object planning comes to its members. -/
theorem field {mode : NestingMode} {element : SchemaNode} {o : Path × PlanNodes}
    (h : PlannedAt context path m nodes) (hm : m.Collects mode element attributes blocks)
    (ho : o ∈ (nodes.modified context path m).objects path)
    (hnode : SchemaNode.member attributes blocks s = .ok next) (hs : o.2.plan.step s = .ok x) :
    Placed context (o.1 ++ [s]) next x := by
  obtain ⟨name, n, rfl, hl, rfl⟩ := SchemaNode.member_eq_ok_iff.1 hnode
  obtain ⟨fields, hfields⟩ := Value.exists_fields_of_step hs
  have he : (name, n) ∈ m.node.members := hm.members ▸ Keyed.mem_of_lookup hl
  have hplaced := Placed.member (PlannedAt.member h ho hfields he)
  have hplan : (o.2.descend (.name name) n.ty).plan = x := Value.descend_of_step hs
  rwa [hplan] at hplaced

/-- One step further, where modifiers leave what is stepped into. -/
theorem step (hc : context.Valid) (h : Placed context p node v)
    (hleft : ∀ m nodes, PlannedAt context p m nodes → nodes.plan.isUnknown = false →
      nodes.left context p m.behaviour.modifiers = nodes.plan)
    (hnode : node.step s = .ok next) (hs : v.step s = .ok x) :
    ∃ s', s'.same s = true ∧ Placed context (p ++ [s']) next x := by
  cases h with
  | root =>
    obtain ⟨name, m, rfl, hl, rfl⟩ := SchemaNode.member_eq_ok_iff.1 hnode
    obtain ⟨fields, hfields⟩ := Value.exists_fields_of_step hs
    have hplaced := Placed.member (PlannedAt.root hfields (Keyed.mem_of_lookup hl))
    rw [show (context.rootNodes.descend (.name name) m.ty).plan = x from
      Value.descend_of_step hs] at hplaced
    exact ⟨_, PathStep.same_refl _, hplaced⟩
  | @member p m nodes h =>
    have hmodified : nodes.modified context p m = nodes := by
      unfold PlanNodes.modified
      rw [hleft m nodes h (Value.isUnknown_of_step hs)]
    rcases ((h.invariant hc).wellFormed hc).leaf_or_collects with
      ⟨t, traits, rfl⟩ | ⟨mode, element, attributes, blocks, hm⟩
    · obtain ⟨u, -, rfl⟩ := Except.map_eq_ok.1 hnode
      exact ⟨s, PathStep.same_refl s, .inside h (Except.bind_eq_ok.2 ⟨x, hs, rfl⟩)⟩
    rw [hm.step] at hnode
    by_cases hname : s.kind = .name
    · have hsingle : SchemaNode.member attributes blocks s = .ok next := by
        cases s <;> cases hname
        cases mode <;> first | exact hnode | cases hnode
      refine ⟨s, PathStep.same_refl s, field (o := (p, nodes)) h hm ?_ hsingle hs⟩
      cases s <;> cases hname
      obtain ⟨fields, hfields⟩ := Value.exists_fields_of_step hs
      rw [hmodified, PlanNodes.objects, hfields]
      exact List.mem_singleton.2 rfl
    · obtain ⟨_, _, ⟨⟩⟩ := (SchemaNode.collected_eq_ok_iff hname).1 hnode
      obtain ⟨s', t, hsame, ho⟩ := PlanNodes.exists_mem_objects p hs hname
      exact ⟨s', hsame, .element h hm (hmodified.symm ▸ ho)⟩
  | @element p m nodes o mode element attributes blocks h hm ho =>
    exact ⟨s, PathStep.same_refl s, field h hm ho ((hm.step_element s).symm.trans hnode) hs⟩
  | @inside p rest t u traits nodes s' _ h hx =>
    obtain ⟨u', -, rfl⟩ := Except.map_eq_ok.1 hnode
    refine ⟨s, PathStep.same_refl s, ?_⟩
    rw [List.append_assoc]
    exact .inside h (Value.atPath_append_singleton_eq_ok (p := s' :: rest).2 ⟨v, hx, hs⟩)

end Placed

/-- Where the plan has something, the schema has a node. -/
theorem PlanContext.Valid.exists_nodeAt (hc : context.Valid)
    (h : context.plan.raw.atPath p = .ok x) :
    ∃ node, context.plan.schema.nodeAt p = .ok node := by
  have htype : context.plan.schema.typeAt p = .ok x.ty :=
    (Schema.typeAt_eq_ok_iff hc.schema).2 (hc.ty ▸ (Value.atPath_spec hc.plan h).1)
  obtain ⟨node, hnode, _⟩ := Except.bind_eq_ok.1 htype
  exact ⟨node, hnode⟩

/-- Planning comes to all that the plan has on a path without set elements, if the modifiers on the
way leave what is known. -/
theorem PlanContext.Valid.exists_placed (hc : context.Valid) (havoids : Path.AvoidsSets p)
    (hleft : ∀ path m nodes, PlannedAt context path m nodes → path <+: p →
      nodes.plan.isUnknown = false → nodes.left context path m.behaviour.modifiers = nodes.plan)
    (h : context.plan.raw.atPath p = .ok x) :
    ∃ node, context.plan.schema.nodeAt p = .ok node ∧ Placed context p node x := by
  induction p using List.reverseRecOn generalizing x with
  | nil =>
    cases h
    exact ⟨_, rfl, .root⟩
  | append_singleton p s ih =>
    obtain ⟨v, hv, hs⟩ := Value.atPath_append_singleton_eq_ok.1 h
    obtain ⟨hbefore, hlast⟩ := Path.avoidsSets_append.1 havoids
    obtain ⟨node, hnode, hplaced⟩ := ih hbefore
      (fun path m nodes hplanned hbelow =>
        hleft path m nodes hplanned (hbelow.trans (List.prefix_append p [s]))) hv
    obtain ⟨next, hnext⟩ := hc.exists_nodeAt h
    obtain ⟨_, hmid, hstep⟩ := Schema.nodeAt_concat.1 hnext
    obtain rfl := Except.ok.inj (hnode.symm.trans hmid)
    obtain ⟨s', hsame, hplaced⟩ := hplaced.step hc
      (fun m nodes hplanned => hleft p m nodes hplanned (List.prefix_append p [s])) hstep hs
    -- Only for set elements there are other steps that are equal.
    rcases PathStep.same_cases hsame with rfl | ⟨_, _, _, rfl, _⟩
    · exact ⟨_, hnext, hplaced⟩
    · exact absurd rfl (hlast _ List.mem_cons_self)

/-- Planning comes to all that the plan has, up to the choice among equal set elements, if all
modifiers leave what is known. -/
theorem PlanContext.Valid.exists_placed_same (hc : context.Valid)
    (hleft : ∀ path m nodes, PlannedAt context path m nodes → nodes.plan.isUnknown = false →
      nodes.left context path m.behaviour.modifiers = nodes.plan)
    (h : context.plan.raw.atPath p = .ok x) :
    ∃ node p' x', context.plan.schema.nodeAt p = .ok node ∧ Path.same p' p = true ∧
      x'.same x = true ∧ Placed context p' node x' := by
  induction p using List.reverseRecOn generalizing x with
  | nil =>
    cases h
    exact ⟨_, [], _, rfl, rfl, Value.same_refl _, .root⟩
  | append_singleton p s ih =>
    obtain ⟨v, hv, hs⟩ := Value.atPath_append_singleton_eq_ok.1 h
    obtain ⟨node, p', v', hnode, hp, hsame, hplaced⟩ := ih hv
    obtain ⟨next, hnext⟩ := hc.exists_nodeAt h
    obtain ⟨_, hmid, hstep⟩ := Schema.nodeAt_concat.1 hnext
    obtain rfl := Except.ok.inj (hnode.symm.trans hmid)
    obtain ⟨y, hy, hxy⟩ := Value.step_congr (Value.same_symm hsame) (PathStep.same_refl s) hs
    obtain ⟨s', hs', hplaced⟩ := hplaced.step hc (hleft p') hstep hy
    have hlast : Path.same [s'] [s] = true := Path.same_cons.2 ⟨hs', rfl⟩
    exact ⟨next, p' ++ [s'], y, hnext, Path.same_append hp hlast, Value.same_symm hxy, hplaced⟩

namespace Placed

variable {node : SchemaNode}

/-- Where the node is a member, planning comes to it with the value there. -/
theorem plannedAt (h : Placed context p node x) (hnode : node = m.node) :
    ∃ nodes, PlannedAt context p m nodes ∧ nodes.plan = x := by
  cases h with
  | root => cases m <;> cases hnode
  | @member _ n nodes h =>
    obtain rfl : n = m := by cases n <;> cases m <;> cases hnode <;> rfl
    exact ⟨nodes, h, rfl⟩
  | element h hm ho => exact absurd hnode (hm.element_ne_node m)
  | inside h hx => cases m <;> cases hnode

/-- A planned resource has what the plan has where planning finds nothing to do at the node. -/
theorem atPath_planResource (hc : context.Valid) (h : Placed context p node x)
    (havoids : Path.AvoidsSets p)
    (hleft : ∀ path m nodes, PlannedAt context path m nodes → path <+: p →
      nodes.plan.isUnknown = false → nodes.left context path m.behaviour.modifiers = nodes.plan)
    (hlevel : ∀ attributes blocks path nodes, context.Level node attributes blocks →
      nodes.plan = x → x.ty = Block.objectTyOf attributes blocks →
        planLevel (levelMembers attributes blocks) context path nodes = pure x)
    (hmember : ∀ m nodes, node = m.node → PlannedAt context p m nodes → nodes.plan = x →
      m.plan context p nodes = pure x) :
    (context.plan.schema.planResource context context.rootNodes).result.atPath p = .ok x := by
  cases h with
  | root =>
    rw [Schema.planResource_eq, hlevel _ _ [] _ hc.level rfl hc.ty]
    rfl
  | @member p m nodes h =>
    rw [h.atPath_planResource hc havoids, hmember m nodes rfl h rfl]
    rfl
  | @element path m nodes o mode element attributes blocks h hm ho =>
    have hat := h.atPath_planResource hc (PlanNodes.avoidsSets_of_mem_objects ho havoids)
    obtain ⟨hmodified, hty⟩ := (h.invariant hc).modified hc
    have hobject := PlanNodes.ty_of_mem_objects hmodified.plan (hty.trans hm.ty) ho
    rw [h.atPath_object hc hm ho havoids hat, hlevel _ _ _ _ (h.level hc hm) rfl hobject]
    rfl
  | @inside path rest t u traits nodes s x h hx =>
    obtain ⟨_, hs, _⟩ := Except.bind_eq_ok.1 hx
    have hkept := hleft path _ nodes h (List.prefix_append _ _) (Value.isUnknown_of_step hs)
    rw [Value.atPath_append, h.atPath_planResource hc havoids.of_append, Member.plan_leaf]
    exact (congrArg (Value.atPath · (s :: rest)) hkept).trans hx

end Placed

end ResourceSchema
