import ResourceSchema.Proofs.Planning.Basic
import ResourceSchema.Proofs.Schema.Member
import ResourceSchema.Proofs.Value.Place

/-!
# Planning the members of a level

Attributes and blocks are planned alike: a node runs its modifiers, and then the members of each
object collected in the value are planned in order, the attributes first.
-/

namespace ResourceSchema

variable {context : PlanContext} {path : Path} {nodes : PlanNodes} {t : Ty}
  {attributes : List (String × Attribute)} {blocks : List (String × Block)}

namespace Member

def plan (context : PlanContext) (path : Path) (nodes : PlanNodes) : Member → Planned Value
  | .attr a => a.plan context path nodes
  | .block b => b.plan context path nodes

end Member

/-- Plans members in turn, each put into the fields before the next is planned. -/
def planEach {M : Type} (planOne : String × M → Planned Value) :
    List (String × M) → List (String × Value) → Planned (List (String × Value))
  | [], fields => pure fields
  | m :: rest, fields => do planEach planOne rest (Keyed.assign m.1 (← planOne m) fields)

theorem eq_planEach_of_cons {M : Type} {planOne : String × M → Planned Value}
    {f : List (String × M) → List (String × Value) → Planned (List (String × Value))}
    (hnil : ∀ fields, f [] fields = pure fields)
    (hcons : ∀ m rest fields, f (m :: rest) fields = do
      f rest (Keyed.assign m.1 (← planOne m) fields))
    (members : List (String × M)) (fields : List (String × Value)) :
    f members fields = planEach planOne members fields := by
  induction members generalizing fields with
  | nil => exact hnil fields
  | cons m rest ih => rw [hcons, planEach]; simp only [ih]

theorem Attribute.planMembers_eq (members : List (String × Attribute))
    (fields : List (String × Value)) :
    planMembers context path nodes members fields = planEach (fun m =>
      plan context (path ++ [.name m.1]) (nodes.descend (.name m.1) m.2.ty) m.2)
        members fields :=
  eq_planEach_of_cons (fun _ => rfl) (fun _ _ _ => rfl) members fields

theorem Block.planMembers_eq (members : List (String × Block))
    (fields : List (String × Value)) :
    planMembers context path nodes members fields = planEach (fun m =>
      plan context (path ++ [.name m.1]) (nodes.descend (.name m.1) m.2.ty) m.2)
        members fields :=
  eq_planEach_of_cons (fun _ => rfl) (fun _ _ _ => rfl) members fields

/-- Plans the members of one object. -/
def planLevel (members : List (String × Member)) (context : PlanContext) (path : Path)
    (nodes : PlanNodes) : Planned Value :=
  planObject (planEach (fun e => e.2.plan context (path ++ [.name e.1])
    (nodes.descend (.name e.1) e.2.ty)) members) path nodes.plan

theorem planEach_append {M : Type} (planOne : String × M → Planned Value)
    (before after : List (String × M)) (fields : List (String × Value)) :
    planEach planOne (before ++ after) fields =
      planEach planOne before fields >>= planEach planOne after := by
  induction before generalizing fields with
  | nil => rw [List.nil_append, planEach, pure_bind]
  | cons e rest ih => simp only [List.cons_append, planEach, ih, bind_assoc]

@[simp] theorem planEach_map {M N : Type} (f : M → N) (planOne : String × N → Planned Value)
    (members : List (String × M)) :
    planEach planOne (members.map fun e => (e.1, f e.2)) =
      planEach (fun e => planOne (e.1, f e.2)) members := by
  funext fields
  induction members generalizing fields with
  | nil => rfl
  | cons e rest ih => simp only [List.map_cons, planEach, ih]

theorem planEach_congr {M : Type} {planOne planOther : String × M → Planned Value}
    {members : List (String × M)} {fields : List (String × Value)}
    (h : ∀ e ∈ members, planOne e = planOther e) :
    planEach planOne members fields = planEach planOther members fields := by
  induction members generalizing fields with
  | nil => rfl
  | cons e rest ih =>
    obtain ⟨he, hrest⟩ := List.forall_mem_cons.1 h
    rw [planEach, planEach, he]
    exact Planned.bind_congr_result (ih hrest)

/-- What planning an object depends on is how its members are planned. -/
theorem planLevel_congr {other : PlanContext} {members : List (String × Member)}
    (h : ∀ fields, nodes.plan = .object fields → ∀ e ∈ members,
      e.2.plan other (path ++ [.name e.1]) (nodes.descend (.name e.1) e.2.ty) =
        e.2.plan context (path ++ [.name e.1]) (nodes.descend (.name e.1) e.2.ty)) :
    planLevel members other path nodes = planLevel members context path nodes := by
  unfold planLevel planObject
  split
  · next fields hobject => rw [planEach_congr (h fields hobject)]
  · rfl

/-- The attributes and then the blocks of an object are the members of its level. -/
theorem planObject_eq_planLevel (context : PlanContext) (path : Path) (nodes : PlanNodes) :
    planObject (fun fields => do
      Block.planMembers context path nodes blocks
        (← Attribute.planMembers context path nodes attributes fields)) path nodes.plan =
      planLevel (levelMembers attributes blocks) context path nodes := by
  unfold planLevel levelMembers
  congr 1
  funext fields
  simp only [planEach_append, planEach_map, Attribute.planMembers_eq, Block.planMembers_eq]
  rfl

@[simp] theorem Member.plan_leaf (traits : AttributeTraits) :
    plan context path nodes (.attr (.leaf t traits)) =
      runModifiers context path nodes nodes.plan traits.behaviour.modifiers := by
  rw [plan, Attribute.plan]

/-- A group or a block runs its modifiers and then plans the objects that it collects. -/
theorem Member.Collects.plan {m : Member} {mode : NestingMode} {element : SchemaNode}
    (h : m.Collects mode element attributes blocks) : m.plan context path nodes = (do
      let planned ← runModifiers context path nodes nodes.plan m.behaviour.modifiers
      planCollected (planLevel (levelMembers attributes blocks) context) path
        { nodes with plan := planned }) := by
  cases h with
  | @group mode attributes traits _ =>
    have hlevel : (fun path nodes =>
        planObject (Attribute.planMembers context path nodes attributes) path nodes.plan) =
          planLevel (levelMembers attributes []) context := by
      funext path nodes
      rw [← planObject_eq_planLevel]
      simp only [Block.planMembers, bind_pure]
    rw [Member.plan, Attribute.plan, hlevel]
    rfl
  | @block b _ =>
    obtain ⟨nesting, attributes, blocks, traits⟩ := b
    rw [Member.plan, Block.plan]
    simp only [planObject_eq_planLevel]
    rfl

theorem Schema.planResource_eq (s : Schema) : s.planResource context nodes =
    planLevel (levelMembers s.attributes s.blocks) context [] nodes :=
  planObject_eq_planLevel context [] nodes

/-! ## The objects collected in a planned value -/

/-- The objects collected in the planned value, with the values at their positions. -/
def PlanNodes.objects (path : Path) (nodes : PlanNodes) : List (Path × PlanNodes) :=
  match nodes.plan with
  | .object _ => [(path, nodes)]
  | .list t items => items.zipIdx.map fun (v, i) =>
    (path ++ [.index i], { nodes.descend (.index i) t with plan := v })
  | .set t items => items.map fun v =>
    (path ++ [.element v], { nodes.descend (.element v) t with plan := v })
  | .map t entries => entries.map fun (k, v) =>
    (path ++ [.key k], { nodes.descend (.key k) t with plan := v })
  | _ => []

/-- An object that is collected in a value is the value itself or one step below it. -/
theorem PlanNodes.objects_cases {o : Path × PlanNodes} (ho : o ∈ nodes.objects path) :
    o = (path, nodes) ∨ ∃ s t, nodes.plan.ty.step s = .ok t ∧ o.1 = path ++ [s] ∧
      o.2.config = (nodes.descend s t).config ∧ o.2.state = (nodes.descend s t).state := by
  unfold PlanNodes.objects at ho
  split at ho
  · exact .inl (List.mem_singleton.1 ho)
  · next t items heq =>
    obtain ⟨⟨v, i⟩, _, rfl⟩ := List.mem_map.1 ho
    refine .inr ⟨.index i, t, ?_, rfl, rfl, rfl⟩
    rw [heq]
    exact Ty.step_eq_ok_iff.2 (.index (Int.natCast_nonneg i))
  · next t items heq =>
    obtain ⟨v, _, rfl⟩ := List.mem_map.1 ho
    exact .inr ⟨.element v, t, by rw [heq]; rfl, rfl, rfl, rfl⟩
  · next t entries heq =>
    obtain ⟨e, _, rfl⟩ := List.mem_map.1 ho
    exact .inr ⟨.key e.1, t, by rw [heq]; rfl, rfl, rfl, rfl⟩
  · cases ho

/-- An object that is collected in a well-formed value is the value itself or in a slot of it. -/
theorem PlanNodes.slot_cases (hv : nodes.plan.WellFormed) {o : Path × PlanNodes}
    (ho : o ∈ nodes.objects path) : o = (path, nodes) ∨ ∃ s v t, nodes.plan.inSlot? s = some v ∧
      nodes.plan.ty.step (s.step v) = .ok t ∧
      o = (path ++ [s.step v], { nodes.descend (s.step v) t with plan := v }) := by
  unfold PlanNodes.objects at ho
  split at ho
  · exact .inl (List.mem_singleton.1 ho)
  · next t items heq =>
    obtain ⟨⟨v, i⟩, hmem, rfl⟩ := List.mem_map.1 ho
    refine .inr ⟨.item i, v, t, ?_, ?_, rfl⟩
    · rw [heq]
      exact List.mk_mem_zipIdx_iff_getElem?.1 hmem
    · rw [heq]
      exact Ty.step_eq_ok_iff.2 (.index (Int.natCast_nonneg i))
  · next t items heq =>
    obtain ⟨v, hmem, rfl⟩ := List.mem_map.1 ho
    obtain ⟨i, hitem⟩ := List.getElem?_of_mem hmem
    refine .inr ⟨.element i, v, t, ?_, by rw [heq]; rfl, rfl⟩
    rw [heq]
    exact hitem
  · next t entries heq =>
    rw [heq] at hv
    obtain ⟨e, hmem, rfl⟩ := List.mem_map.1 ho
    refine .inr ⟨.entry e.1, e.2, t, ?_, by rw [heq]; rfl, rfl⟩
    rw [heq]
    exact Keyed.lookup_of_mem (Value.wellFormed_map_iff.1 hv).2.1.nodup hmem
  · cases ho

/-- Only the objects that are collected in a value matter to how it is planned. -/
theorem planCollected_congr {planOne planOther : Path → PlanNodes → Planned Value}
    (h : ∀ o ∈ nodes.objects path, planOne o.1 o.2 = planOther o.1 o.2) :
    planCollected planOne path nodes = planCollected planOther path nodes := by
  obtain ⟨config, state, plan⟩ := nodes
  cases plan with
  | object fields => exact h _ (List.mem_singleton.2 rfl)
  | list t items =>
    unfold planCollected
    dsimp only
    split
    · rfl
    · exact congrArg (· >>= _) (Planned.mapM_congr fun e he => h _ (List.mem_map_of_mem he))
  | set t items =>
    unfold planCollected
    dsimp only
    split
    · rfl
    · exact congrArg (· >>= _) (Planned.mapM_congr fun x hx => h _ (List.mem_map_of_mem hx))
  | map t entries =>
    unfold planCollected
    dsimp only
    split
    · rfl
    · exact congrArg (· >>= _) (Planned.mapM_congr fun e he =>
        congrArg (· >>= _) (h _ (List.mem_map_of_mem he)))
  | _ => rfl

/-- The objects collected in a value are of the type that its own type collects. -/
theorem PlanNodes.ty_of_mem_objects {mode : NestingMode} {attributes : List (String × Ty)}
    (hv : nodes.plan.WellFormed) (hty : nodes.plan.ty = mode.wrap (.object attributes))
    {o : Path × PlanNodes} (ho : o ∈ nodes.objects path) : o.2.plan.ty = .object attributes := by
  unfold PlanNodes.objects at ho
  split at ho
  · next fields heq =>
    rw [List.mem_singleton.1 ho]
    rw [heq] at hty ⊢
    cases mode <;> first | exact hty | cases hty
  · next t items heq =>
    rw [heq] at hv hty
    obtain ⟨⟨v, i⟩, hmem, rfl⟩ := List.mem_map.1 ho
    cases mode <;> cases hty
    exact ((Value.wellFormed_list_iff.1 hv).2 v (List.fst_mem_of_mem_zipIdx hmem)).1
  · next t items heq =>
    rw [heq] at hv hty
    obtain ⟨v, hmem, rfl⟩ := List.mem_map.1 ho
    cases mode <;> cases hty
    exact ((Value.wellFormed_set_iff.1 hv).2.1 v hmem).1
  · next t entries heq =>
    rw [heq] at hv hty
    obtain ⟨e, hmem, rfl⟩ := List.mem_map.1 ho
    cases mode <;> cases hty
    exact ((Value.wellFormed_map_iff.1 hv).2.2 e hmem).1
  · cases ho

/-- From a member that collects objects, the name of a member of these leads on from each. -/
theorem Member.Collects.nodeAt {schema : Schema} {m : Member} {mode : NestingMode}
    {element : SchemaNode} {e : String × Member} {o : Path × PlanNodes}
    (h : m.Collects mode element attributes blocks) (hpath : schema.nodeAt path = .ok m.node)
    (hty : nodes.plan.ty = m.ty) (ho : o ∈ nodes.objects path)
    (he : e ∈ levelMembers attributes blocks) :
    schema.nodeAt (o.1 ++ [.name e.1]) = .ok e.2.node := by
  have hmember : SchemaNode.member attributes blocks (.name e.1) = .ok e.2.node :=
    SchemaNode.member_name h.names he
  have happend : ∀ {p q next}, schema.nodeAt p = .ok m.node →
      SchemaNode.resolveFrom [] m.node q = .ok next → schema.nodeAt (p ++ q) = .ok next :=
    fun hp hq => SchemaNode.resolveFrom_append_eq_ok.2 ⟨_, hp, hq⟩
  have hcollected : ∀ {s}, m.node.step s = .ok element →
      schema.nodeAt ((path ++ [s]) ++ [.name e.1]) = .ok e.2.node := by
    intro s hs
    rw [List.append_assoc]
    refine happend hpath (SchemaNode.resolveFrom_cons_eq_ok.2 ⟨element, hs, ?_⟩)
    exact SchemaNode.resolveFrom_cons_eq_ok.2 ⟨_, (h.step_element _).trans hmember, rfl⟩
  rw [h.ty] at hty
  unfold PlanNodes.objects at ho
  split at ho
  · next fields heq =>
    rw [List.mem_singleton.1 ho]
    rw [heq] at hty
    cases mode <;> try cases hty
    exact happend hpath
      (SchemaNode.resolveFrom_cons_eq_ok.2 ⟨_, (h.step _).trans hmember, rfl⟩)
  · next t items heq =>
    rw [heq] at hty
    cases mode <;> cases hty
    obtain ⟨⟨v, i⟩, _, rfl⟩ := List.mem_map.1 ho
    refine hcollected ((h.step _).trans ?_)
    rw [SchemaNode.collected, if_neg (Int.not_lt.2 (Int.natCast_nonneg i))]
  · next t items heq =>
    rw [heq] at hty
    cases mode <;> cases hty
    obtain ⟨v, _, rfl⟩ := List.mem_map.1 ho
    exact hcollected (h.step _)
  · next t entries heq =>
    rw [heq] at hty
    cases mode <;> cases hty
    obtain ⟨v, _, rfl⟩ := List.mem_map.1 ho
    exact hcollected (h.step _)
  · cases ho

end ResourceSchema
