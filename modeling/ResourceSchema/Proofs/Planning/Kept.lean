import ResourceSchema.Proofs.Planning.WellFormed
import ResourceSchema.Proofs.Value.Place

/-!
# Planning keeps known primitives

The modifiers that are not custom leave a known value as it is, but for a default where planning
finds a null in the configuration. If it finds none on the way to a known primitive of the plan
(`Guarded`), the primitive stays where it is: a collection is made of its elements in their order,
an object keeps its fields, and the plan takes the place of what cannot be put together again
(`Schema.keeps`).
-/

namespace ResourceSchema

variable {context : PlanContext} {path : Path} {nodes : PlanNodes} {c p v w x : Value} {t : Ty}
  {s : Slot} {q : List Slot} {attributes : List (String × Attribute)}
  {blocks : List (String × Block)}

/-! ## Modifiers -/

theorem PlanModifier.planValue_respond {custom : CustomModifiers} {m : PlanModifier}
    {r : PlanRequest}
    (hm : ∀ name description, m ≠ .custom name description)
    (hd : ∀ w, m = .default w → r.configValue.isNull = false)
    (hk : r.planValue.isUnknown = false) :
    (m.respond custom r).planValue = r.planValue := by
  cases m with
  | requiresReplace => rfl
  | useStateForUnknown => simp [respond, hk, PlanResponse.keep]
  | default w => simp [respond, hd w rfl, PlanResponse.keep]
  | custom name description => exact absurd rfl (hm name description)

theorem result_absorb {current : Value} {response : PlanResponse}
    (h : response.planValue = current) : (absorb path current response).result = current := by
  unfold absorb
  rw [Planned.result_bind, h, if_pos rfl]
  rfl

/-- Modifiers that all answer with the value that they are asked about leave it. -/
theorem result_runModifiers_of_answers {current : Value} {ms : List PlanModifier}
    (h : ∀ m ∈ ms, (context.answer m ⟨path, nodes.config, nodes.state, current, context.config,
      context.state, context.plan⟩).planValue = current) :
    (runModifiers context path nodes current ms).result = current := by
  induction ms with
  | nil => rfl
  | cons m rest ih =>
    obtain ⟨hfirst, hrest⟩ := List.forall_mem_cons.1 h
    rw [runModifiers, Planned.result_bind, result_absorb hfirst]
    exact ih hrest

/-- A known value stays as it is if no default looks at a null of the configuration. -/
theorem result_runModifiers {current : Value} {ms : List PlanModifier}
    (hcontext : context.Standard)
    (hm : ∀ name description, .custom name description ∉ ms)
    (hd : ∀ w, .default w ∈ ms → nodes.config.isNull = false)
    (hk : current.isUnknown = false) :
    (runModifiers context path nodes current ms).result = current := by
  obtain ⟨custom, hanswer⟩ := hcontext
  refine result_runModifiers_of_answers fun m hmem => ?_
  rw [hanswer]
  exact PlanModifier.planValue_respond (fun name description h => hm name description (h ▸ hmem))
    (fun w h => hd w (h ▸ hmem)) hk

/-- The members, by the names that lead to them, that have a default. -/
inductive Attribute.HasDefault : Attribute → List String → Prop
  | own {a : Attribute} {w : Value} (h : .default w ∈ a.traits.behaviour.modifiers) :
      HasDefault a []
  | member {mode : NestingMode} {members : List (String × Attribute)} {traits : AttributeTraits}
      {e : String × Attribute} {names : List String} (he : e ∈ members)
      (h : HasDefault e.2 names) : HasDefault (.group mode members traits) (e.1 :: names)

inductive Block.HasDefault : Block → List String → Prop
  | own {b : Block} {w : Value} (h : .default w ∈ b.traits.behaviour.modifiers) : HasDefault b []
  | attr {b : Block} {e : String × Attribute} {names : List String} (he : e ∈ b.attributes)
      (h : e.2.HasDefault names) : HasDefault b (e.1 :: names)
  | block {b : Block} {e : String × Block} {names : List String} (he : e ∈ b.blocks)
      (h : HasDefault e.2 names) : HasDefault b (e.1 :: names)

inductive Schema.HasDefault (s : Schema) : List String → Prop
  | attr {e : String × Attribute} {names : List String} (he : e ∈ s.attributes)
      (h : e.2.HasDefault names) : HasDefault s (e.1 :: names)
  | block {e : String × Block} {names : List String} (he : e ∈ s.blocks)
      (h : e.2.HasDefault names) : HasDefault s (e.1 :: names)

def Member.HasDefault : Member → List String → Prop
  | .attr a => a.HasDefault
  | .block b => b.HasDefault

theorem Member.hasDefault_own {m : Member} {w : Value} (h : .default w ∈ m.behaviour.modifiers) :
    m.HasDefault [] := by
  cases m with
  | attr a => exact Attribute.HasDefault.own h
  | block b => exact Block.HasDefault.own h

theorem Member.Collects.hasDefault {m : Member} {mode : NestingMode} {element : SchemaNode}
    (hm : m.Collects mode element attributes blocks) :
    ∀ e ∈ levelMembers attributes blocks, ∀ names,
      e.2.HasDefault names → m.HasDefault (e.1 :: names) := by
  refine forall_levelMembers (P := fun e => ∀ names, e.2.HasDefault names →
    m.HasDefault (e.1 :: names)) ?_ ?_
  · cases hm with
    | group _ => exact fun e he names h => Attribute.HasDefault.member he h
    | block _ => exact fun e he names h => Block.HasDefault.attr he h
  · cases hm with
    | group _ => exact fun e he => by cases he
    | block _ => exact fun e he names h => Block.HasDefault.block he h

theorem Schema.hasDefault {s : Schema} : ∀ e ∈ levelMembers s.attributes s.blocks, ∀ names,
    e.2.HasDefault names → s.HasDefault (e.1 :: names) :=
  forall_levelMembers (P := fun e => ∀ names, e.2.HasDefault names → s.HasDefault (e.1 :: names))
    (fun _ he _ h => .attr he h) fun _ he _ h => .block he h

/-! ## Lookups along a place -/

theorem Value.descend_of_step {s : PathStep} (h : v.step s = .ok w) : v.descend s t = w := by
  have hpath : v.atPath [s] = .ok w := Except.bind_eq_ok.2 ⟨w, h, rfl⟩
  rw [descend, lookup_of_atPath hpath]

/-- Where a member on a place has a default, the lookups of planning find something in the
configuration. -/
def Guarded (D : List String → Prop) (c p : Value) : List Slot → Prop
  | [] => True
  | s :: rest => ∀ t v, p.inSlot? s = some v →
      (∀ name, s = .field name → D [name] → (c.descend (.name name) t).isNull = false) ∧
      Guarded (fun names => D (Slot.names [s] ++ names)) (c.descend (s.step v) t) v rest

theorem Guarded.mono {D E : List String → Prop} (h : ∀ names, E names → D names)
    (hg : Guarded D c p q) : Guarded E c p q := by
  induction q generalizing D E c p with
  | nil => trivial
  | cons s q ih =>
    intro t v hv
    obtain ⟨hfield, hrest⟩ := hg t v hv
    exact ⟨fun name hs hd => hfield name hs (h _ hd), ih (fun names => h _) hrest⟩

/-- A known primitive at a place of the plan that no default replaces. -/
structure Kept (D : List String → Prop) (nodes : PlanNodes) (q : List Slot) (x : Value) :
    Prop where
  plan : nodes.plan.WellFormed
  isKnownPrimitive : x.IsKnownPrimitive
  atPlace? : nodes.plan.atPlace? q = some x
  guarded : Guarded D nodes.config nodes.plan q

namespace Kept

variable {D E : List String → Prop}

theorem mono (hk : Kept D nodes q x) (h : ∀ names, E names → D names) : Kept E nodes q x :=
  { hk with guarded := hk.guarded.mono h }

theorem result_runModifiers {ms : List PlanModifier} (hk : Kept D nodes q x)
    (hcontext : context.Standard)
    (hm : ∀ name description, .custom name description ∉ ms)
    (hd : ∀ w, .default w ∈ ms → nodes.config.isNull = false) :
    (runModifiers context path nodes nodes.plan ms).result = nodes.plan :=
  ResourceSchema.result_runModifiers hcontext hm hd
    (Value.isUnknown_of_isKnown (Value.isKnown_of_atPlace? hk.isKnownPrimitive hk.atPlace?))

theorem child (hk : Kept D nodes (s :: q) x) (hv : nodes.plan.inSlot? s = some v) :
    Kept (fun names => D (Slot.names [s] ++ names))
      { nodes.descend (s.step v) t with plan := v } q x := by
  obtain ⟨w, hw, hq⟩ := Value.atPlace?_cons_eq_some.1 hk.atPlace?
  obtain rfl : v = w := Option.some.inj (hv.symm.trans hw)
  exact ⟨hk.plan.inSlot? hv, hk.isKnownPrimitive, hq, (hk.guarded t v hv).2⟩

theorem member {name : String} (hk : Kept D nodes (.field name :: q) x)
    (h : ∀ names, E names → D (name :: names)) :
    (E [] → (nodes.config.descend (.name name) t).isNull = false) ∧
      Kept E (nodes.descend (.name name) t) q x := by
  obtain ⟨v, hv, _⟩ := Value.atPlace?_cons_eq_some.1 hk.atPlace?
  refine ⟨fun hd => (hk.guarded t v hv).1 name rfl (h [] hd), ?_⟩
  have hplan : nodes.plan.descend (.name name) t = v :=
    Value.descend_of_step (Value.step_of_inSlot?_field hv)
  have hchild := hk.child (t := t) hv
  have hnodes : ({ nodes.descend (.name name) t with plan := v } : PlanNodes) =
      nodes.descend (.name name) t := by rw [← hplan]; rfl
  rw [← hnodes]
  exact hchild.mono h

end Kept

/-! ## Objects and collections -/

/-- A field has the value `x` at a place in it, and no other field has its name. -/
def FieldHas (name : String) (q : List Slot) (x : Value) (fields : List (String × Value)) : Prop :=
  (Keyed.keys fields).Nodup ∧ ∃ v, fields.lookup name = some v ∧ v.atPlace? q = some x

theorem FieldHas.planEach {M : Type} {planOne : String × M → Planned Value}
    {members : List (String × M)} {fields : List (String × Value)} {name : String}
    (hone : ∀ m ∈ members, m.1 = name → (planOne m).result.atPlace? q = some x)
    (h : FieldHas name q x fields) :
    FieldHas name q x (planEach planOne members fields).result := by
  induction members generalizing fields with
  | nil => exact h
  | cons m rest ih =>
    obtain ⟨hm, hrest⟩ := List.forall_mem_cons.1 hone
    refine ih hrest ⟨Keyed.nodup_assign h.1, ?_⟩
    by_cases hname : m.1 = name
    · subst hname
      exact ⟨_, Keyed.lookup_assign_self _ _ _, hm rfl⟩
    · rw [Keyed.lookup_assign_of_ne (Ne.symm hname)]
      exact h.2

/-- Putting a value together again keeps what both the old and the new one have. -/
theorem atPlace?_rebuilt {result : Except ValueError Value} (hv : v.atPlace? q = some x)
    (hr : ∀ w, result = .ok w → w.atPlace? q = some x) :
    (rebuilt path v result).result.atPlace? q = some x := by
  cases result with
  | ok w => exact hr w rfl
  | error e => exact hv

/-- An object stays with its other fields planned. -/
theorem Kept.planObject {D : List String → Prop}
    {planFields : List (String × Value) → Planned (List (String × Value))}
    (hk : Kept D nodes q x) (hf : ∀ fields name rest, q = .field name :: rest →
      FieldHas name rest x fields → FieldHas name rest x (planFields fields).result) :
    (planObject planFields path nodes.plan).result.atPlace? q = some x := by
  have hq := hk.atPlace?
  unfold ResourceSchema.planObject
  split
  · next fields heq =>
    rw [heq] at hq
    rw [Planned.result_bind, heq]
    cases q with
    | nil =>
      cases hq
      cases hk.isKnownPrimitive.2
    | cons s rest =>
      obtain ⟨v, hv, hq'⟩ := Value.atPlace?_cons_eq_some.1 hq
      cases s <;> try cases hv
      case field name =>
      have hwf := hk.plan
      rw [heq, Value.wellFormed_object_iff] at hwf
      obtain ⟨hd, w, hw, hplanned⟩ := hf fields name rest rfl ⟨hwf.1.nodup, v, hv, hq'⟩
      refine atPlace?_rebuilt hq fun made hmade => ?_
      obtain ⟨filled, rfl, hfilled⟩ := Value.lookup_objectOfType hd hw hmade
      exact Value.atPlace?_cons_eq_some.2 ⟨w, hfilled, hplanned⟩
  · exact hq

theorem result_planCollected_of_isPrimitive {planOne : Path → PlanNodes → Planned Value}
    (h : nodes.plan.ty.isPrimitive = true) :
    (planCollected planOne path nodes).result = nodes.plan := by
  unfold planCollected
  split
  · next heq => rw [heq] at h; cases h
  · next heq => rw [heq] at h; cases h
  · next heq => rw [heq] at h; cases h
  · next heq => rw [heq] at h; cases h
  · rfl

/-- A collection stays with its other elements planned, each in its place. -/
theorem Kept.planCollected {D : List String → Prop}
    {planOne : Path → PlanNodes → Planned Value} (hk : Kept D nodes q x)
    (hone : ∀ path nodes q, Kept D nodes q x →
      (planOne path nodes).result.atPlace? q = some x) :
    (planCollected planOne path nodes).result.atPlace? q = some x := by
  have hq := hk.atPlace?
  cases q with
  | nil =>
    obtain rfl : nodes.plan = x := Option.some.inj hq
    rw [result_planCollected_of_isPrimitive hk.isKnownPrimitive.2]
    rfl
  | cons s rest =>
    obtain ⟨v, hv, _⟩ := Value.atPlace?_cons_eq_some.1 hq
    have hslot := hv
    have hwf := hk.plan
    -- Where collecting the planned elements fails the plan stays as it was, with the primitive.
    unfold ResourceSchema.planCollected
    split
    · exact hone path nodes _ hk
    · next t items heq =>
      rw [heq] at hslot
      split
      · exact hq
      cases s <;> try cases hslot
      case item i =>
      have hi : items[i]? = some v := hslot
      have hchild := hone (path ++ [.index i]) _ rest (hk.child (t := t) hv)
      refine atPlace?_rebuilt hq fun w hw => ?_
      obtain ⟨_, rfl⟩ := Value.listOf_eq_ok.1 hw
      refine Value.atPlace?_cons_eq_some.2 ⟨_, ?_, hchild⟩
      rw [Value.inSlot?, Planned.result_mapM, List.getElem?_map, List.getElem?_zipIdx, hi,
        Nat.zero_add]
      rfl
    · next t items heq =>
      rw [heq] at hslot
      split
      · exact hq
      cases s <;> try cases hslot
      case element i =>
      have hi : items[i]? = some v := hslot
      have hchild := hone (path ++ [.element v]) _ rest (hk.child (t := t) hv)
      refine atPlace?_rebuilt hq fun w hw => ?_
      obtain ⟨_, _, rfl⟩ := Value.setOf_eq_ok.1 hw
      refine Value.atPlace?_cons_eq_some.2 ⟨_, ?_, hchild⟩
      rw [Value.inSlot?, Planned.result_mapM, List.getElem?_map, hi]
      rfl
    · next t entries heq =>
      rw [heq] at hslot hwf
      split
      · exact hq
      cases s <;> try cases hslot
      case entry key =>
      have hl : entries.lookup key = some v := hslot
      have hchild := hone (path ++ [.key key]) _ rest (hk.child (t := t) hv)
      have hd := (Value.wellFormed_map_iff.1 hwf).2.1.nodup
      refine atPlace?_rebuilt hq fun w hw => ?_
      obtain ⟨_, rfl⟩ := Value.mapOf_eq_ok.1 hw
      refine Value.atPlace?_cons_eq_some.2 ⟨_, ?_, hchild⟩
      rw [Value.inSlot?, Planned.result_mapM, Keyed.lookup_sorted]
      · refine (Keyed.lookup_mapWithKey (fun k v => (planOne (path ++ [.key k])
          { nodes.descend (.key k) t with plan := v }).result) entries key).trans ?_
        rw [hl]
        rfl
      · rw [Keyed.keys, List.map_map]
        exact hd
    · exact hq

/-! ## Members and whole resources -/

theorem Kept.planLevel {D : List String → Prop} {members : List (String × Member)}
    (hk : Kept D nodes q x) (hd : ∀ e ∈ members, ∀ names, e.2.HasDefault names → D (e.1 :: names))
    (hone : ∀ e ∈ members, ∀ path nodes q, (e.2.HasDefault [] → nodes.config.isNull = false) →
      Kept e.2.HasDefault nodes q x → (e.2.plan context path nodes).result.atPlace? q = some x) :
    (planLevel members context path nodes).result.atPlace? q = some x := by
  refine hk.planObject fun fields name rest hq hfields => ?_
  subst hq
  refine hfields.planEach fun e he hname => ?_
  subst hname
  obtain ⟨hown, hchild⟩ := hk.member (hd e he)
  exact hone e he _ _ _ hown hchild

theorem Member.keeps {m : Member} (hcontext : context.Standard)
    (hm : m.WellFormed) :
    (∀ name description, ¬m.Runs (.custom name description)) →
      ∀ path nodes q, (m.HasDefault [] → nodes.config.isNull = false) →
        Kept m.HasDefault nodes q x → (m.plan context path nodes).result.atPlace? q = some x := by
  refine hm.induct (P := fun m => (∀ name description, ¬m.Runs (.custom name description)) →
    ∀ path nodes q, (m.HasDefault [] → nodes.config.isNull = false) →
      Kept m.HasDefault nodes q x → (m.plan context path nodes).result.atPlace? q = some x) ?_
  intro m hm ih hcustom path nodes q hown hk
  have hplan : (runModifiers context path nodes nodes.plan m.behaviour.modifiers).result =
      nodes.plan := hk.result_runModifiers hcontext
    (fun name description h => hcustom name description (runs_own h))
    fun w h => hown (hasDefault_own h)
  rcases hm.leaf_or_collects with ⟨t, traits, rfl⟩ | ⟨mode, element, attributes, blocks, h⟩
  · rw [plan_leaf]
    exact (congrArg (Value.atPlace? · q) hplan).trans hk.atPlace?
  · have hmembers := h.members
    rw [h.plan, Planned.result_bind, hplan]
    refine hk.planCollected fun path nodes q hk => hk.planLevel h.hasDefault fun e he => ?_
    exact ih e (hmembers ▸ he) fun name description hr =>
      hcustom name description (h.runs e he hr)

/-- A known primitive of a plan stays in its place if no default may replace it. -/
theorem Schema.keeps {s : Schema} (hcontext : context.Standard)
    (hs : s.WellFormed)
    (hm : ∀ name description, ¬s.Runs (.custom name description))
    (hk : Kept s.HasDefault nodes q x) :
    (s.planResource context nodes).result.atPlace? q = some x := by
  rw [planResource_eq]
  exact hk.planLevel hasDefault fun e he => Member.keeps hcontext (hs.members e he)
    fun name description hr => hm name description (runs e he hr)

end ResourceSchema
