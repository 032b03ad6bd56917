import ResourceSchema.Proofs.Schema.Member
import ResourceSchema.Proofs.Validation.Basic
import ResourceSchema.Proofs.Value.Position

/-!
# Visits in order of declaration

The members of a schema stand at places of its data: those whose paths resolve to an attribute or a
block. Visiting the data along the schema comes to each such place once, an object's fields in the
order in which the schema declares them and the elements of a collection as they are stored
(`Schema.WellFormed.enumerates_visits`). One level is shown at a time: the members of an object,
and then the objects that a node collects.
-/

namespace ResourceSchema

variable {attributes : List (String × Attribute)} {blocks : List (String × Block)}
  {v w : Value} {s : Slot} {q : List Slot} {path : Path}

/-! ## Members at places -/

namespace SchemaNode

variable {node child : SchemaNode}

/-- The slots of a value at a node, in order: the fields of an object as the node declares them. -/
def slots (node : SchemaNode) : Value → List Slot
  | .object _ => node.members.map fun e => .field e.1
  | v => v.slots

/-- Slots of one place come in the order that the node there gives them. -/
def declaredOrder (node : SchemaNode) (v : Value) (q : List Slot) (s s' : Slot) : Prop :=
  ∃ n w, resolveFrom [] node (v.pathTo q) = .ok n ∧ v.atPlace? q = some w ∧
    [s, s'].Sublist (n.slots w)

/-- An attribute or a block stands at a place. -/
def HasMember (node : SchemaNode) (v : Value) (q : List Slot) : Prop :=
  ∃ (m : Member) (w : Value), resolveFrom [] node (v.pathTo q) = .ok m.node ∧
    v.atPlace? q = some w

/-- A visit of what is at a place. -/
structure VisitedAt (node : SchemaNode) (path : Path) (v : Value) (q : List Slot)
    (visit : Visit) : Prop where
  member : resolveFrom [] node (v.pathTo q) = .ok visit.member.node
  value : v.atPlace? q = some visit.value
  path : visit.path = path ++ v.pathTo q

theorem resolveFrom_pathTo_cons {n : SchemaNode} (hs : v.inSlot? s = some w)
    (hn : node.step (s.step w) = .ok child) :
    resolveFrom [] node (v.pathTo (s :: q)) = .ok n ↔
      resolveFrom [] child (w.pathTo q) = .ok n := by
  rw [Value.pathTo_cons hs, resolveFrom_cons_eq_ok, hn]
  simp

theorem declaredOrder_cons (hs : v.inSlot? s = some w) (hn : node.step (s.step w) = .ok child) :
    node.declaredOrder v (s :: q) = child.declaredOrder w q := by
  unfold declaredOrder
  simp only [resolveFrom_pathTo_cons hs hn, Value.atPlace?_cons_of_inSlot? hs]

theorem hasMember_cons (hs : v.inSlot? s = some w) (hn : node.step (s.step w) = .ok child) :
    node.HasMember v (s :: q) ↔ child.HasMember w q := by
  unfold HasMember
  simp only [resolveFrom_pathTo_cons hs hn, Value.atPlace?_cons_of_inSlot? hs]

theorem visitedAt_cons (hs : v.inSlot? s = some w) (hn : node.step (s.step w) = .ok child)
    {visit : Visit} :
    node.VisitedAt path v (s :: q) visit ↔ child.VisitedAt (path ++ [s.step w]) w q visit := by
  constructor
  · rintro ⟨hm, hv, hp⟩
    rw [Value.pathTo_cons hs, List.append_cons] at hp
    exact ⟨(resolveFrom_pathTo_cons hs hn).1 hm, (Value.atPlace?_cons_of_inSlot? hs).symm.trans hv,
      hp⟩
  · rintro ⟨hm, hv, hp⟩
    refine ⟨(resolveFrom_pathTo_cons hs hn).2 hm, (Value.atPlace?_cons_of_inSlot? hs).trans hv, ?_⟩
    rw [hp, Value.pathTo_cons hs, List.append_assoc, List.singleton_append]

theorem WellFormed.nodup_slots (hn : node.WellFormed) (hv : v.WellFormed) :
    (node.slots v).Nodup := by
  unfold slots
  split
  · have hnames := hn.nodup_members
    rw [Keyed.keys, ← List.nodup_map_iff (f := Slot.field) fun _ _ h => Slot.field.inj h,
      List.map_map] at hnames
    exact hnames
  · exact Value.nodup_slots hv

/-- What is listed for a child is what is listed below its slot. -/
theorem enumerates_below {visits : List Visit} (hs : v.inSlot? s = some w)
    (hn : node.step (s.step w) = .ok child)
    (h : Enumerates (child.declaredOrder w) (child.HasMember w)
      (child.VisitedAt (path ++ [s.step w]) w) visits) :
    Enumerates (fun q => node.declaredOrder v (s :: q))
      (fun q => s :: q ≠ [] ∧ node.HasMember v (s :: q))
      (fun q => node.VisitedAt path v (s :: q)) visits := by
  obtain ⟨places, hordered, hmem, hat⟩ := h
  refine ⟨places, ?_, fun q => ?_, hat.imp fun q visit => (visitedAt_cons hs hn).2⟩
  · simp only [declaredOrder_cons hs hn]
    exact hordered
  · rw [hmem, ← hasMember_cons hs hn]
    exact (and_iff_right (List.cons_ne_nil s q)).symm

/-- A place with a member below a node is below a step that the node takes. -/
theorem HasMember.exists_step (h : node.HasMember v q) (hq : q ≠ []) :
    ∃ s w rest child, v.inSlot? s = some w ∧ q = s :: rest ∧
      node.step (s.step w) = .ok child := by
  obtain ⟨s, rest, rfl⟩ := List.exists_cons_of_ne_nil hq
  obtain ⟨m, x, hm, hx⟩ := h
  obtain ⟨w, hw, _⟩ := Value.atPlace?_cons_eq_some.1 hx
  rw [Value.pathTo_cons hw] at hm
  obtain ⟨child, hchild, _⟩ := resolveFrom_cons_eq_ok.1 hm
  exact ⟨s, w, rest, child, hw, rfl, hchild⟩

end SchemaNode

/-! ## The members of one object -/

def Member.visits (path : Path) (v : Value) : Member → List Visit
  | .attr a => a.visits path v
  | .block b => b.visits path v

/-- Visits of all members of an object, the attributes first. -/
def levelVisits (attributes : List (String × Attribute)) (blocks : List (String × Block))
    (path : Path) (v : Value) : List Visit :=
  (levelMembers attributes blocks).flatMap (presentVisits Member.visits path (objectFields v))

theorem memberVisits_append (path : Path) (v : Value) :
    Attribute.memberVisits path (objectFields v) attributes ++
      Block.memberVisits path (objectFields v) blocks = levelVisits attributes blocks path v := by
  rw [Attribute.memberVisits_eq_flatMap, Block.memberVisits_eq_flatMap, levelVisits, levelMembers,
    List.flatMap_append, List.flatMap_map, List.flatMap_map]
  rfl

/-- Visiting a member of any value of its type lists the places of members, in order. -/
def Member.VisitsInOrder (m : Member) : Prop :=
  ∀ path v, v.WellFormed → v.ty = m.ty → Enumerates (m.node.declaredOrder v)
    (m.node.HasMember v) (m.node.VisitedAt path v) (m.visits path v)

section Level

variable {node : SchemaNode}

theorem not_hasMember_of_parts_eq_nil (hv : v.WellFormed) (h : v.parts = []) :
    ∀ q, ¬(q ≠ [] ∧ node.HasMember v q) := by
  rintro q ⟨hq, hmember⟩
  obtain ⟨s, w, rest, child, hs, _⟩ := hmember.exists_step hq
  have hpart := (Value.inSlot?_eq_some_iff hv).1 hs
  rw [h] at hpart
  cases hpart

/-- Visits of the members of an object list the places below it. -/
theorem enumerates_level (node : SchemaNode)
    (hn : MemberNames (Keyed.keys attributes ++ Keyed.keys blocks))
    (hstep : ∀ s next, node.step s = .ok next ↔
      SchemaNode.member attributes blocks s = .ok next)
    (hmembers : node.members = levelMembers attributes blocks)
    (hm : ∀ e ∈ levelMembers attributes blocks, e.2.VisitsInOrder) (hv : v.WellFormed)
    (hty : v.ty = Block.objectTyOf attributes blocks) (path : Path) :
    Enumerates (node.declaredOrder v) (fun q => q ≠ [] ∧ node.HasMember v q)
      (node.VisitedAt path v) (levelVisits attributes blocks path v) := by
  have hempty : objectFields v = [] → v.parts = [] → Enumerates (node.declaredOrder v)
      (fun q => q ≠ [] ∧ node.HasMember v q) (node.VisitedAt path v)
      (levelVisits attributes blocks path v) := by
    intro hfields hparts
    have hnil : levelVisits attributes blocks path v = [] := by
      rw [levelVisits, List.flatMap_eq_nil_iff]
      intro e _
      rw [presentVisits, hfields]
      rfl
    rw [hnil]
    exact .nil (not_hasMember_of_parts_eq_nil hv hparts)
  cases v with
  | null t => exact hempty rfl rfl
  | unknown t => exact hempty rfl rfl
  | object fields =>
    refine .children (fun e => .field e.1) ?_ (fun e he => ?_) ?_
    · refine List.pairwise_iff_forall_sublist.2 fun h => ⟨node, .object fields, rfl, rfl, ?_⟩
      rw [SchemaNode.slots, hmembers]
      exact h.map fun e => Slot.field e.1
    · obtain ⟨w, hw, hwty⟩ := exists_field hn hty he
      have hl := Keyed.lookup_of_mem (by rw [keys_levelMembers]; exact hn.1) he
      have hchild := (hstep (.name e.1) e.2.node).2
        (SchemaNode.member_eq_ok_iff.2 ⟨e.1, e.2, rfl, hl, rfl⟩)
      have hslot : (Value.object fields).inSlot? (.field e.1) = some w := hw
      have hvisits : presentVisits Member.visits path (objectFields (.object fields)) e =
          e.2.visits (path ++ [.name e.1]) w := by
        rw [presentVisits, objectFields, hw]
      rw [hvisits]
      exact SchemaNode.enumerates_below hslot hchild (hm e he _ w (hv.inSlot? hslot) hwty)
    · rintro q ⟨hq, hmember⟩
      obtain ⟨s, w, rest, child, hs, rfl, hchild⟩ := hmember.exists_step hq
      obtain ⟨name, m, hname, hl, _⟩ := SchemaNode.member_eq_ok_iff.1 ((hstep _ _).1 hchild)
      cases s <;> cases hname
      exact ⟨(name, m), Keyed.mem_of_lookup hl, rest, rfl⟩
  | _ => cases hty

/-- Visits of the members of the objects that a member collects list the places below it. -/
theorem enumerates_collected {m : Member} {mode : NestingMode} {element : SchemaNode}
    (h : m.Collects mode element attributes blocks)
    (hm : ∀ e ∈ levelMembers attributes blocks, e.2.VisitsInOrder) (hv : v.WellFormed)
    (hty : v.ty = m.ty) (path : Path) :
    Enumerates (m.node.declaredOrder v) (fun q => q ≠ [] ∧ m.node.HasMember v q)
      (m.node.VisitedAt path v) ((collectedObjects path v).flatMap fun o =>
        levelVisits attributes blocks o.1 o.2) := by
  rw [h.ty] at hty
  have hparts : collectedObjects path v =
      (v.parts.map fun c => (path ++ [c.1.step c.2], c.2)) → m.node.slots v = v.slots →
      (∀ c ∈ v.parts, m.node.step (c.1.step c.2) = .ok element ∧
        c.2.ty = Block.objectTyOf attributes blocks) →
      Enumerates (m.node.declaredOrder v) (fun q => q ≠ [] ∧ m.node.HasMember v q)
        (m.node.VisitedAt path v) ((collectedObjects path v).flatMap fun o =>
          levelVisits attributes blocks o.1 o.2) := by
    intro hobjects hslots hc
    rw [hobjects, List.flatMap_map]
    refine .children Prod.fst ?_ (fun c hmem => ?_) ?_
    · exact (Value.pairwise_slots v).imp fun h => ⟨m.node, v, rfl, rfl, hslots ▸ h⟩
    · obtain ⟨hchild, hcty⟩ := hc c hmem
      refine SchemaNode.enumerates_below ((Value.inSlot?_eq_some_iff hv).2 hmem) hchild ?_
      refine (enumerates_level element h.names (fun s next => by rw [h.step_element])
        h.members_element hm (hv.parts hmem) hcty _).congr fun q => and_iff_right_of_imp ?_
      rintro ⟨n, x, hmember, _⟩ rfl
      exact h.element_ne_node n (Except.ok.inj hmember)
    · rintro q ⟨hq, hmember⟩
      obtain ⟨s, w, rest, child, hs, rfl, _⟩ := hmember.exists_step hq
      exact ⟨(s, w), (Value.inSlot?_eq_some_iff hv).1 hs, rest, rfl⟩
  have hchildren : ∀ w : Value, w.children.map (fun e => (path ++ [e.1], e.2)) =
      w.parts.map fun c => (path ++ [c.1.step c.2], c.2) := by
    intro w
    rw [Value.children_eq_parts, List.map_map]
    rfl
  cases v with
  | null t => exact hparts rfl rfl (by simp [Value.parts])
  | unknown t => exact hparts rfl rfl (by simp [Value.parts])
  | object fields =>
    cases mode <;> try cases hty
    rw [collectedObjects, List.flatMap_singleton]
    refine enumerates_level m.node h.names (fun s next => ?_) h.members hm hv hty path
    rw [h.step]
    cases s <;> simp [SchemaNode.collected, SchemaNode.member]
  | list t items =>
    cases mode <;> cases hty
    refine hparts (hchildren _) rfl fun c hc => ?_
    obtain ⟨⟨w, i⟩, hw, rfl⟩ := List.mem_map.1 hc
    refine ⟨?_, ((Value.wellFormed_list_iff.1 hv).2 w (List.fst_mem_of_mem_zipIdx hw)).1⟩
    rw [h.step, Slot.step, SchemaNode.collected, if_neg (Int.not_lt.2 (Int.natCast_nonneg i))]
  | set t items =>
    cases mode <;> cases hty
    refine hparts (hchildren _) rfl fun c hc => ?_
    obtain ⟨⟨w, i⟩, hw, rfl⟩ := List.mem_map.1 hc
    refine ⟨h.step _, ((Value.wellFormed_set_iff.1 hv).2.1 w (List.fst_mem_of_mem_zipIdx hw)).1⟩
  | map t entries =>
    cases mode <;> cases hty
    refine hparts (hchildren _) rfl fun c hc => ?_
    obtain ⟨e, he, rfl⟩ := List.mem_map.1 hc
    exact ⟨h.step _, ((Value.wellFormed_map_iff.1 hv).2.2 e he).1⟩
  | _ => cases mode <;> cases hty

/-- The visits of a member are those of the member itself and those below it. -/
theorem enumerates_member {m : Member} {below : List Visit}
    (h : Enumerates (m.node.declaredOrder v) (fun q => q ≠ [] ∧ m.node.HasMember v q)
      (m.node.VisitedAt path v) below) :
    Enumerates (m.node.declaredOrder v) (m.node.HasMember v) (m.node.VisitedAt path v)
      (⟨path, m, v⟩ :: below) :=
  h.root ⟨m, v, rfl, rfl⟩ ⟨rfl, rfl, (List.append_nil path).symm⟩

end Level

/-! ## Members and whole schemas -/

/-- A member that collects objects is visited, and then the members of these. -/
theorem Member.Collects.visits {m : Member} {mode : NestingMode} {element : SchemaNode}
    (h : m.Collects mode element attributes blocks) (path : Path) (v : Value) :
    m.visits path v = ⟨path, m, v⟩ ::
      (collectedObjects path v).flatMap fun o => levelVisits attributes blocks o.1 o.2 := by
  cases h with
  | group _ =>
    simp only [Member.visits, Attribute.visits, ← memberVisits_append, Block.memberVisits,
      List.append_nil]
  | @block b _ =>
    obtain ⟨nesting, attributes, blocks, traits⟩ := b
    simp only [Member.visits, Block.visits, memberVisits_append]

theorem Member.WellFormed.visitsInOrder {m : Member} (hm : m.WellFormed) : m.VisitsInOrder := by
  refine hm.induct fun m hm ih path v hv hty => ?_
  rcases hm.leaf_or_collects with ⟨t, traits, rfl⟩ | ⟨mode, element, attributes, blocks, h⟩
  · refine enumerates_member (.nil fun q ⟨hq, hmember⟩ => ?_)
    obtain ⟨s, w, rest, child, hs, rfl, hchild⟩ := hmember.exists_step hq
    obtain ⟨m, x, hm, _⟩ := hmember
    rw [SchemaNode.resolveFrom_pathTo_cons hs hchild] at hm
    -- Inside the value of a leaf there are types only.
    cases hu : t.step (s.step w) with
    | error e => rw [Member.node, SchemaNode.step, hu] at hchild; cases hchild
    | ok u =>
      rw [Member.node, SchemaNode.step, hu] at hchild
      cases hchild
      obtain ⟨u', hu'⟩ := SchemaNode.eq_type_of_resolveFrom hm
      cases m <;> cases hu'
  · rw [h.visits]
    exact enumerates_member (enumerates_collected h (h.members ▸ ih) hv hty path)

/-- The visits of a schema are those of the places of its data where a member stands, one for each
and in order of declaration. -/
theorem Schema.WellFormed.enumerates_visits {s : Schema} (hs : s.WellFormed) (hv : v.WellFormed)
    (hty : v.ty = s.ty) : Enumerates (SchemaNode.declaredOrder (.root s) v)
      (SchemaNode.HasMember (.root s) v) (SchemaNode.VisitedAt (.root s) [] v) (s.visits v) := by
  rw [visits, memberVisits_append]
  refine (enumerates_level (.root s) hs.names (fun _ _ => Iff.rfl) rfl
    (fun e he => (hs.members e he).visitsInOrder) hv hty []).congr fun q =>
    and_iff_right_of_imp ?_
  rintro ⟨m, x, hm, _⟩ rfl
  cases m <;> cases hm

end ResourceSchema
