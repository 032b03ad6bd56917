import ResourceSchema.Proofs.Schema.Resolution
import ResourceSchema.Proofs.Value.Basic

/-!
# Members of a level

The attributes and the blocks of one level as one list, in order of declaration with the attributes
first. A step by name from an object of the level leads to the member of the name, and an object of
the type of the level has a field of the type of each.
-/

namespace ResourceSchema

namespace Member

def ty : Member → Ty
  | .attr a => a.ty
  | .block b => b.ty

/-- The rules of building hold for a member. -/
def WellFormed : Member → Prop
  | .attr a => a.WellFormed
  | .block b => b.WellFormed

/-- The node that a path to a member leads to. -/
def node : Member → SchemaNode
  | .attr a => .attr a
  | .block b => .block b

@[simp]
theorem wellFormed_node (m : Member) : m.node.WellFormed ↔ m.WellFormed := by cases m <;> rfl

end Member

/-- The members of one level by name, attributes before blocks. -/
def levelMembers (attributes : List (String × Attribute)) (blocks : List (String × Block)) :
    List (String × Member) :=
  (attributes.map fun e => (e.1, .attr e.2)) ++ blocks.map fun e => (e.1, .block e.2)

variable {attributes : List (String × Attribute)} {blocks : List (String × Block)}
  {name : String} {m : Member} {s : PathStep} {next : SchemaNode}

@[simp] theorem keys_levelMembers (attributes : List (String × Attribute))
    (blocks : List (String × Block)) :
    Keyed.keys (levelMembers attributes blocks) = Keyed.keys attributes ++ Keyed.keys blocks := by
  simp [levelMembers]

theorem lookup_levelMembers (attributes : List (String × Attribute))
    (blocks : List (String × Block)) (name : String) :
    (levelMembers attributes blocks).lookup name =
      ((attributes.lookup name).map Member.attr).or ((blocks.lookup name).map Member.block) := by
  simp [levelMembers, List.lookup_append]

theorem forall_levelMembers {P : String × Member → Prop}
    (ha : ∀ e ∈ attributes, P (e.1, .attr e.2)) (hb : ∀ e ∈ blocks, P (e.1, .block e.2)) :
    ∀ e ∈ levelMembers attributes blocks, P e := by
  intro e he
  rcases List.mem_append.1 he with he | he
  · obtain ⟨a, hmem, rfl⟩ := List.mem_map.1 he
    exact ha a hmem
  · obtain ⟨b, hmem, rfl⟩ := List.mem_map.1 he
    exact hb b hmem

/-- With distinct names, the object type of a level has the type of each member. -/
theorem lookup_levelTypes_of_mem (hn : MemberNames (Keyed.keys attributes ++ Keyed.keys blocks))
    (hm : (name, m) ∈ levelMembers attributes blocks) :
    (Keyed.sorted (levelTypes attributes blocks)).lookup name = some m.ty := by
  have hl := Keyed.lookup_of_mem (by rw [keys_levelMembers]; exact hn.1) hm
  rw [lookup_levelMembers] at hl
  rw [lookup_levelTypes hn]
  cases ha : attributes.lookup name with
  | some a =>
    rw [ha] at hl
    cases hl
    rfl
  | none =>
    rw [ha] at hl
    obtain ⟨b, hb, rfl⟩ := Option.map_eq_some_iff.1 hl
    rw [hb]
    rfl

/-- An object of the type of a level has a field for each member. -/
theorem exists_field {fields : List (String × Value)}
    (hn : MemberNames (Keyed.keys attributes ++ Keyed.keys blocks))
    (hty : (Value.object fields).ty = Block.objectTyOf attributes blocks)
    (hm : (name, m) ∈ levelMembers attributes blocks) :
    ∃ w, fields.lookup name = some w ∧ w.ty = m.ty := by
  have htypes : Value.fieldTypes fields = Keyed.sorted (levelTypes attributes blocks) :=
    Ty.object.inj hty
  have hl := lookup_levelTypes_of_mem hn hm
  rw [← htypes, Value.lookup_fieldTypes] at hl
  exact Option.map_eq_some_iff.1 hl

namespace SchemaNode

theorem member_eq_ok_iff : member attributes blocks s = .ok next ↔
    ∃ name m, s = .name name ∧ (levelMembers attributes blocks).lookup name = some m ∧
      next = m.node := by
  cases s with
  | name name =>
    have hl := lookup_levelMembers attributes blocks name
    rw [member]
    cases ha : attributes.lookup name with
    | some a =>
      rw [ha] at hl
      simp [hl, Member.node, eq_comm]
    | none =>
      rw [ha] at hl
      cases hb : blocks.lookup name with
      | some b =>
        rw [hb] at hl
        simp [hl, Member.node, eq_comm]
      | none =>
        rw [hb] at hl
        simp [hl]
  | _ => simp [member]

/-- A step by the name of a member leads to it. -/
theorem member_name (hn : MemberNames (Keyed.keys attributes ++ Keyed.keys blocks))
    (hm : (name, m) ∈ levelMembers attributes blocks) :
    member attributes blocks (.name name) = .ok m.node :=
  member_eq_ok_iff.2
    ⟨name, m, rfl, Keyed.lookup_of_mem (by rw [keys_levelMembers]; exact hn.1) hm, rfl⟩

/-- The members of the objects that a node stands for or collects. -/
def members : SchemaNode → List (String × Member)
  | .root s => levelMembers s.attributes s.blocks
  | .attr (.group _ members _) | .groupElement members => levelMembers members []
  | .block b | .blockElement b => levelMembers b.attributes b.blocks
  | .attr (.leaf _ _) | .type _ => []

theorem WellFormed.nodup_members {node : SchemaNode} (h : node.WellFormed) :
    (Keyed.keys node.members).Nodup := by
  have hlevel : ∀ {attributes : List (String × Attribute)} {blocks : List (String × Block)},
      MemberNames (Keyed.keys attributes ++ Keyed.keys blocks) →
        (Keyed.keys (levelMembers attributes blocks)).Nodup := by
    intro attributes blocks hn
    rw [keys_levelMembers]
    exact hn.1
  have hgroup : ∀ {members : List (String × Attribute)}, MemberNames (Keyed.keys members) →
      (Keyed.keys (levelMembers members [])).Nodup := fun hn => hlevel (by simpa using hn)
  cases node with
  | root s => exact hlevel h.names
  | attr a =>
    cases h with
    | leaf _ _ => exact .nil
    | group hn _ _ => exact hgroup hn
  | groupElement members => exact hgroup h.1
  | block b => cases h with | mk hn _ _ _ => exact hlevel hn
  | blockElement b => cases h with | mk hn _ _ _ => exact hlevel hn
  | type t => exact .nil

/-- Inside the value of a leaf a path leads to types only. -/
theorem eq_type_of_resolveFrom {consumed p : Path} {t : Ty}
    (h : resolveFrom consumed (.type t) p = .ok next) : ∃ u, next = .type u := by
  induction p generalizing t consumed with
  | nil =>
    cases h
    exact ⟨t, rfl⟩
  | cons s p ih =>
    obtain ⟨child, hchild, h⟩ := resolveFrom_cons_eq_ok.1 h
    obtain ⟨u, -, rfl⟩ := Except.map_eq_ok.1 hchild
    exact ih h

end SchemaNode

theorem Schema.WellFormed.members {s : Schema} (hs : s.WellFormed) :
    ∀ e ∈ levelMembers s.attributes s.blocks, e.2.WellFormed :=
  forall_levelMembers hs.attributes hs.blocks

/-! ## Members that collect objects -/

namespace Member

theorem WellFormed.ty (h : m.WellFormed) : m.ty.WellFormed := by
  cases m with
  | attr a => exact Attribute.WellFormed.ty h
  | block b => exact Block.WellFormed.ty h

theorem WellFormed.members (h : m.WellFormed) : ∀ e ∈ m.node.members, e.2.WellFormed := by
  cases m with
  | attr a =>
    cases h with
    | leaf _ _ => exact fun e he => by cases he
    | group _ hm _ => exact forall_levelMembers hm (by simp)
  | block b => cases h with | mk _ ha hb _ => exact forall_levelMembers ha hb

/-- What holds of a member if it holds of those in it holds of all. -/
theorem WellFormed.induct {P : Member → Prop} (hm : m.WellFormed)
    (h : ∀ m, m.WellFormed → (∀ e ∈ m.node.members, P e.2) → P m) : P m := by
  have hattr : ∀ {a : Attribute}, a.WellFormed → P (.attr a) := by
    intro a ha
    induction ha with
    | leaf ht hf => exact h _ (.leaf ht hf) fun e he => by cases he
    | group hn hm hf ih => exact h _ (.group hn hm hf) (forall_levelMembers ih (by simp))
  cases m with
  | attr a => exact hattr hm
  | block b =>
    induction hm with
    | mk hn ha hb ht ih =>
      exact h _ (.mk hn ha hb ht) (forall_levelMembers (fun e he => hattr (ha e he)) ih)

/-- A group or a block, whose values collect objects with some attributes and blocks. Where they
are collected, a step leads to the element node first. -/
inductive Collects : Member → NestingMode → SchemaNode → List (String × Attribute) →
    List (String × Block) → Prop
  | group {mode : NestingMode} {members : List (String × Attribute)} {traits : AttributeTraits}
      (hn : MemberNames (Keyed.keys members)) :
      Collects (.attr (.group mode members traits)) mode (.groupElement members) members []
  | block {b : Block} (hn : MemberNames (Keyed.keys b.attributes ++ Keyed.keys b.blocks)) :
      Collects (.block b) b.nesting.mode (.blockElement b) b.attributes b.blocks

theorem WellFormed.leaf_or_collects (h : m.WellFormed) :
    (∃ t traits, m = .attr (.leaf t traits)) ∨
      ∃ mode element attributes blocks, m.Collects mode element attributes blocks := by
  cases m with
  | attr a =>
    cases h with
    | leaf _ _ => exact .inl ⟨_, _, rfl⟩
    | group hn _ _ => exact .inr ⟨_, _, _, _, .group hn⟩
  | block b => cases h with | mk hn _ _ _ => exact .inr ⟨_, _, _, _, .block hn⟩

namespace Collects

variable {mode : NestingMode} {element : SchemaNode}

theorem names (h : m.Collects mode element attributes blocks) :
    MemberNames (Keyed.keys attributes ++ Keyed.keys blocks) := by
  cases h with
  | group hn => simpa using hn
  | block hn => exact hn

theorem members (h : m.Collects mode element attributes blocks) :
    m.node.members = levelMembers attributes blocks := by cases h <;> rfl

theorem ty (h : m.Collects mode element attributes blocks) :
    m.ty = mode.wrap (Block.objectTyOf attributes blocks) := by
  cases h with
  | group _ => exact congrArg mode.wrap (Attribute.objectTy_eq _)
  | block _ => exact Block.ty_eq _

theorem step (h : m.Collects mode element attributes blocks) (s : PathStep) :
    m.node.step s =
      SchemaNode.collected mode m.ty element (SchemaNode.member attributes blocks s) s := by
  cases h <;> rfl

theorem step_element (h : m.Collects mode element attributes blocks) (s : PathStep) :
    element.step s = SchemaNode.member attributes blocks s := by cases h <;> rfl

theorem members_element (h : m.Collects mode element attributes blocks) :
    element.members = levelMembers attributes blocks := by cases h <;> rfl

theorem element_ne_node (h : m.Collects mode element attributes blocks) (n : Member) :
    element ≠ n.node := by cases h <;> cases n <;> exact nofun

end Collects

end Member

theorem SchemaNode.WellFormed.members {node : SchemaNode} (h : node.WellFormed) :
    ∀ e ∈ node.members, e.2.WellFormed := by
  cases node with
  | root s => exact Schema.WellFormed.members h
  | attr a => exact Member.WellFormed.members (m := .attr a) h
  | groupElement members => exact forall_levelMembers h.2 (by simp)
  | block b => exact Member.WellFormed.members (m := .block b) h
  | blockElement b => exact Member.WellFormed.members (m := .block b) h
  | type t => exact fun e he => by cases he

/-! ## Paths to members -/

theorem Schema.attributeAt_eq_ok_iff {schema : Schema} {p : Path} {a : Attribute} :
    schema.attributeAt p = .ok a ↔ schema.nodeAt p = .ok (.attr a) :=
  Except.bind_eq_ok_iff fun node => by cases node <;> simp [pure, Except.pure]

theorem Schema.blockAt_eq_ok_iff {schema : Schema} {p : Path} {b : Block} :
    schema.blockAt p = .ok b ↔ schema.nodeAt p = .ok (.block b) :=
  Except.bind_eq_ok_iff fun node => by cases node <;> simp [pure, Except.pure]

/-- The path leads to the attribute or to the block. -/
def Schema.LeadsTo (schema : Schema) (p : Path) : Member → Prop
  | .attr a => schema.attributeAt p = .ok a
  | .block b => schema.blockAt p = .ok b

theorem Schema.leadsTo_iff {schema : Schema} {p : Path} :
    schema.LeadsTo p m ↔ schema.nodeAt p = .ok m.node := by
  cases m with
  | attr a => exact Schema.attributeAt_eq_ok_iff
  | block b => exact Schema.blockAt_eq_ok_iff

theorem Schema.typeAt_of_nodeAt {schema : Schema} {p : Path} (h : schema.nodeAt p = .ok m.node) :
    schema.typeAt p = .ok m.ty := by
  refine Except.bind_eq_ok.2 ⟨m.node, h, ?_⟩
  cases m <;> rfl

end ResourceSchema
