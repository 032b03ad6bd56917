import ResourceSchema.Proofs.Recursion
import ResourceSchema.Proofs.Schema.Built
import ResourceSchema.Schema.Node

/-!
# Resolving paths agrees with the types

A path is resolved through the descriptors of a schema, and the type of a schema takes the same
path through types alone. Both lead to the same type, or fail at the same step with the same error.
One step decides it (`SchemaNode.step_agrees`), by the rule that the members of a level have
distinct names, and the rule holds again at the node that the step leads to.
-/

namespace ResourceSchema

/-! ## Types of members -/

@[simp] theorem Attribute.memberTypes_eq_map (members : List (String × Attribute)) :
    memberTypes members = members.map fun e => (e.1, e.2.ty) :=
  eq_map_of_cons rfl (fun _ _ => rfl) members

@[simp] theorem Block.memberTypes_eq_map (members : List (String × Block)) :
    memberTypes members = members.map fun e => (e.1, e.2.ty) :=
  eq_map_of_cons rfl (fun _ _ => rfl) members

theorem Block.ty_eq (b : Block) : b.ty = b.nesting.mode.wrap b.objectTy := by
  obtain ⟨nesting, attributes, blocks, traits⟩ := b
  rw [ty]
  rfl

theorem Attribute.objectTy_eq (members : List (String × Attribute)) :
    objectTy members = Block.objectTyOf members [] := by
  rw [Block.objectTyOf, Block.memberTypes, List.append_nil]
  rfl

/-- The members of one level as attributes of its object type. -/
def levelTypes (attributes : List (String × Attribute)) (blocks : List (String × Block)) :
    List (String × Ty) :=
  Attribute.memberTypes attributes ++ Block.memberTypes blocks

@[simp]
theorem keys_levelTypes (attributes : List (String × Attribute)) (blocks : List (String × Block)) :
    Keyed.keys (levelTypes attributes blocks) =
      Keyed.keys attributes ++ Keyed.keys blocks := by
  simp [levelTypes]

/-- With distinct names, the object type has the type of an attribute or else of a block. -/
theorem lookup_levelTypes {attributes : List (String × Attribute)}
    {blocks : List (String × Block)}
    (hn : MemberNames (Keyed.keys attributes ++ Keyed.keys blocks)) (name : String) :
    (Keyed.sorted (levelTypes attributes blocks)).lookup name =
      ((attributes.lookup name).map Attribute.ty).or ((blocks.lookup name).map Block.ty) := by
  rw [Keyed.lookup_sorted (by simpa using hn.1)]
  simp [levelTypes, List.lookup_append]

/-! ## Types of descriptors are well formed -/

@[simp] theorem NestingMode.wellFormed_wrap {mode : NestingMode} {t : Ty} :
    (mode.wrap t).WellFormed ↔ t.WellFormed := by
  cases mode <;> rfl

theorem Attribute.WellFormed.ty {a : Attribute} (h : a.WellFormed) : a.ty.WellFormed := by
  induction h with
  | leaf ht _ => exact ht
  | group _ _ _ ih =>
    rw [Attribute.ty, NestingMode.wellFormed_wrap]
    refine Ty.wellFormed_ofAttributes ?_
    intro e he
    rw [memberTypes_eq_map] at he
    obtain ⟨m, hm, rfl⟩ := List.mem_map.1 he
    exact ih m hm

theorem wellFormed_objectTyOf {attributes : List (String × Attribute)}
    {blocks : List (String × Block)} (ha : ∀ e ∈ attributes, e.2.ty.WellFormed)
    (hb : ∀ e ∈ blocks, e.2.ty.WellFormed) :
    (Block.objectTyOf attributes blocks).WellFormed := by
  refine Ty.wellFormed_ofAttributes ?_
  intro e he
  rw [Attribute.memberTypes_eq_map, Block.memberTypes_eq_map, List.mem_append] at he
  rcases he with he | he
  · obtain ⟨m, hm, rfl⟩ := List.mem_map.1 he
    exact ha m hm
  · obtain ⟨m, hm, rfl⟩ := List.mem_map.1 he
    exact hb m hm

theorem Block.WellFormed.ty {b : Block} (h : b.WellFormed) : b.ty.WellFormed := by
  induction h with
  | mk _ ha _ _ ih =>
    rw [Block.ty_eq, NestingMode.wellFormed_wrap]
    exact wellFormed_objectTyOf (fun e he => (ha e he).ty) ih

theorem Schema.WellFormed.ty {s : Schema} (h : s.WellFormed) : s.ty.WellFormed :=
  wellFormed_objectTyOf (fun e he => (h.attributes e he).ty) fun e he => (h.blocks e he).ty

/-! ## One step -/

namespace SchemaNode

variable {node next : SchemaNode} {s : PathStep} {p : Path}

/-- The rules of building hold at a node and below it. -/
def WellFormed : SchemaNode → Prop
  | .root s => s.WellFormed
  | .attr a => a.WellFormed
  | .groupElement members => MemberNames (Keyed.keys members) ∧ ∀ e ∈ members, e.2.WellFormed
  | .block b | .blockElement b => b.WellFormed
  | .type t => t.WellFormed

theorem member_agrees {attributes : List (String × Attribute)} {blocks : List (String × Block)}
    (hn : MemberNames (Keyed.keys attributes ++ Keyed.keys blocks)) (s : PathStep) :
    (member attributes blocks s).map ty = (Block.objectTyOf attributes blocks).step s := by
  cases s with
  | name name =>
    have hl := lookup_levelTypes hn name
    rw [Block.objectTyOf, Ty.ofAttributes, Ty.step]
    unfold levelTypes at hl
    rw [hl, member]
    cases attributes.lookup name with
    | some a => rfl
    | none =>
      cases blocks.lookup name with
      | some b => rfl
      | none => rfl
  | index i => rfl
  | key k => rfl
  | element w => rfl

theorem collected_agrees {mode : NestingMode} {object : Ty} {element : SchemaNode}
    {single : Except StepError SchemaNode} {s : PathStep} (he : element.ty = object)
    (hobject : ∃ attributes, object = .object attributes)
    (hs : single.map ty = object.step s) :
    (collected mode (mode.wrap object) element single s).map ty =
      (mode.wrap object).step s := by
  obtain ⟨attributes, rfl⟩ := hobject
  cases mode <;> cases s <;> try rfl
  case list.index i =>
    rw [collected, NestingMode.wrap, Ty.step]
    split
    · rfl
    · exact congrArg Except.ok he
  case set.element w => exact congrArg Except.ok he
  case map.key k => exact congrArg Except.ok he
  case single.name name => exact hs

/-- A step from a node leads to the type that the step from its type leads to. -/
theorem step_agrees (h : node.WellFormed) (s : PathStep) :
    (node.step s).map ty = node.ty.step s := by
  cases node with
  | root schema => exact member_agrees h.names s
  | attr a =>
    cases h with
    | leaf ht hf =>
      rw [step, SchemaNode.ty, Attribute.ty]
      cases Ty.step _ s <;> rfl
    | @group mode members traits hn hm hf =>
      have hobject := Attribute.objectTy_eq members
      refine collected_agrees rfl ⟨_, rfl⟩ ?_
      rw [member_agrees (by simpa using hn), ← hobject]
      rfl
  | groupElement members =>
    rw [step, SchemaNode.ty, Attribute.objectTy_eq]
    exact member_agrees (by simpa using h.1) s
  | block b =>
    cases h with
    | mk hn ha hb ht =>
      rw [step, SchemaNode.ty, Block.ty_eq]
      exact collected_agrees rfl ⟨_, rfl⟩ (member_agrees hn s)
  | blockElement b =>
    cases h with
    | mk hn ha hb ht => exact member_agrees hn s
  | type t =>
    rw [step, SchemaNode.ty]
    cases t.step s <;> rfl

theorem member_wellFormed {attributes : List (String × Attribute)}
    {blocks : List (String × Block)} (ha : ∀ e ∈ attributes, e.2.WellFormed)
    (hb : ∀ e ∈ blocks, e.2.WellFormed) (h : member attributes blocks s = .ok next) :
    next.WellFormed := by
  cases s with
  | name name =>
    cases hla : attributes.lookup name with
    | some a => rw [member, hla] at h; cases h; exact ha _ (Keyed.mem_of_lookup hla)
    | none =>
      cases hlb : blocks.lookup name with
      | some b => rw [member, hla, hlb] at h; cases h; exact hb _ (Keyed.mem_of_lookup hlb)
      | none => rw [member, hla, hlb] at h; cases h
  | index i => cases h
  | key k => cases h
  | element w => cases h

theorem collected_wellFormed {mode : NestingMode} {target : Ty} {element : SchemaNode}
    {single : Except StepError SchemaNode} (he : element.WellFormed)
    (hs : single = .ok next → next.WellFormed)
    (h : collected mode target element single s = .ok next) : next.WellFormed := by
  unfold collected at h
  split at h
  · split at h <;> cases h
    exact he
  · cases h; exact he
  · cases h; exact he
  · exact hs h
  · cases h

theorem type_wellFormed {t : Ty} (ht : t.WellFormed) (h : (t.step s).map type = .ok next) :
    next.WellFormed := by
  obtain ⟨u, hu, rfl⟩ := Except.map_eq_ok.1 h
  exact ht.step hu

theorem WellFormed.step (hw : node.WellFormed) (h : node.step s = .ok next) :
    next.WellFormed := by
  cases node with
  | root schema => exact member_wellFormed hw.attributes hw.blocks h
  | attr a =>
    cases hw with
    | leaf ht _ => exact type_wellFormed ht h
    | @group mode members _ hn hm _ =>
      have he : WellFormed (.groupElement members) := ⟨hn, hm⟩
      exact collected_wellFormed he (member_wellFormed hm (by simp)) h
  | groupElement members => exact member_wellFormed hw.2 (by simp) h
  | block b =>
    have he : WellFormed (.blockElement b) := hw
    cases hw with
    | mk _ ha hb _ => exact collected_wellFormed he (member_wellFormed ha hb) h
  | blockElement b =>
    cases hw with
    | mk hn ha hb _ => exact member_wellFormed ha hb h
  | type t => exact type_wellFormed hw h

theorem WellFormed.ty (h : node.WellFormed) : node.ty.WellFormed := by
  cases node with
  | root schema => exact Schema.WellFormed.ty h
  | attr a => exact Attribute.WellFormed.ty h
  | groupElement members =>
    rw [SchemaNode.ty, Attribute.objectTy_eq]
    exact wellFormed_objectTyOf (fun e he => (h.2 e he).ty) (by simp)
  | block b => exact Block.WellFormed.ty h
  | blockElement b =>
    cases h with
    | mk _ ha hb _ =>
      exact wellFormed_objectTyOf (fun e he => (ha e he).ty) fun e he => (hb e he).ty
  | type t => exact h

/-! ## Whole paths -/

theorem resolveFrom_any {consumed : Path} (h : resolveFrom consumed node p = .ok next)
    (consumed' : Path) : resolveFrom consumed' node p = .ok next := by
  induction p generalizing node consumed consumed' with
  | nil => exact h
  | cons s p ih =>
    rw [resolveFrom] at h ⊢
    split at h
    · exact ih h _
    · cases h

theorem resolveFrom_cons_eq_ok {consumed : Path} : resolveFrom consumed node (s :: p) = .ok next ↔
    ∃ child, node.step s = .ok child ∧ resolveFrom consumed child p = .ok next := by
  rw [resolveFrom]
  cases node.step s with
  | ok child => simpa using ⟨fun h => resolveFrom_any h _, fun h => resolveFrom_any h _⟩
  | error e => simp

theorem resolveFrom_append_eq_ok {consumed q : Path} :
    resolveFrom consumed node (p ++ q) = .ok next ↔
      ∃ mid, resolveFrom consumed node p = .ok mid ∧ resolveFrom consumed mid q = .ok next := by
  induction p generalizing node with
  | nil => simp [resolveFrom]
  | cons s p ih =>
    simp only [List.cons_append, resolveFrom_cons_eq_ok, ih]
    exact ⟨fun ⟨child, hs, mid, hp, hq⟩ => ⟨mid, ⟨child, hs, hp⟩, hq⟩,
      fun ⟨mid, ⟨child, hs, hp⟩, hq⟩ => ⟨child, hs, mid, hp, hq⟩⟩

/-- A path that resolves leads to a well-formed node, and its type where the types lead. -/
theorem resolveFrom_ok {consumed : Path} (hw : node.WellFormed)
    (h : resolveFrom consumed node p = .ok next) :
    node.ty.atPath p = .ok next.ty ∧ next.WellFormed := by
  induction p generalizing node consumed with
  | nil => cases h; exact ⟨rfl, hw⟩
  | cons s p ih =>
    rw [resolveFrom] at h
    split at h
    · next child hs =>
      obtain ⟨hp, hnext⟩ := ih (hw.step hs) h
      have ht := step_agrees hw s
      rw [hs] at ht
      rw [Ty.atPath, ← ht]
      exact ⟨hp, hnext⟩
    · cases h

/-- A path that does not resolve has a first step that does not apply, to the types as well. -/
theorem resolveFrom_error {consumed : Path} {e : ResolveError} (hw : node.WellFormed)
    (h : resolveFrom consumed node p = .error e) :
    ∃ taken failed after source t, p = taken ++ failed :: after ∧
      e = .step (consumed ++ taken) failed after source ∧ node.ty.atPath taken = .ok t ∧
      t.step failed = .error source := by
  induction p generalizing node consumed with
  | nil => cases h
  | cons s p ih =>
    have ht := step_agrees hw s
    rw [resolveFrom] at h
    split at h
    · next child hs =>
      rw [hs] at ht
      obtain ⟨taken, failed, after, source, t, rfl, rfl, htaken, hfailed⟩ := ih (hw.step hs) h
      refine ⟨s :: taken, failed, after, source, t, rfl, ?_, ?_, hfailed⟩
      · rw [List.append_assoc]; rfl
      · rw [Ty.atPath, ← ht]; exact htaken
    · next source hs =>
      rw [hs] at ht
      cases h
      exact ⟨[], s, p, source, node.ty, rfl, by rw [List.append_nil], rfl, ht.symm⟩

end SchemaNode

namespace Schema

variable {schema : Schema} {p : Path}

theorem nodeAt_concat {s : PathStep} {node : SchemaNode} : schema.nodeAt (p ++ [s]) = .ok node ↔
    ∃ mid, schema.nodeAt p = .ok mid ∧ mid.step s = .ok node := by
  refine SchemaNode.resolveFrom_append_eq_ok.trans (exists_congr fun mid => and_congr_right ?_)
  intro _
  rw [SchemaNode.resolveFrom_cons_eq_ok]
  exact ⟨fun ⟨child, hs, hchild⟩ => by cases hchild; exact hs, fun hs => ⟨node, hs, rfl⟩⟩

theorem WellFormed.nodeAt {node : SchemaNode} (h : schema.WellFormed)
    (hn : schema.nodeAt p = .ok node) : schema.ty.atPath p = .ok node.ty ∧ node.WellFormed := by
  have hroot : SchemaNode.WellFormed (.root schema) := h
  exact SchemaNode.resolveFrom_ok hroot hn

theorem typeAt_eq_ok (h : schema.WellFormed) {t : Ty} (ht : schema.typeAt p = .ok t) :
    schema.ty.atPath p = .ok t ∧ t.WellFormed := by
  obtain ⟨node, hnode, hpure⟩ := Except.bind_eq_ok.1 ht
  cases hpure
  obtain ⟨hty, hnode⟩ := h.nodeAt hnode
  exact ⟨hty, hnode.ty⟩

theorem typeAt_eq_error {e : ResolveError} (h : schema.WellFormed)
    (he : schema.typeAt p = .error e) :
    ∃ consumed failed after source t, p = consumed ++ failed :: after ∧
      e = .step consumed failed after source ∧ schema.ty.atPath consumed = .ok t ∧
      t.step failed = .error source := by
  cases hnode : schema.nodeAt p with
  | ok node => rw [typeAt, hnode] at he; cases he
  | error e' =>
    rw [typeAt, hnode] at he
    cases he
    have hroot : SchemaNode.WellFormed (.root schema) := h
    exact SchemaNode.resolveFrom_error hroot hnode

theorem typeAt_eq_ok_iff (h : schema.WellFormed) {t : Ty} :
    schema.typeAt p = .ok t ↔ schema.ty.atPath p = .ok t := by
  refine ⟨fun ht => (typeAt_eq_ok h ht).1, ?_⟩
  intro ht
  cases hp : schema.typeAt p with
  | ok u =>
    have hu := (typeAt_eq_ok h hp).1
    rw [ht] at hu
    cases hu
    rfl
  | error e =>
    obtain ⟨consumed, failed, after, source, u, rfl, _, hc, hf⟩ := typeAt_eq_error h hp
    rw [Ty.atPath_of_error hc hf] at ht
    cases ht

/-- Resolving a path through the descriptors of a built schema leads to a type exactly if the types
lead there. Otherwise it stops after the longest initial part that resolves, with the error of the
types at the next step. -/
theorem Built.typeAt_agrees (h : schema.Built) (p : Path) :
    (∀ t, schema.typeAt p = .ok t ↔ schema.ty.atPath p = .ok t) ∧
      ∀ e, schema.typeAt p = .error e → ∃ consumed failed after source t,
        e = .step consumed failed after source ∧ e.path = p ∧
        consumed ++ e.remaining = p ∧ e.remaining = failed :: after ∧
        (∀ q, q <+: p → ((∃ u, schema.typeAt q = .ok u) ↔ q <+: consumed)) ∧
        schema.ty.atPath consumed = .ok t ∧ t.step failed = .error source ∧
        schema.ty.atPath p = .error source := by
  have hw := h.wellFormed
  refine ⟨fun t => typeAt_eq_ok_iff hw, ?_⟩
  intro e he
  obtain ⟨consumed, failed, after, source, t, rfl, rfl, hc, hf⟩ := typeAt_eq_error hw he
  refine ⟨consumed, failed, after, source, t, rfl, rfl, rfl, rfl, fun q hq => ?_, hc, hf,
    Ty.atPath_of_error hc hf⟩
  simp only [typeAt_eq_ok_iff hw]
  exact Ty.exists_atPath_iff hc hf hq

/-- A disk of a server has a size and no colour, in the schema and so in the type. -/
theorem typeAt_agrees_disk :
    Server.schema.Built ∧
      Server.schema.ty.atPath [.name "disks", .index 3, .name "size"] = .ok .number ∧
      Server.schema.ty.atPath [.name "disks", .index 3, .name "colour"] =
        .error (.noSuchAttribute "colour" (.object [("label", .string), ("size", .number)])) := by
  have hagrees := Built.typeAt_agrees Server.schema_built
  refine ⟨Server.schema_built, ((hagrees _).1 _).1 rfl, ?_⟩
  obtain ⟨consumed, failed, after, source, t, he, _, _, _, _, _, _, hp⟩ :=
    (hagrees [.name "disks", .index 3, .name "colour"]).2 _ rfl
  cases he
  exact hp

end Schema
end ResourceSchema
