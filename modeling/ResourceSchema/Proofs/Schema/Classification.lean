import Mathlib.Data.List.Induction
import ResourceSchema.Proofs.Schema.Kind
import ResourceSchema.Proofs.Schema.Member

/-!
# What a path leads to

A path that resolves leads to an attribute, to a block, inside the value of a leaf attribute, or to
an object without a name of its own: the resource itself or an element of a collection. The steps of
the path tell which (`Schema.existsUnique_classified`). Below a leaf all steps are taken by types;
elsewhere a name leads to an attribute or to a block, and each other step to an element.
-/

namespace ResourceSchema

/-- What a path may lead to. -/
inductive Classification where
  | attribute
  | block
  | insideLeaf
  | nameless

def Classification.IsMember : Classification → Prop
  | .attribute | .block => True
  | .insideLeaf | .nameless => False

variable {schema : Schema} {s : PathStep} {p q : Path} {t : Ty}

/-! ## One step -/

namespace SchemaNode

variable {node next : SchemaNode}

def classification : SchemaNode → Classification
  | .attr _ => .attribute
  | .block _ => .block
  | .type _ => .insideLeaf
  | .root _ | .groupElement _ | .blockElement _ => .nameless

/-- Steps from the node are steps through a type. -/
def AtLeaf : SchemaNode → Prop
  | .attr (.leaf _ _) | .type _ => True
  | _ => False

theorem classification_member {attributes : List (String × Attribute)}
    {blocks : List (String × Block)} (h : member attributes blocks s = .ok next) :
    next.classification.IsMember := by
  obtain ⟨name, m, rfl, -, rfl⟩ := member_eq_ok_iff.1 h
  cases m <;> trivial

/-- A step from a leaf or from inside one leads inside it. -/
theorem classification_of_atLeaf (h : node.AtLeaf) (hs : node.step s = .ok next) :
    next.classification = .insideLeaf := by
  have htype : ∀ t : Ty, (t.step s).map type = .ok next → next.classification = .insideLeaf := by
    intro t ht
    obtain ⟨u, -, rfl⟩ := Except.map_eq_ok.1 ht
    rfl
  cases node with
  | attr a =>
    cases a with
    | leaf t traits => exact htype t hs
    | group mode members traits => cases h
  | type t => exact htype t hs
  | _ => cases h

/-- Elsewhere a name leads to an attribute or to a block. -/
theorem classification_of_name (h : ¬node.AtLeaf) (hname : s.kind = .name)
    (hs : node.step s = .ok next) : next.classification.IsMember := by
  have hsingle : ∀ {mode : NestingMode} {target : Ty} {element : SchemaNode}
      {attributes : List (String × Attribute)} {blocks : List (String × Block)},
      collected mode target element (member attributes blocks s) s = .ok next →
        next.classification.IsMember := by
    intro mode target element attributes blocks h
    cases mode <;> cases s <;> cases hname
    case single => rw [collected] at h; exact classification_member h
    all_goals cases h
  cases node with
  | attr a =>
    cases a with
    | leaf t traits => exact absurd trivial h
    | group mode members traits => exact hsingle hs
  | block b => exact hsingle hs
  | type t => exact absurd trivial h
  | root schema => exact classification_member hs
  | groupElement members => exact classification_member hs
  | blockElement b => exact classification_member hs

/-- Elsewhere a step that is no name leads to an element. -/
theorem classification_of_ne_name (h : ¬node.AtLeaf) (hname : s.kind ≠ .name)
    (hs : node.step s = .ok next) : next.classification = .nameless := by
  have helement := ((step_eq_ok_iff hname).1 hs).2.2
  cases node with
  | attr a =>
    cases a with
    | leaf t traits => exact absurd trivial h
    | group mode members traits => cases helement; rfl
  | block b => cases helement; rfl
  | type t => exact absurd trivial h
  | _ => cases helement

theorem insideLeaf_iff (hs : node.step s = .ok next) :
    next.classification = .insideLeaf ↔ node.AtLeaf := by
  refine ⟨fun h => ?_, fun h => classification_of_atLeaf h hs⟩
  by_contra hleaf
  by_cases hname : s.kind = .name
  · have hmember := classification_of_name hleaf hname hs
    rw [h] at hmember
    exact hmember
  · rw [classification_of_ne_name hleaf hname hs] at h
    cases h

theorem nameless_iff (hs : node.step s = .ok next) :
    next.classification = .nameless ↔ s.kind ≠ .name ∧ ¬node.AtLeaf := by
  refine ⟨fun h => ?_, fun ⟨hname, hleaf⟩ => classification_of_ne_name hleaf hname hs⟩
  have hleaf : ¬node.AtLeaf := by
    intro hleaf
    rw [classification_of_atLeaf hleaf hs] at h
    cases h
  refine ⟨fun hname => ?_, hleaf⟩
  have hmember := classification_of_name hleaf hname hs
  rw [h] at hmember
  exact hmember

theorem atLeaf_iff : node.AtLeaf ↔
    node.classification = .insideLeaf ∨ ∃ t traits, node = .attr (.leaf t traits) := by
  cases node with
  | attr a => cases a <;> simp [AtLeaf, classification]
  | _ => simp [AtLeaf, classification]

end SchemaNode

/-! ## Whole paths -/

namespace Schema

variable {node mid : SchemaNode}

/-- A path that leads to a leaf attribute is a proper part of the path. -/
def BelowLeaf (schema : Schema) (p : Path) : Prop :=
  ∃ q t traits, q <+: p ∧ q ≠ p ∧ q ≠ [] ∧ schema.attributeAt q = .ok (.leaf t traits)

@[simp] theorem not_belowLeaf_nil : ¬schema.BelowLeaf [] := by
  rintro ⟨q, t, traits, hprefix, hne, -⟩
  exact hne (List.prefix_nil.1 hprefix)

theorem belowLeaf_concat (hmid : schema.nodeAt q = .ok mid) : schema.BelowLeaf (q ++ [s]) ↔
    schema.BelowLeaf q ∨ ∃ t traits, mid = .attr (.leaf t traits) := by
  constructor
  · rintro ⟨r, t, traits, hprefix, hne, hnil, hleaf⟩
    have hr := (List.prefix_concat_iff.1 hprefix).resolve_left hne
    by_cases hrq : r = q
    · subst hrq
      rw [attributeAt_eq_ok_iff, hmid] at hleaf
      exact .inr ⟨t, traits, Except.ok.inj hleaf⟩
    · exact .inl ⟨r, t, traits, hr, hrq, hnil, hleaf⟩
  · rintro (⟨r, t, traits, hprefix, hne, hnil, hleaf⟩ | ⟨t, traits, rfl⟩)
    · refine ⟨r, t, traits, hprefix.trans (List.prefix_append q [s]), ?_, hnil, hleaf⟩
      rintro rfl
      have hlength := hprefix.length_le
      rw [List.length_append, List.length_singleton] at hlength
      omega
    · refine ⟨q, t, traits, List.prefix_append q [s], by simp, ?_, attributeAt_eq_ok_iff.2 hmid⟩
      rintro rfl
      cases hmid

theorem belowLeaf_iff (hnode : schema.nodeAt p = .ok node) :
    schema.BelowLeaf p ↔ node.classification = .insideLeaf := by
  induction p using List.reverseRecOn generalizing node with
  | nil =>
    cases hnode
    exact iff_of_false not_belowLeaf_nil nofun
  | append_singleton q s ih =>
    obtain ⟨mid, hmid, hs⟩ := nodeAt_concat.1 hnode
    rw [belowLeaf_concat hmid, ih hmid, ← SchemaNode.atLeaf_iff, SchemaNode.insideLeaf_iff hs]

theorem nameless_iff_getLast? (hnode : schema.nodeAt p = .ok node) :
    node.classification = .nameless ↔
      p = [] ∨ (∃ s ∈ p.getLast?, s.kind ≠ .name) ∧ ¬schema.BelowLeaf p := by
  rcases List.eq_nil_or_concat' p with rfl | ⟨q, s, rfl⟩
  · cases hnode
    exact iff_of_true rfl (.inl rfl)
  · obtain ⟨mid, hmid, hs⟩ := nodeAt_concat.1 hnode
    rw [belowLeaf_iff hnode, SchemaNode.insideLeaf_iff hs, SchemaNode.nameless_iff hs]
    simp

/-- What is answered about a path that leads to values of a type, when it is resolved to an
attribute and to a block. -/
def Classified (schema : Schema) (p : Path) (t : Ty) : Classification → Prop
  | .attribute => ∃ a, schema.attributeAt p = .ok a ∧ a.ty = t
  | .block => (∃ b, schema.blockAt p = .ok b ∧ b.ty = t) ∧
      schema.attributeAt p = .error (.isBlock p)
  | .insideLeaf => schema.attributeAt p = .error (.insideAtomicAttribute p)
  | .nameless => ∃ description, schema.attributeAt p = .error (.isNotAttribute p description)

theorem classified_iff (hnode : schema.nodeAt p = .ok node) {c : Classification} :
    schema.Classified p node.ty c ↔ c = node.classification := by
  cases c <;> cases node <;>
    simp [Classified, attributeAt, blockAt, hnode, SchemaNode.classification, SchemaNode.ty,
      bind, Except.bind, pure, Except.pure]

theorem blockAt_eq_error_iff (hnode : schema.nodeAt p = .ok node) :
    schema.blockAt p = .error (.isNotBlock p) ↔ node.classification ≠ .block := by
  cases node <;>
    simp [blockAt, hnode, SchemaNode.classification, bind, Except.bind, pure, Except.pure]

/-- A path that resolves is classified in exactly one way. It is inside a leaf exactly if a proper
part of it leads to a leaf attribute, and without a name of its own exactly if it is empty or its
last step is no name and it is not inside a leaf. Unless it leads to a block, it is no path to a
block. -/
theorem existsUnique_classified (ht : schema.typeAt p = .ok t) :
    (∃! c, schema.Classified p t c) ∧
      (schema.Classified p t .insideLeaf ↔ schema.BelowLeaf p) ∧
      (schema.Classified p t .nameless ↔
        p = [] ∨ (∃ s ∈ p.getLast?, s.kind ≠ .name) ∧ ¬schema.BelowLeaf p) ∧
      (schema.blockAt p = .error (.isNotBlock p) ↔ ¬schema.Classified p t .block) := by
  obtain ⟨node, hnode, hty⟩ := Except.bind_eq_ok.1 ht
  obtain rfl := Except.ok.inj hty
  simp only [classified_iff hnode]
  refine ⟨⟨node.classification, rfl, fun c hc => hc⟩, ?_, ?_, ?_⟩
  · rw [belowLeaf_iff hnode, eq_comm]
  · rw [← nameless_iff_getLast? hnode, eq_comm]
  · rw [blockAt_eq_error_iff hnode, ne_comm]

/-- A disk is an element of a list and has no name of its own, whatever names its parts have. -/
theorem existsUnique_classified_disk :
    let p : Path := [.name "disks", .index 3]
    let t : Ty := .object [("label", .string), ("size", .number)]
    Server.schema.typeAt p = .ok t ∧
      (∃! c, Server.schema.Classified p t c) ∧ Server.schema.Classified p t .nameless ∧
      Server.schema.blockAt p = .error (.isNotBlock p) := by
  intro p t
  have ht : Server.schema.typeAt p = .ok t := rfl
  obtain ⟨hunique, -, -, hblock⟩ := existsUnique_classified ht
  refine ⟨ht, hunique, ⟨_, rfl⟩, hblock.2 ?_⟩
  rintro ⟨⟨b, hb, -⟩, -⟩
  cases hb

end Schema
end ResourceSchema
