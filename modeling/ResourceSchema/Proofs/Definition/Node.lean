import ResourceSchema.Definition.Basic
import ResourceSchema.Proofs.Schema.Built

/-!
# Nodes of definitions

A definition is a tree of nodes: the schema, its attributes and blocks, and what is nested in these.
The names on the way to a node are its path. For each node there are rules, and for each rule an
error that reports what breaks it (`DefNode.Lawful.not_breaks`).
-/

namespace ResourceSchema

/-- A node of a definition. -/
inductive DefNode where
  | schema (d : SchemaDef)
  | attr (d : AttributeDef)
  | block (d : BlockDef)

namespace DefNode

/-- The attributes that are declared at a node. -/
def attributes : DefNode → List (String × AttributeDef)
  | .schema d => d.attributes
  | .attr d => d.nested.elim [] fun group => group.2
  | .block d => d.attributes

/-- The blocks that are declared at a node. -/
def blocks : DefNode → List (String × BlockDef)
  | .schema d => d.blocks
  | .attr _ => []
  | .block d => d.blocks

/-- The names that are declared at a node. -/
def names (n : DefNode) : List String := Keyed.keys n.attributes ++ Keyed.keys n.blocks

/-- The nodes that a path of names leads to. -/
inductive LeadsTo : DefNode → Path → DefNode → Prop
  | here {n : DefNode} : LeadsTo n [] n
  | attr {n k : DefNode} {e : String × AttributeDef} {p : Path} (he : e ∈ n.attributes)
      (h : LeadsTo (.attr e.2) p k) : LeadsTo n (.name e.1 :: p) k
  | block {n k : DefNode} {e : String × BlockDef} {p : Path} (he : e ∈ n.blocks)
      (h : LeadsTo (.block e.2) p k) : LeadsTo n (.name e.1 :: p) k

end DefNode

/-! ## Induction -/

/-- What holds of an attribute if it holds of those nested in it holds of all. -/
theorem AttributeDef.induct {P : AttributeDef → Prop}
    (h : ∀ d, (∀ e ∈ (DefNode.attr d).attributes, P e.2) → P d) (d : AttributeDef) : P d :=
  @AttributeDef.rec P (fun nested => ∀ e ∈ nested.elim [] (fun group => group.2), P e.2)
    (fun group => ∀ e ∈ group.2, P e.2) (fun members => ∀ e ∈ members, P e.2) (fun e => P e.2)
    (fun _ nested _ _ ih => h _ ih) (by simp) (fun _ ih => ih) (fun _ _ ih => ih) (by simp)
    (fun _ _ he hrest => List.forall_mem_cons.2 ⟨he, hrest⟩) (fun _ _ hd => hd) d

/-- What holds of a block if it holds of the blocks in it holds of all. -/
theorem BlockDef.induct {P : BlockDef → Prop}
    (h : ∀ d, (∀ e ∈ (DefNode.block d).blocks, P e.2) → P d) (d : BlockDef) : P d :=
  @BlockDef.rec P (fun members => ∀ e ∈ members, P e.2) (fun e => P e.2)
    (fun _ _ _ _ _ _ ih => h _ ih) (by simp)
    (fun _ _ he hrest => List.forall_mem_cons.2 ⟨he, hrest⟩) (fun _ _ hd => hd) d

/-! ## Rules -/

/-- A name of lowercase ASCII letters, digits and underscores. -/
def IsIdentifier (name : String) : Prop :=
  name ≠ "" ∧ ∀ c ∈ name.toList, ('a' ≤ c ∧ c ≤ 'z') ∨ ('0' ≤ c ∧ c ≤ '9') ∨ c = '_'

theorem isMemberName_iff {name : String} : isMemberName name = true ↔ IsIdentifier name := by
  have hlower (c : Char) : c.isLower = true ↔ 'a' ≤ c ∧ c ≤ 'z' :=
    Bool.and_eq_true_iff.trans (and_congr decide_eq_true_iff decide_eq_true_iff)
  have hdigit (c : Char) : c.isDigit = true ↔ '0' ≤ c ∧ c ≤ '9' :=
    Bool.and_eq_true_iff.trans (and_congr decide_eq_true_iff decide_eq_true_iff)
  simp only [isMemberName, IsIdentifier, Bool.and_eq_true, Bool.not_eq_true',
    String.isEmpty_eq_false_iff, List.all_eq_true, Bool.or_eq_true, hlower, hdigit, beq_iff_eq,
    or_assoc]

namespace DefNode

variable {n k : DefNode} {p : Path} {e : SchemaError}

/-- The rules for one node. -/
structure Lawful (n : DefNode) : Prop where
  /-- An attribute has a type or a group, and not both. -/
  kind : ∀ d, n = .attr d → d.ty.isSome ≠ d.nested.isSome
  exclusive : ∀ d, n = .attr d → ¬(d.flags.required = true ∧ d.flags.optional = true)
  constrained : ∀ d, n = .attr d →
    d.flags.required = true ∨ d.flags.optional = true ∨ d.flags.computed = true
  names : ∀ name ∈ n.names, IsIdentifier name
  disjoint : ∀ name ∈ Keyed.keys n.attributes, name ∉ Keyed.keys n.blocks
  /-- Attributes are mentioned once, as they are after reading, and so are blocks. -/
  distinct : (Keyed.keys n.attributes).Nodup ∧ (Keyed.keys n.blocks).Nodup
  /-- The minimum of a block is within its maximum, if there is one. -/
  bounds : ∀ d, n = .block d → d.maxItems = 0 ∨ d.minItems ≤ d.maxItems

/-- A node breaks the rule that an error is about, with the name or the bounds in the error. -/
inductive Breaks : DefNode → SchemaError → Prop
  | typeXorNested {d : AttributeDef} {p : Path} (h : d.ty.isSome = d.nested.isSome) :
      Breaks (.attr d) (.typeXorNested p)
  | requiredAndOptional {d : AttributeDef} {p : Path} (hr : d.flags.required = true)
      (ho : d.flags.optional = true) : Breaks (.attr d) (.requiredAndOptional p)
  | missingConstraint {d : AttributeDef} {p : Path} (hr : d.flags.required = false)
      (ho : d.flags.optional = false) (hc : d.flags.computed = false) :
      Breaks (.attr d) (.missingConstraint p)
  | invalidName {n : DefNode} {p : Path} {name : String} (hn : name ∈ n.names)
      (h : ¬IsIdentifier name) : Breaks n (.invalidName p name)
  | duplicateName {n : DefNode} {p : Path} {name : String} (h : 2 ≤ n.names.count name) :
      Breaks n (.duplicateName p name)
  | invalidItemBounds {d : BlockDef} {p : Path} (h0 : d.maxItems ≠ 0)
      (h : d.maxItems < d.minItems) :
      Breaks (.block d) (.invalidItemBounds p d.minItems d.maxItems)

theorem Lawful.nodup_names (h : n.Lawful) : n.names.Nodup :=
  List.nodup_append'.2 ⟨h.distinct.1, h.distinct.2, h.disjoint⟩

/-- A node that keeps the rules breaks none that an error is about. -/
theorem Lawful.not_breaks (h : n.Lawful) : ¬n.Breaks e := by
  intro hb
  cases hb with
  | typeXorNested heq => exact h.kind _ rfl heq
  | requiredAndOptional hr ho => exact h.exclusive _ rfl ⟨hr, ho⟩
  | missingConstraint hr ho hc => simpa [hr, ho, hc] using h.constrained _ rfl
  | invalidName hn hname => exact hname (h.names _ hn)
  | duplicateName hcount =>
    exact absurd hcount (Nat.not_le.2 (Nat.lt_succ_of_le (List.nodup_iff_count_le_one.1
      h.nodup_names _)))
  | invalidItemBounds h0 hlt =>
    exact (h.bounds _ rfl).elim h0 fun hle => UInt64.not_lt.2 hle hlt

/-- Something holds of a node and of every node below it. -/
def All (P : DefNode → Prop) (n : DefNode) : Prop := ∀ p k, n.LeadsTo p k → P k

theorem all_iff {P : DefNode → Prop} : n.All P ↔ P n ∧
    (∀ e ∈ n.attributes, (DefNode.attr e.2).All P) ∧
      ∀ e ∈ n.blocks, (DefNode.block e.2).All P := by
  constructor
  · exact fun h => ⟨h _ _ .here, fun e he p k hk => h _ k (.attr he hk),
      fun e he p k hk => h _ k (.block he hk)⟩
  · rintro ⟨hown, hattributes, hblocks⟩ p k hk
    cases hk with
    | here => exact hown
    | attr he hk => exact hattributes _ he _ _ hk
    | block he hk => exact hblocks _ he _ _ hk

end DefNode
end ResourceSchema
