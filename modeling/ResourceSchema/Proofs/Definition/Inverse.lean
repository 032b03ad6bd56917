import ResourceSchema.Proofs.Definition.Build
import ResourceSchema.Proofs.Schema.Shape

/-!
# Definitions and schemas are inverse forms

The definition of a built schema keeps the rules at every depth, so it is built again, and the
schema it gives is the same with all members in their order; only behaviour is not part of a
definition. The other way round nothing is lost (`SchemaDef.build_inverse`).
-/

namespace ResourceSchema

/-! ## Without behaviour -/

namespace Attribute

mutual

/-- The attribute without behaviour at any depth. -/
def plain : Attribute → Attribute
  | .leaf t traits => .leaf t { traits with behaviour := .none }
  | .group mode members traits =>
    .group mode (plainMembers members) { traits with behaviour := .none }

def plainMembers : List (String × Attribute) → List (String × Attribute)
  | [] => []
  | (name, a) :: rest => (name, a.plain) :: plainMembers rest

end

@[simp] theorem plainMembers_eq_map (members : List (String × Attribute)) :
    plainMembers members = members.map fun m => (m.1, m.2.plain) :=
  eq_map_of_cons rfl (fun _ _ => rfl) members

end Attribute

namespace Block

mutual

/-- The block without behaviour at any depth. -/
def plain : Block → Block
  | ⟨nesting, attributes, blocks, traits⟩ =>
    ⟨nesting, Attribute.plainMembers attributes, plainMembers blocks,
      { traits with behaviour := .none }⟩

def plainMembers : List (String × Block) → List (String × Block)
  | [] => []
  | (name, b) :: rest => (name, b.plain) :: plainMembers rest

end

@[simp] theorem plainMembers_eq_map (members : List (String × Block)) :
    plainMembers members = members.map fun m => (m.1, m.2.plain) :=
  eq_map_of_cons rfl (fun _ _ => rfl) members

end Block

/-- The schema without behaviour at any depth; all members are kept in their order. -/
def Schema.plain (s : Schema) : Schema :=
  { s with
    attributes := Attribute.plainMembers s.attributes
    blocks := Block.plainMembers s.blocks }

/-! ## Equality passes over behaviour -/

section Same

variable {α : Type} {R : α → α → Prop} {f : α → α} {members : List (String × α)}

/-- Members that are changed to equal ones are covered by what they were. -/
theorem covered_map (hd : (Keyed.keys members).Nodup) (h : ∀ e ∈ members, R (f e.2) e.2) :
    Covered R (members.map fun e => (e.1, f e.2)) members := by
  intro e he
  obtain ⟨m, hm, rfl⟩ := List.mem_map.1 he
  exact ⟨m.2, Keyed.lookup_of_mem hd hm, h m hm⟩

end Same

theorem Attribute.WellFormed.same_plain {a : Attribute} (ha : a.WellFormed) :
    a.plain.same a = true := by
  induction ha with
  | leaf _ _ => simp [plain, same]
  | group hn _ _ ih =>
    have hmembers := covered_map (R := fun a b => a.same b = true) (f := plain) hn.1 ih
    simpa [plain, same] using hmembers

theorem Block.WellFormed.same_plain {b : Block} (hb : b.WellFormed) : b.plain.same b = true := by
  induction hb with
  | mk hn ha _ _ ih =>
    obtain ⟨hna, hnb, _⟩ := List.nodup_append'.1 hn.1
    have hattributes := covered_map (R := fun a b => a.same b = true) (f := Attribute.plain) hna
      fun e he => (ha e he).same_plain
    have hblocks := covered_map (R := fun a b => a.same b = true) (f := plain) hnb ih
    simp [plain, same, hattributes, hblocks]

theorem Schema.WellFormed.same_plain {s : Schema} (hs : s.WellFormed) : s.plain.same s = true := by
  obtain ⟨hna, hnb, _⟩ := List.nodup_append'.1 hs.names.1
  have hattributes := covered_map (R := fun a b => a.same b = true) (f := Attribute.plain) hna
    fun e he => (hs.attributes e he).same_plain
  have hblocks := covered_map (R := fun a b => a.same b = true) (f := Block.plain) hnb
    fun e he => (hs.blocks e he).same_plain
  simp [plain, same, hattributes, hblocks]

/-! ## Nothing is found where names are in order -/

theorem MemberNames.not_break {names : List String} {e : SchemaError} (h : MemberNames names) :
    ¬NamesBreak names e := by
  intro hb
  cases hb with
  | invalid hn hname => exact hname (isMemberName_iff.1 (h.2 _ hn))
  | duplicate hcount =>
    exact absurd (List.nodup_iff_count_le_one.1 h.1 _) (Nat.not_le.2 hcount)

theorem Members.build_ofBuilt {α : Type} {members : List (String × α)}
    (h : MemberNames (Keyed.keys members)) : build (ofBuilt members) = .ok members := by
  cases hbuild : build (ofBuilt members) with
  | ok result => rw [(build_ofBuilt_eq_ok hbuild).1]
  | error e => exact absurd (build_ofBuilt_eq_error hbuild) h.not_break

theorem buildLevel_of_memberNames {attributes : List (String × Attribute)}
    {blocks : List (String × Block)}
    (h : MemberNames (Keyed.keys attributes ++ Keyed.keys blocks)) :
    buildLevel attributes blocks = .ok (attributes, blocks) := by
  cases hbuild : buildLevel attributes blocks with
  | ok level =>
    obtain ⟨ha, hb, _⟩ := buildLevel_eq_ok hbuild
    rw [← ha, ← hb]
  | error e => exact absurd (buildLevel_eq_error hbuild) h.not_break

theorem mapM_buildNamed_of_forall {α β γ : Type} {f : Path → β → Except SchemaError γ}
    {definition : α → β} {built : α → γ} {members : List (String × α)} (path : Path)
    (h : ∀ m ∈ members, ∀ path, f path (definition m.2) = .ok (built m.2)) :
    (members.map fun m => (m.1, definition m.2)).mapM (buildNamed f path) =
      .ok (members.map fun m => (m.1, built m.2)) := by
  rw [Except.mapM_eq_ok, List.forall₂_map_left_iff, List.forall₂_map_right_iff, List.forall₂_same]
  intro m hm
  rw [buildNamed, h m hm]
  rfl

namespace AttributeDraft

variable {traits : AttributeTraits}

theorem build_leaf {t : Ty} (hf : traits.flags.Valid) :
    build ⟨some t, none, traits⟩ = .ok (.leaf t traits) := by
  simp only [build, pure_bind, hf.1, hf.2, Bool.not_true, Bool.false_eq_true, if_false]

theorem build_group {mode : NestingMode} {members : Members Attribute}
    {result : List (String × Attribute)} (hm : members.build = .ok result)
    (hf : traits.flags.Valid) :
    build ⟨none, some (mode, members), traits⟩ = .ok (.group mode result traits) := by
  simp only [build, hm, hf.1, hf.2, Bool.not_true, Bool.false_eq_true, if_false]
  rfl

end AttributeDraft

theorem BlockDef.draft_build_eq_ok {d : BlockDef} {attributes : List (String × Attribute)}
    {blocks : List (String × Block)}
    (hn : MemberNames (Keyed.keys attributes ++ Keyed.keys blocks)) (ht : d.traits.Valid) :
    (d.draft attributes blocks).build = .ok ⟨d.nesting, attributes, blocks, d.traits⟩ := by
  have hbounds : (0 < d.maxItems && d.maxItems < d.minItems) = false := by
    rcases ht with h0 | hle
    · have h0 : d.maxItems = 0 := h0
      simp [h0]
    · have hle : d.minItems ≤ d.maxItems := hle
      simp [UInt64.not_lt.2 hle]
  rw [draft_build_eq, buildLevel_of_memberNames hn]
  exact if_neg (Bool.eq_false_iff.1 hbounds)

/-! ## Definitions of what was built are built -/

theorem Attribute.WellFormed.build_ofAttribute {a : Attribute} (ha : a.WellFormed) (path : Path) :
    (AttributeDef.ofAttribute a).build path = .ok a.plain := by
  induction ha generalizing path with
  | leaf _ hf =>
    rw [AttributeDef.build_eq]
    exact Except.mapError_eq_ok.2 (AttributeDraft.build_leaf hf)
  | @group mode members traits hn _ hf ih =>
    have hnames : MemberNames (Keyed.keys (plainMembers members)) := by simpa using hn
    rw [AttributeDef.build_eq, AttributeDef.ofAttribute, DefNode.attributes, Option.elim,
      AttributeDef.buildMembers_eq_mapM, AttributeDef.ofMembers_eq_map,
      mapM_buildNamed_of_forall path ih, ← plainMembers_eq_map]
    exact Except.mapError_eq_ok.2
      (AttributeDraft.build_group (Members.build_ofBuilt hnames) hf)

theorem Block.WellFormed.build_ofBlock {b : Block} (hb : b.WellFormed) (path : Path) :
    (BlockDef.ofBlock b).build path = .ok b.plain := by
  induction hb generalizing path with
  | @mk nesting attributes blocks traits hn ha _ ht ih =>
    have hnames : MemberNames (Keyed.keys (Attribute.plainMembers attributes) ++
        Keyed.keys (plainMembers blocks)) := by simpa using hn
    have hattributes := mapM_buildNamed_of_forall path fun m hm => (ha m hm).build_ofAttribute
    rw [BlockDef.build_eq, BlockDef.ofBlock, AttributeDef.buildMembers_eq_mapM,
      AttributeDef.ofMembers_eq_map, hattributes, BlockDef.buildMembers_eq_mapM,
      BlockDef.ofMembers_eq_map, mapM_buildNamed_of_forall path ih,
      ← Attribute.plainMembers_eq_map, ← plainMembers_eq_map]
    exact Except.mapError_eq_ok.2 (BlockDef.draft_build_eq_ok hnames ht)

theorem Schema.WellFormed.build_ofSchema {s : Schema} (hs : s.WellFormed) :
    (SchemaDef.ofSchema s).build = .ok s.plain := by
  have hnames : MemberNames (Keyed.keys (Attribute.plainMembers s.attributes) ++
      Keyed.keys (Block.plainMembers s.blocks)) := by
    simpa using hs.names
  have hlevel := buildLevel_of_memberNames hnames
  rw [SchemaDef.build_eq, SchemaDef.ofSchema, AttributeDef.buildMembers_eq_mapM,
    AttributeDef.ofMembers_eq_map, BlockDef.buildMembers_eq_mapM, BlockDef.ofMembers_eq_map,
    mapM_buildNamed_of_forall [] fun m hm => (hs.attributes m hm).build_ofAttribute,
    mapM_buildNamed_of_forall [] fun m hm => (hs.blocks m hm).build_ofBlock,
    ← Attribute.plainMembers_eq_map, ← Block.plainMembers_eq_map]
  exact Except.bind_eq_ok.2 ⟨_, rfl, Except.bind_eq_ok.2 ⟨_, rfl,
    Except.bind_eq_ok.2 ⟨_, hlevel, rfl⟩⟩⟩

/-- The definition of a built schema is built to an equal schema, with all members in their order.
The definition of what a definition is built to is the definition. -/
theorem SchemaDef.build_inverse :
    (∀ s : Schema, s.Built → (ofSchema s).build = .ok s.plain ∧ s.plain.same s = true) ∧
      ∀ d s, d.build = .ok s → ofSchema s = d :=
  ⟨fun _ hs => ⟨hs.wellFormed.build_ofSchema, hs.wellFormed.same_plain⟩,
    fun _ _ h => (build_eq_ok h).2⟩

/-- The check of the name is not part of the definition. -/
theorem SchemaDef.build_inverse_reordered :
    Server.reorderedSchema.Built ∧ (ofSchema Server.reorderedSchema).build =
        .ok Server.reorderedSchema.plain ∧
      Server.reorderedSchema.plain.same Server.reorderedSchema = true ∧
      ofSchema Server.reorderedSchema.plain = ofSchema Server.reorderedSchema := by
  obtain ⟨hbuilds, hkeeps⟩ := build_inverse
  obtain ⟨hbuild, hsame⟩ := hbuilds Server.reorderedSchema Server.reorderedSchema_built
  exact ⟨Server.reorderedSchema_built, hbuild, hsame, hkeeps _ _ hbuild⟩

end ResourceSchema
