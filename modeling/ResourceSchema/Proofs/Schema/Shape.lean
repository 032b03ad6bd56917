import ResourceSchema.Proofs.Schema.Upgrade

/-!
# Schemas of one shape

Two schemas have the same shape if they agree at every depth in all but the behaviour of members and
their order. Equality goes through the old members and compares counts, differences go through the
old members and then look for new ones. Either way nothing is passed over: equality holds and
differences are missing exactly for schemas of the same shape (`Schema.Built.diff_eq_nil_iff`).
-/

namespace ResourceSchema

/-! ## Shapes -/

/-- Members with the same names, where those of one name are related. -/
structure SameMembers {α : Type} (R : α → α → Prop) (old new : List (String × α)) : Prop where
  names : ∀ name, name ∈ Keyed.keys old ↔ name ∈ Keyed.keys new
  related : ∀ name a b, old.lookup name = some a → new.lookup name = some b → R a b

/-- Attributes with the same flags and texts that hold values of one type, or groups of one mode
whose members have the same shape by name. -/
inductive Attribute.SameShape : Attribute → Attribute → Prop
  | leaf {t : Ty} {traits traits' : AttributeTraits} (hf : traits.flags = traits'.flags)
      (hd : traits.docs = traits'.docs) : SameShape (.leaf t traits) (.leaf t traits')
  | group {mode : NestingMode} {old new : List (String × Attribute)}
      {traits traits' : AttributeTraits}
      (hn : ∀ name, name ∈ Keyed.keys old ↔ name ∈ Keyed.keys new)
      (hm : ∀ name a b, old.lookup name = some a → new.lookup name = some b → SameShape a b)
      (hf : traits.flags = traits'.flags) (hd : traits.docs = traits'.docs) :
      SameShape (.group mode old traits) (.group mode new traits')

/-- Blocks with the same nesting, bounds and texts whose members have the same shape by name. -/
inductive Block.SameShape : Block → Block → Prop
  | mk {nesting : BlockNesting} {oldAttributes newAttributes : List (String × Attribute)}
      {oldBlocks newBlocks : List (String × Block)} {traits traits' : BlockTraits}
      (ha : SameMembers Attribute.SameShape oldAttributes newAttributes)
      (hn : ∀ name, name ∈ Keyed.keys oldBlocks ↔ name ∈ Keyed.keys newBlocks)
      (hb : ∀ name b c, oldBlocks.lookup name = some b → newBlocks.lookup name = some c →
        SameShape b c)
      (hmin : traits.minItems = traits'.minItems) (hmax : traits.maxItems = traits'.maxItems)
      (hd : traits.docs = traits'.docs) :
      SameShape ⟨nesting, oldAttributes, oldBlocks, traits⟩
        ⟨nesting, newAttributes, newBlocks, traits'⟩

/-- Schemas with the same version and texts whose members have the same shape by name. -/
structure Schema.SameShape (old new : Schema) : Prop where
  version : old.version = new.version
  docs : old.docs = new.docs
  attributes : SameMembers Attribute.SameShape old.attributes new.attributes
  blocks : SameMembers Block.SameShape old.blocks new.blocks

/-! ## Members of one level -/

section Level

variable {α : Type} {R S : α → α → Prop} {old new : List (String × α)} {path : Path}

/-- Each old member is related to the new one of its name. -/
def Covered (R : α → α → Prop) (old new : List (String × α)) : Prop :=
  ∀ e ∈ old, ∃ b, new.lookup e.1 = some b ∧ R e.2 b

theorem Covered.congr (h : ∀ e ∈ old, ∀ b, new.lookup e.1 = some b → (R e.2 b ↔ S e.2 b)) :
    Covered R old new ↔ Covered S old new :=
  forall₂_congr fun e he => exists_congr fun b => and_congr_right fun hb => h e he b hb

theorem Covered.keys_subset (h : Covered R old new) : Keyed.keys old ⊆ Keyed.keys new := by
  intro name hname
  obtain ⟨e, he, rfl⟩ := List.mem_map.1 hname
  obtain ⟨b, hb, _⟩ := h e he
  have hmem := Keyed.mem_keys_of_mem (Keyed.mem_of_lookup hb)
  exact hmem

/-- Members are the same if the old ones are covered and no new ones are added. -/
theorem sameMembers_iff_covered (hd : (Keyed.keys old).Nodup) :
    SameMembers R old new ↔ Covered R old new ∧ Keyed.keys new ⊆ Keyed.keys old := by
  constructor
  · refine fun h => ⟨fun e he => ?_, fun name => (h.names name).2⟩
    obtain ⟨b, hb⟩ := Keyed.exists_lookup ((h.names e.1).1 (Keyed.mem_keys_of_mem he))
    exact ⟨b, hb, h.related e.1 e.2 b (Keyed.lookup_of_mem hd he) hb⟩
  · rintro ⟨hcovered, hsubset⟩
    refine ⟨fun name => ⟨fun h => hcovered.keys_subset h, fun h => hsubset h⟩, ?_⟩
    intro name a b ha hb
    obtain ⟨c, hc, hac⟩ := hcovered (name, a) (Keyed.mem_of_lookup ha)
    obtain rfl : b = c := Option.some.inj (hb.symm.trans hc)
    exact hac

/-- Counting is enough to find that nothing was added: names are distinct on both sides. -/
theorem sameMembers_iff_length (hold : (Keyed.keys old).Nodup) (hnew : (Keyed.keys new).Nodup) :
    SameMembers R old new ↔ old.length = new.length ∧ Covered R old new := by
  have hlength : ∀ xs : List (String × α), (Keyed.keys xs).length = xs.length := fun xs =>
    List.length_map Prod.fst
  rw [sameMembers_iff_covered hold, and_comm]
  refine and_congr_left fun hcovered => ?_
  have hsub := List.subperm_of_subset hold hcovered.keys_subset
  constructor
  · intro hsubset
    have hperm := hsub.antisymm (List.subperm_of_subset hnew hsubset)
    rw [← hlength old, hperm.length_eq, hlength]
  · intro hcount
    have hkeys : (Keyed.keys new).length = (Keyed.keys old).length := by
      rw [hlength, hlength, hcount]
    have hperm := hsub.perm_of_length_le (Nat.le_of_eq hkeys)
    exact hperm.symm.subset

/-! ## Differences of one level -/

@[simp] theorem changeIf_eq_nil {condition : Bool} {kind : ChangeKind} :
    changeIf condition path kind = [] ↔ condition = false := by
  cases condition <;> simp [changeIf]

@[simp] theorem Flags.diff_eq_nil {old new : Flags} : old.diff path new = [] ↔ old = new := by
  obtain ⟨r, o, c, s⟩ := old
  obtain ⟨r', o', c', s'⟩ := new
  simp [diff]

@[simp] theorem Documentation.diff_eq_nil {old new : Documentation} :
    old.diff path new = [] ↔ old = new := by
  obtain ⟨d, m, p⟩ := old
  obtain ⟨d', m', p'⟩ := new
  simp [diff, and_assoc]

theorem memberChanges_eq_nil {diff : Path → α → α → List SchemaChange} {removed : ChangeKind}
    (h : ∀ e ∈ old, ∀ b path, diff path e.2 b = [] ↔ R e.2 b) :
    memberChanges diff removed path old new = [] ↔ Covered R old new := by
  rw [memberChanges, List.flatMap_eq_nil_iff]
  refine forall₂_congr fun e he => ?_
  cases new.lookup e.1 with
  | none => simp
  | some b => simp [h e he b]

theorem added_eq_nil {kind : α → ChangeKind} :
    added path kind old new = [] ↔ Keyed.keys new ⊆ Keyed.keys old := by
  simp only [added, List.map_eq_nil_iff, List.filter_eq_nil_iff, Option.isNone_iff_eq_none,
    Keyed.lookup_eq_none, not_not]
  exact List.forall_mem_map.symm

/-- Nothing is different on a level exactly if its members are the same. -/
theorem sameMembers_iff_changes {diff : Path → α → α → List SchemaChange} {removed : ChangeKind}
    {kind : α → ChangeKind} (hd : (Keyed.keys old).Nodup)
    (h : ∀ e ∈ old, ∀ b path, diff path e.2 b = [] ↔ R e.2 b) :
    SameMembers R old new ↔
      memberChanges diff removed path old new = [] ∧ added path kind old new = [] := by
  rw [sameMembers_iff_covered hd, memberChanges_eq_nil h, added_eq_nil]

end Level

theorem Attribute.sameMembers_iff_of_diff {old : List (String × Attribute)}
    (new : List (String × Attribute)) (path : Path) (hd : (Keyed.keys old).Nodup)
    (h : ∀ e ∈ old, ∀ b path, e.2.diff path b = [] ↔ e.2.SameShape b) :
    SameMembers SameShape old new ↔
      diffKept path old new = [] ∧ attributesAdded path old new = [] := by
  rw [diffKept_eq_memberChanges]
  exact sameMembers_iff_changes hd h

theorem Block.sameMembers_iff_of_diff {old : List (String × Block)}
    (new : List (String × Block)) (path : Path) (hd : (Keyed.keys old).Nodup)
    (h : ∀ e ∈ old, ∀ c path, e.2.diff path c = [] ↔ e.2.SameShape c) :
    SameMembers SameShape old new ↔
      diffKept path old new = [] ∧ blocksAdded path old new = [] := by
  rw [diffKept_eq_memberChanges]
  exact sameMembers_iff_changes hd h

/-! ## Equality of one level -/

theorem covered_iff_of_cons {α : Type} {same : α → α → Bool} {new : List (String × α)}
    {f : List (String × α) → Bool} (hnil : f [] = true) (hcons : ∀ e rest, f (e :: rest) =
      ((match new.lookup e.1 with
        | some b => same e.2 b
        | none => false) && f rest)) {old : List (String × α)} :
    f old = true ↔ Covered (fun a b => same a b = true) old new := by
  rw [eq_all_of_cons hnil hcons, List.all_eq_true]
  refine forall₂_congr fun e _ => ?_
  cases new.lookup e.1 <;> simp

@[simp] theorem Attribute.sameMembers_eq_true {old new : List (String × Attribute)} :
    sameMembers old new = true ↔ Covered (fun a b => a.same b = true) old new :=
  covered_iff_of_cons (f := (sameMembers · new)) rfl fun e _ => by
    rw [sameMembers]; cases new.lookup e.1 <;> rfl

@[simp] theorem Block.sameMembers_eq_true {old new : List (String × Block)} :
    sameMembers old new = true ↔ Covered (fun b c => b.same c = true) old new :=
  covered_iff_of_cons (f := (sameMembers · new)) rfl fun e _ => by
    rw [sameMembers]; cases new.lookup e.1 <;> rfl

/-! ## Attributes, blocks and whole schemas -/

theorem Attribute.diff_eq_nil {a b : Attribute} {path : Path} (ha : a.WellFormed) :
    a.diff path b = [] ↔ a.SameShape b := by
  induction ha generalizing b path with
  | @leaf t traits ht hf =>
    cases b with
    | leaf u traits' =>
      simp only [diff, List.append_eq_nil_iff, changeIf_eq_nil, bne_eq_false_iff_eq,
        Flags.diff_eq_nil, Documentation.diff_eq_nil]
      constructor
      · rintro ⟨⟨rfl, hf⟩, hd⟩
        exact .leaf hf hd
      · rintro ⟨hf, hd⟩
        exact ⟨⟨rfl, hf⟩, hd⟩
    | group mode members traits' =>
      exact ⟨fun h => by simp [diff] at h, fun h => by cases h⟩
  | @group mode old traits hn hm hf ih =>
    cases b with
    | leaf u traits' => exact ⟨fun h => by simp [diff] at h, fun h => by cases h⟩
    | group mode' new traits' =>
      by_cases hmode : mode = mode'
      · subst hmode
        have hmembers := sameMembers_iff_of_diff new path hn.1 fun e he b path => ih e he
        simp only [diff, if_pos, List.append_eq_nil_iff, Flags.diff_eq_nil,
          Documentation.diff_eq_nil, ← hmembers]
        constructor
        · rintro ⟨⟨hm, hf⟩, hd⟩
          exact .group hm.names hm.related hf hd
        · intro h
          cases h with
          | group hn hm hf hd => exact ⟨⟨⟨hn, hm⟩, hf⟩, hd⟩
      · exact ⟨fun h => by simp [diff, hmode] at h, fun h => by cases h; exact absurd rfl hmode⟩

theorem Attribute.same_eq_true {a b : Attribute} (ha : a.WellFormed) (hb : b.WellFormed) :
    a.same b = true ↔ a.SameShape b := by
  induction ha generalizing b with
  | @leaf t traits ht hf =>
    cases b with
    | leaf u traits' =>
      simp only [same, Bool.and_eq_true, beq_iff_eq]
      constructor
      · rintro ⟨⟨rfl, hf⟩, hd⟩
        exact .leaf hf hd
      · rintro ⟨hf, hd⟩
        exact ⟨⟨rfl, hf⟩, hd⟩
    | group mode members traits' => exact ⟨fun h => by simp [same] at h, fun h => by cases h⟩
  | @group mode old traits hn hm hf ih =>
    cases hb with
    | leaf _ _ => exact ⟨fun h => by simp [same] at h, fun h => by cases h⟩
    | @group mode' new traits' hn' hm' hf' =>
      have hmembers : SameMembers SameShape old new ↔
          old.length = new.length ∧ sameMembers old new = true := by
        rw [sameMembers_eq_true, Covered.congr fun e he b hb =>
          ih e he (hm' _ (Keyed.mem_of_lookup hb))]
        exact sameMembers_iff_length hn.1 hn'.1
      simp only [same, Bool.and_eq_true, beq_iff_eq]
      constructor
      · rintro ⟨⟨⟨⟨rfl, hlength⟩, hm⟩, hf⟩, hd⟩
        have hm := hmembers.2 ⟨hlength, hm⟩
        exact .group hm.names hm.related hf hd
      · intro h
        cases h with
        | group hn hm hf hd =>
          obtain ⟨hlength, hm⟩ := hmembers.1 ⟨hn, hm⟩
          exact ⟨⟨⟨⟨rfl, hlength⟩, hm⟩, hf⟩, hd⟩

/-- The attributes of one level are the same if there are no differences of them. -/
theorem Attribute.sameMembers_iff_diff {old : List (String × Attribute)}
    (new : List (String × Attribute)) (path : Path) (hd : (Keyed.keys old).Nodup)
    (hold : ∀ e ∈ old, e.2.WellFormed) :
    SameMembers SameShape old new ↔
      diffKept path old new = [] ∧ attributesAdded path old new = [] :=
  sameMembers_iff_of_diff new path hd fun e he _ _ => diff_eq_nil (hold e he)

/-- The attributes of one level are the same if they are as many and equal by name. -/
theorem Attribute.sameMembers_iff_same {old new : List (String × Attribute)}
    (hd : (Keyed.keys old).Nodup) (hd' : (Keyed.keys new).Nodup)
    (hold : ∀ e ∈ old, e.2.WellFormed) (hnew : ∀ e ∈ new, e.2.WellFormed) :
    SameMembers SameShape old new ↔ old.length = new.length ∧ sameMembers old new = true := by
  rw [sameMembers_eq_true, Covered.congr fun e he b hb =>
    same_eq_true (hold e he) (hnew _ (Keyed.mem_of_lookup hb))]
  exact sameMembers_iff_length hd hd'

theorem Block.diff_eq_nil {b c : Block} {path : Path} (hb : b.WellFormed) :
    b.diff path c = [] ↔ b.SameShape c := by
  induction hb generalizing c path with
  | @mk nesting attributes blocks traits hn ha hb ht ih =>
    obtain ⟨nesting', attributes', blocks', traits'⟩ := c
    have hnames := List.nodup_append'.1 hn.1
    by_cases hnesting : nesting = nesting'
    · subst hnesting
      have hattributes := Attribute.sameMembers_iff_diff attributes' path hnames.1 ha
      have hblocks := sameMembers_iff_of_diff blocks' path hnames.2.1 fun e he c path => ih e he
      simp only [diff, ne_eq, not_true, if_false, List.append_eq_nil_iff, changeIf_eq_nil,
        Bool.or_eq_false_iff, bne_eq_false_iff_eq, Documentation.diff_eq_nil]
      constructor
      · rintro ⟨⟨⟨⟨⟨⟨hmin, hmax⟩, hd⟩, hkept⟩, hkept'⟩, hadded⟩, hadded'⟩
        have hm := hblocks.2 ⟨hkept', hadded'⟩
        exact .mk (hattributes.2 ⟨hkept, hadded⟩) hm.names hm.related hmin hmax hd
      · intro h
        cases h with
        | mk hm hn hb hmin hmax hd =>
          obtain ⟨hkept, hadded⟩ := hattributes.1 hm
          obtain ⟨hkept', hadded'⟩ := hblocks.1 ⟨hn, hb⟩
          exact ⟨⟨⟨⟨⟨⟨hmin, hmax⟩, hd⟩, hkept⟩, hkept'⟩, hadded⟩, hadded'⟩
    · exact ⟨fun h => by simp [diff, hnesting] at h, fun h => by cases h; exact absurd rfl hnesting⟩

theorem Block.same_eq_true {b c : Block} (hb : b.WellFormed) (hc : c.WellFormed) :
    b.same c = true ↔ b.SameShape c := by
  induction hb generalizing c with
  | @mk nesting attributes blocks traits hn ha hb ht ih =>
    cases hc with
    | @mk nesting' attributes' blocks' traits' hn' ha' hb' ht' =>
      have hnames := List.nodup_append'.1 hn.1
      have hnames' := List.nodup_append'.1 hn'.1
      have hattributes := Attribute.sameMembers_iff_same hnames.1 hnames'.1 ha ha'
      have hblocks : SameMembers SameShape blocks blocks' ↔
          blocks.length = blocks'.length ∧ sameMembers blocks blocks' = true := by
        rw [sameMembers_eq_true, Covered.congr fun e he c hc =>
          ih e he (hb' _ (Keyed.mem_of_lookup hc))]
        exact sameMembers_iff_length hnames.2.1 hnames'.2.1
      simp only [same, Bool.and_eq_true, beq_iff_eq]
      constructor
      · rintro ⟨⟨⟨⟨⟨⟨⟨rfl, hlength⟩, hm⟩, hlength'⟩, hm'⟩, hmin⟩, hmax⟩, hd⟩
        have hm' := hblocks.2 ⟨hlength', hm'⟩
        exact .mk (hattributes.2 ⟨hlength, hm⟩) hm'.names hm'.related hmin hmax hd
      · intro h
        cases h with
        | mk hm hn hb hmin hmax hd =>
          obtain ⟨hlength, hm⟩ := hattributes.1 hm
          obtain ⟨hlength', hm'⟩ := hblocks.1 ⟨hn, hb⟩
          exact ⟨⟨⟨⟨⟨⟨⟨rfl, hlength⟩, hm⟩, hlength'⟩, hm'⟩, hmin⟩, hmax⟩, hd⟩

theorem Schema.diff_eq_nil {old new : Schema} (hold : old.WellFormed) :
    old.diff new = [] ↔ old.SameShape new := by
  have hnames := List.nodup_append'.1 hold.names.1
  have hattributes := Attribute.sameMembers_iff_diff new.attributes [] hnames.1 hold.attributes
  have hblocks := Block.sameMembers_iff_of_diff new.blocks [] hnames.2.1
    fun e he c path => Block.diff_eq_nil (hold.blocks e he)
  simp only [diff, List.append_eq_nil_iff, changeIf_eq_nil, bne_eq_false_iff_eq,
    Documentation.diff_eq_nil]
  constructor
  · rintro ⟨⟨⟨⟨⟨hversion, hd⟩, hkept⟩, hkept'⟩, hadded⟩, hadded'⟩
    exact ⟨hversion, hd, hattributes.2 ⟨hkept, hadded⟩, hblocks.2 ⟨hkept', hadded'⟩⟩
  · rintro ⟨hversion, hd, hm, hm'⟩
    obtain ⟨hkept, hadded⟩ := hattributes.1 hm
    obtain ⟨hkept', hadded'⟩ := hblocks.1 hm'
    exact ⟨⟨⟨⟨⟨hversion, hd⟩, hkept⟩, hkept'⟩, hadded⟩, hadded'⟩

theorem Schema.same_eq_true {old new : Schema} (hold : old.WellFormed) (hnew : new.WellFormed) :
    old.same new = true ↔ old.SameShape new := by
  have hnames := List.nodup_append'.1 hold.names.1
  have hnames' := List.nodup_append'.1 hnew.names.1
  have hattributes := Attribute.sameMembers_iff_same hnames.1 hnames'.1 hold.attributes
    hnew.attributes
  have hblocks : SameMembers Block.SameShape old.blocks new.blocks ↔
      old.blocks.length = new.blocks.length ∧ Block.sameMembers old.blocks new.blocks = true := by
    rw [Block.sameMembers_eq_true, Covered.congr fun e he c hc =>
      Block.same_eq_true (hold.blocks e he) (hnew.blocks _ (Keyed.mem_of_lookup hc))]
    exact sameMembers_iff_length hnames.2.1 hnames'.2.1
  simp only [same, Bool.and_eq_true, beq_iff_eq]
  constructor
  · rintro ⟨⟨⟨⟨⟨hversion, hlength⟩, hm⟩, hlength'⟩, hm'⟩, hd⟩
    exact ⟨hversion, hd, hattributes.2 ⟨hlength, hm⟩, hblocks.2 ⟨hlength', hm'⟩⟩
  · rintro ⟨hversion, hd, hm, hm'⟩
    obtain ⟨hlength, hm⟩ := hattributes.1 hm
    obtain ⟨hlength', hm'⟩ := hblocks.1 hm'
    exact ⟨⟨⟨⟨⟨hversion, hlength⟩, hm⟩, hlength'⟩, hm'⟩, hd⟩

/-- Two built schemas have no differences exactly if they are equal, and equal they are exactly if
they have the same shape: what their members do and in which order they come is left out. -/
theorem Schema.Built.diff_eq_nil_iff {old new : Schema} (hold : old.Built) (hnew : new.Built) :
    (old.diff new = [] ↔ old.same new = true) ∧ (old.same new = true ↔ old.SameShape new) := by
  have hsame := Schema.same_eq_true hold.wellFormed hnew.wellFormed
  exact ⟨(Schema.diff_eq_nil hold.wellFormed).trans hsame.symm, hsame⟩

namespace Server

/-- A name of some characters. -/
def boundedName : AttributeDraft :=
  ⟨some .string, none, ⟨⟨false, true, false, false⟩, .empty, ⟨[.lengthBetween 1 8], []⟩⟩⟩

/-- Disks with the size before the label. -/
def reorderedDisks : AttributeDraft :=
  { disks with
    nested := some (.list, [("size", (optional .number).build),
      ("label", (optional .string).build)]) }

def reorderedDraft : SchemaDraft :=
  { draft with attributes := [("disks", reorderedDisks.build), ("name", boundedName.build)] }

/-- The server with its attributes in another order, the name with a check of its length. -/
def reorderedSchema : Schema :=
  { schema with
    attributes := [("disks", .group .list [("size", leaf .number), ("label", leaf .string)]
        ⟨⟨false, true, false, false⟩, .empty, .none⟩),
      ("name", .leaf .string boundedName.traits)] }

theorem reorderedSchema_built : reorderedSchema.Built := by
  refine ⟨reorderedDraft, fun name a ha => ?_, fun name b hb => ?_, rfl⟩
  · simp only [reorderedDraft, List.mem_cons, Prod.mk.injEq, List.not_mem_nil, or_false] at ha
    rcases ha with ⟨_, ha⟩ | ⟨_, ha⟩
    · refine .build (d := reorderedDisks) (fun t ht => by cases ht)
        (fun mode members hm name b hb => ?_) ha.symm
      cases hm
      simp only [List.mem_cons, Prod.mk.injEq, List.not_mem_nil, or_false] at hb
      rcases hb with ⟨_, hb⟩ | ⟨_, hb⟩
      · exact built_optional (t := .number) trivial hb.symm
      · exact built_optional (t := .string) trivial hb.symm
    · exact .build (d := boundedName) (fun t ht => by cases ht; trivial)
        (fun _ _ hm => by cases hm) ha.symm
  · simp only [reorderedDraft, draft, List.mem_singleton, Prod.mk.injEq] at hb
    exact built_rules hb.2.symm

end Server

/-- The order of attributes and the check of a name make no difference, the tag of a rule makes
one. -/
theorem Schema.diff_eq_nil_reordered :
    Server.schema.Built ∧ Server.reorderedSchema.Built ∧ Server.taggedSchema.Built ∧
      Server.schema.SameShape Server.reorderedSchema ∧
      Server.schema.diff Server.reorderedSchema = [] ∧
      Server.schema.diff Server.taggedSchema ≠ [] := by
  have hreordered := Built.diff_eq_nil_iff Server.schema_built Server.reorderedSchema_built
  have htagged := Built.diff_eq_nil_iff Server.schema_built Server.taggedSchema_built
  have hsame : Server.schema.same Server.reorderedSchema = true := by decide
  have hdiffers : ¬Server.schema.same Server.taggedSchema = true := by decide
  exact ⟨Server.schema_built, Server.reorderedSchema_built, Server.taggedSchema_built,
    hreordered.2.1 hsame, hreordered.1.2 hsame, fun h => hdiffers (htagged.1.1 h)⟩

end ResourceSchema
