import ResourceSchema.Proofs.Recursion
import ResourceSchema.Proofs.Schema.Resolution
import ResourceSchema.Proofs.Value.Widening
import ResourceSchema.Schema.Diff

/-!
# Changes that are not breaking

A schema whose changes are not breaking keeps every attribute and every block of the old one in its
kind, asks for nothing that was not asked for before and loosens bounds only
(`Schema.WellFormed.upgrade`). The new type extends the old one then, so that stored values can
still be read, with the same data in them (`Schema.Built.reads_stored`).
-/

namespace ResourceSchema

/-! ## Members of one level -/

/-- From old members to new ones: all are kept, as related ones, and the added ones have a
property. -/
structure Grown {α : Type} (R : α → α → Prop) (P : α → Prop) (old new : List (String × α)) :
    Prop where
  kept : ∀ name a, old.lookup name = some a → ∃ b, new.lookup name = some b ∧ R a b
  added : ∀ name b, new.lookup name = some b → old.lookup name = none → P b

theorem Grown.imp {α : Type} {R S : α → α → Prop} {P : α → Prop} {old new : List (String × α)}
    (h : Grown R P old new) (hrs : ∀ name a b, old.lookup name = some a →
      new.lookup name = some b → R a b → S a b) : Grown S P old new := by
  refine ⟨fun name a ha => ?_, h.added⟩
  obtain ⟨b, hb, hab⟩ := h.kept name a ha
  exact ⟨b, hb, hrs name a b ha hb hab⟩

/-! ## Upgrades -/

/-- The new flags ask for nothing that was not asked for, and refuse nothing that was optional. -/
structure Flags.Upgrade (old new : Flags) : Prop where
  required : new.required = true → old.required = true
  optional : old.optional = true → new.optional = true

/-- The new bounds are no tighter than the old ones; a maximum of zero is no bound. -/
structure BlockTraits.Upgrade (old new : BlockTraits) : Prop where
  min : new.minItems ≤ old.minItems
  max : new.maxItems = 0 ∨ old.maxItems ≠ 0 ∧ old.maxItems ≤ new.maxItems

/-- An attribute that takes the place of another without a breaking change. -/
inductive Attribute.Upgrade : Attribute → Attribute → Prop
  | leaf {t : Ty} {traits traits' : AttributeTraits} (hf : traits.flags.Upgrade traits'.flags) :
      Upgrade (.leaf t traits) (.leaf t traits')
  | group {mode : NestingMode} {old new : List (String × Attribute)}
      {traits traits' : AttributeTraits}
      (hk : ∀ name a, old.lookup name = some a → ∃ b, new.lookup name = some b)
      (h : ∀ name a b, old.lookup name = some a → new.lookup name = some b → Upgrade a b)
      (hn : ∀ name b, new.lookup name = some b → old.lookup name = none →
        b.flags.required = false)
      (hf : traits.flags.Upgrade traits'.flags) :
      Upgrade (.group mode old traits) (.group mode new traits')

/-- The attributes of one level without a breaking change. -/
abbrev Attribute.MembersUpgrade : List (String × Attribute) → List (String × Attribute) → Prop :=
  Grown Attribute.Upgrade fun b => b.flags.required = false

/-- A block that takes the place of another without a breaking change. -/
inductive Block.Upgrade : Block → Block → Prop
  | mk {nesting : BlockNesting} {oldAttributes newAttributes : List (String × Attribute)}
      {oldBlocks newBlocks : List (String × Block)} {traits traits' : BlockTraits}
      (ha : Attribute.MembersUpgrade oldAttributes newAttributes)
      (hk : ∀ name b, oldBlocks.lookup name = some b → ∃ c, newBlocks.lookup name = some c)
      (h : ∀ name b c, oldBlocks.lookup name = some b → newBlocks.lookup name = some c →
        Upgrade b c)
      (hn : ∀ name c, newBlocks.lookup name = some c → oldBlocks.lookup name = none →
        c.traits.minItems = 0)
      (ht : traits.Upgrade traits') :
      Upgrade ⟨nesting, oldAttributes, oldBlocks, traits⟩
        ⟨nesting, newAttributes, newBlocks, traits'⟩

/-- The blocks of one level without a breaking change. -/
abbrev Block.MembersUpgrade : List (String × Block) → List (String × Block) → Prop :=
  Grown Block.Upgrade fun c => c.traits.minItems = 0

/-- A schema that takes the place of another without a breaking change. -/
structure Schema.Upgrade (old new : Schema) : Prop where
  attributes : Attribute.MembersUpgrade old.attributes new.attributes
  blocks : Block.MembersUpgrade old.blocks new.blocks

/-! ## Changes one by one -/

variable {path : Path} {name : String}

theorem forall_mem_changeIf {P : SchemaChange → Prop} {condition : Bool} {kind : ChangeKind} :
    (∀ c ∈ changeIf condition path kind, P c) ↔ (condition = true → P ⟨path, kind⟩) := by
  cases condition <;> simp [changeIf]

theorem Flags.upgrade_of_diff {old new : Flags}
    (h : ∀ c ∈ old.diff path new, c.isBreaking = false) : old.Upgrade new := by
  simp only [Flags.diff, List.forall_mem_append, forall_mem_changeIf] at h
  obtain ⟨⟨⟨hrequired, hoptional⟩, _⟩, _⟩ := h
  constructor
  · intro hnew
    by_contra hold
    have hbreaking := hrequired (bne_iff_ne.2 fun heq => hold (heq ▸ hnew))
    rw [hnew] at hbreaking
    cases hbreaking
  · intro hold
    by_contra hnew
    have hbreaking := hoptional (bne_iff_ne.2 fun heq => hnew (heq ▸ hold))
    rw [Bool.eq_false_iff.2 hnew] at hbreaking
    cases hbreaking

theorem BlockTraits.upgrade_of_changeIf {old new : BlockTraits}
    (h : ∀ c ∈ changeIf (old.minItems != new.minItems || old.maxItems != new.maxItems) path
      (.itemBoundsChanged old.minItems old.maxItems new.minItems new.maxItems),
      c.isBreaking = false) : old.Upgrade new := by
  rw [forall_mem_changeIf] at h
  by_cases hchanged : (old.minItems != new.minItems || old.maxItems != new.maxItems) = true
  · have hkept := h hchanged
    simp only [SchemaChange.isBreaking, Bool.or_eq_false_iff, decide_eq_false_iff_not,
      UInt64.not_lt, Bool.and_eq_false_imp, decide_eq_true_eq, beq_eq_false_iff_ne] at hkept
    refine ⟨hkept.1, ?_⟩
    by_cases hmax : new.maxItems = 0
    · exact .inl hmax
    · exact .inr (hkept.2 (UInt64.pos_iff_ne_zero.2 hmax))
  · simp only [Bool.or_eq_true, bne_iff_ne, not_or, not_not] at hchanged
    obtain ⟨hmin, hmax⟩ := hchanged
    refine ⟨hmin ▸ UInt64.le_refl _, ?_⟩
    by_cases hzero : new.maxItems = 0
    · exact .inl hzero
    · exact .inr ⟨hmax ▸ hzero, hmax ▸ UInt64.le_refl _⟩

theorem not_breaking_of_added {α : Type} {kind : α → ChangeKind} {old new : List (String × α)}
    {b : α} (h : ∀ c ∈ added path kind old new, c.isBreaking = false)
    (hnew : new.lookup name = some b) (hold : old.lookup name = none) :
    SchemaChange.isBreaking ⟨path ++ [.name name], kind b⟩ = false := by
  refine h _ (List.mem_map.2 ⟨(name, b), List.mem_filter.2 ⟨Keyed.mem_of_lookup hnew, ?_⟩, rfl⟩)
  exact Option.isNone_iff_eq_none.2 hold

/-! ## Whole levels -/

/-- The changes of the members of `old`, each in turn; `removed` is that of one that is gone. -/
def memberChanges {α : Type} (diff : Path → α → α → List SchemaChange) (removed : ChangeKind)
    (path : Path) (old new : List (String × α)) : List SchemaChange :=
  old.flatMap fun e =>
    match new.lookup e.1 with
    | some b => diff (path ++ [.name e.1]) e.2 b
    | none => [⟨path ++ [.name e.1], removed⟩]

theorem eq_memberChanges_of_cons {α : Type} {diff : Path → α → α → List SchemaChange}
    {removed : ChangeKind} {new : List (String × α)} {f : List (String × α) → List SchemaChange}
    (hnil : f [] = []) (hcons : ∀ e rest, f (e :: rest) =
      (match new.lookup e.1 with
        | some b => diff (path ++ [.name e.1]) e.2 b
        | none => [⟨path ++ [.name e.1], removed⟩]) ++ f rest) (old : List (String × α)) :
    f old = memberChanges diff removed path old new :=
  eq_flatMap_of_cons hnil hcons old

theorem Attribute.diffKept_eq_memberChanges (path : Path) (old new : List (String × Attribute)) :
    diffKept path old new = memberChanges diff .attributeRemoved path old new :=
  eq_memberChanges_of_cons (f := (diffKept path · new)) rfl
    (fun e _ => by rw [diffKept]; cases new.lookup e.1 <;> rfl) old

theorem Block.diffKept_eq_memberChanges (path : Path) (old new : List (String × Block)) :
    diffKept path old new = memberChanges diff .blockRemoved path old new :=
  eq_memberChanges_of_cons (f := (diffKept path · new)) rfl
    (fun e _ => by rw [diffKept]; cases new.lookup e.1 <;> rfl) old

/-- Without breaking changes every member is kept, and its own changes are not breaking. -/
theorem kept_of_memberChanges {α : Type} {diff : Path → α → α → List SchemaChange}
    {removed : ChangeKind} {old new : List (String × α)} {a : α}
    (hr : ∀ p, SchemaChange.isBreaking ⟨p, removed⟩ = true)
    (h : ∀ c ∈ memberChanges diff removed path old new, c.isBreaking = false)
    (hl : old.lookup name = some a) :
    ∃ b, new.lookup name = some b ∧
      ∀ c ∈ diff (path ++ [.name name]) a b, c.isBreaking = false := by
  have hmem := fun c hc => h c (List.mem_flatMap.2 ⟨(name, a), Keyed.mem_of_lookup hl, hc⟩)
  cases hnew : new.lookup name with
  | none =>
    have hbreaking := hmem ⟨path ++ [.name name], removed⟩ (by simp [hnew])
    rw [hr] at hbreaking
    cases hbreaking
  | some b => exact ⟨b, rfl, fun c hc => hmem c (by simpa [hnew] using hc)⟩

theorem Attribute.membersUpgrade_of_diff {old new : List (String × Attribute)}
    (hkept : ∀ c ∈ diffKept path old new, c.isBreaking = false)
    (hadded : ∀ c ∈ attributesAdded path old new, c.isBreaking = false)
    (ih : ∀ e ∈ old, ∀ b path, (∀ c ∈ e.2.diff path b, c.isBreaking = false) → e.2.Upgrade b) :
    MembersUpgrade old new := by
  rw [diffKept_eq_memberChanges] at hkept
  refine ⟨fun name a hl => ?_, fun name b hnew hold => not_breaking_of_added hadded hnew hold⟩
  obtain ⟨b, hb, hab⟩ := kept_of_memberChanges (fun _ => rfl) hkept hl
  exact ⟨b, hb, ih _ (Keyed.mem_of_lookup hl) b _ hab⟩

theorem Attribute.WellFormed.upgrade {a b : Attribute} (ha : a.WellFormed)
    (h : ∀ c ∈ a.diff path b, c.isBreaking = false) : a.Upgrade b := by
  induction ha generalizing b path with
  | @leaf t traits ht hf =>
    cases b with
    | leaf u traits' =>
      simp only [Attribute.diff, List.forall_mem_append, forall_mem_changeIf] at h
      obtain ⟨⟨hty, hflags⟩, _⟩ := h
      obtain rfl : t = u := by
        by_contra hne
        cases hty (bne_iff_ne.2 hne)
      exact .leaf (Flags.upgrade_of_diff hflags)
    | group mode members traits' =>
      cases h ⟨path, .typeChanged (Attribute.leaf t traits).ty
        (Attribute.group mode members traits').ty⟩ (by simp [Attribute.diff])
  | @group mode old traits hn hm hf ih =>
    cases b with
    | leaf u traits' =>
      cases h ⟨path, .typeChanged (Attribute.group mode old traits).ty
        (Attribute.leaf u traits').ty⟩ (by simp [Attribute.diff])
    | group mode' new traits' =>
      by_cases hmode : mode = mode'
      · subst hmode
        simp only [Attribute.diff, if_pos, List.forall_mem_append] at h
        obtain ⟨⟨⟨hkept, hadded⟩, hflags⟩, _⟩ := h
        have hmembers := membersUpgrade_of_diff hkept hadded fun e he b path h => ih e he h
        refine .group (fun name a ha => ?_) (fun name a b ha hb => ?_) hmembers.added
          (Flags.upgrade_of_diff hflags)
        · obtain ⟨b, hb, _⟩ := hmembers.kept name a ha
          exact ⟨b, hb⟩
        · obtain ⟨b', hb', hab⟩ := hmembers.kept name a ha
          rw [hb] at hb'
          cases hb'
          exact hab
      · cases h ⟨path, .nestingChanged mode mode'⟩ (by simp [Attribute.diff, hmode])

theorem Block.membersUpgrade_of_diff {old new : List (String × Block)}
    (hkept : ∀ c ∈ diffKept path old new, c.isBreaking = false)
    (hadded : ∀ c ∈ blocksAdded path old new, c.isBreaking = false)
    (ih : ∀ e ∈ old, ∀ b path, (∀ c ∈ e.2.diff path b, c.isBreaking = false) → e.2.Upgrade b) :
    MembersUpgrade old new := by
  rw [diffKept_eq_memberChanges] at hkept
  refine ⟨fun name a hl => ?_, fun name b hnew hold => ?_⟩
  · obtain ⟨b, hb, hab⟩ := kept_of_memberChanges (fun _ => rfl) hkept hl
    exact ⟨b, hb, ih _ (Keyed.mem_of_lookup hl) b _ hab⟩
  · have hmin := not_breaking_of_added hadded hnew hold
    exact UInt64.le_zero_iff.1 (UInt64.not_lt.1 (of_decide_eq_false hmin))

theorem Block.WellFormed.upgrade {b b' : Block} (hb : b.WellFormed)
    (h : ∀ c ∈ b.diff path b', c.isBreaking = false) : b.Upgrade b' := by
  induction hb generalizing b' path with
  | @mk nesting attributes blocks traits hn ha hb ht ih =>
    obtain ⟨nesting', attributes', blocks', traits'⟩ := b'
    by_cases hnesting : nesting = nesting'
    · subst hnesting
      simp only [Block.diff, ne_eq, not_true, if_false, List.forall_mem_append] at h
      obtain ⟨⟨⟨⟨⟨hbounds, _⟩, hkept⟩, hblocks⟩, hadded⟩, hnew⟩ := h
      have hmembers := membersUpgrade_of_diff hblocks hnew fun e he b path h => ih e he h
      refine .mk (Attribute.membersUpgrade_of_diff hkept hadded fun e he b path h =>
        (ha e he).upgrade h) (fun name b hb => ?_) (fun name b c hb hc => ?_) hmembers.added
        (BlockTraits.upgrade_of_changeIf hbounds)
      · obtain ⟨c, hc, _⟩ := hmembers.kept name b hb
        exact ⟨c, hc⟩
      · obtain ⟨c', hc', hbc⟩ := hmembers.kept name b hb
        rw [hc] at hc'
        cases hc'
        exact hbc
    · cases h ⟨path, .nestingChanged nesting.mode nesting'.mode⟩ (by simp [Block.diff, hnesting])

theorem Schema.WellFormed.upgrade {old new : Schema} (hold : old.WellFormed)
    (h : ∀ c ∈ old.diff new, c.isBreaking = false) : old.Upgrade new := by
  simp only [Schema.diff, List.forall_mem_append] at h
  obtain ⟨⟨⟨⟨_, hkept⟩, hblocks⟩, hadded⟩, hnew⟩ := h
  exact ⟨Attribute.membersUpgrade_of_diff hkept hadded fun e he b path h =>
    (hold.attributes e he).upgrade h, Block.membersUpgrade_of_diff hblocks hnew fun e he b path h =>
    (hold.blocks e he).upgrade h⟩

/-! ## The new type extends the old one -/

theorem Ty.ExtendedBy.of_lookup {old new : List (String × Ty)}
    (h : ∀ name t, old.lookup name = some t → ∃ u, new.lookup name = some u ∧ t.ExtendedBy u) :
    (Ty.object old).ExtendedBy (.object new) := by
  refine .object (fun name hn => ?_) (fun name t u ht hu => ?_)
  · obtain ⟨t, ht⟩ := Keyed.exists_lookup hn
    obtain ⟨u, hu, _⟩ := h name t ht
    exact Keyed.mem_keys_of_mem (Keyed.mem_of_lookup hu)
  · obtain ⟨u', hu', htu⟩ := h name t ht
    rw [hu] at hu'
    cases hu'
    exact htu

theorem NestingMode.extendedBy_wrap {t u : Ty} (mode : NestingMode) (h : t.ExtendedBy u) :
    (mode.wrap t).ExtendedBy (mode.wrap u) := by
  cases mode with
  | list => exact .list h
  | set => exact .set h
  | map => exact .map h
  | single => exact h

section Level

variable {oldAttributes newAttributes : List (String × Attribute)}
  {oldBlocks newBlocks : List (String × Block)}

theorem MemberNames.lookup_eq_none {attributes : List (String × Attribute)}
    {blocks : List (String × Block)} {b : Block}
    (hn : MemberNames (Keyed.keys attributes ++ Keyed.keys blocks))
    (hb : blocks.lookup name = some b) : attributes.lookup name = none := by
  rw [Keyed.lookup_eq_none]
  intro ha
  exact (List.nodup_append'.1 hn.1).2.2 ha (Keyed.mem_keys_of_mem (Keyed.mem_of_lookup hb))

/-- Levels whose members keep to the types extend each other. -/
theorem extendedBy_objectTyOf
    (hold : MemberNames (Keyed.keys oldAttributes ++ Keyed.keys oldBlocks))
    (hnew : MemberNames (Keyed.keys newAttributes ++ Keyed.keys newBlocks))
    {P : Attribute → Prop} {Q : Block → Prop}
    (ha : Grown (fun a b => a.ty.ExtendedBy b.ty) P oldAttributes newAttributes)
    (hb : Grown (fun b c => b.ty.ExtendedBy c.ty) Q oldBlocks newBlocks) :
    (Block.objectTyOf oldAttributes oldBlocks).ExtendedBy
      (Block.objectTyOf newAttributes newBlocks) := by
  refine Ty.ExtendedBy.of_lookup fun name t ht => ?_
  have hl := lookup_levelTypes hnew name
  unfold levelTypes at hl
  rw [← levelTypes, lookup_levelTypes hold] at ht
  rw [hl]
  cases hoa : oldAttributes.lookup name with
  | some a =>
    rw [hoa] at ht
    cases ht
    obtain ⟨b, hb, hab⟩ := ha.kept name a hoa
    exact ⟨b.ty, by rw [hb]; rfl, hab⟩
  | none =>
    cases hob : oldBlocks.lookup name with
    | none => rw [hoa, hob] at ht; cases ht
    | some b =>
      rw [hoa, hob] at ht
      cases ht
      obtain ⟨c, hc, hbc⟩ := hb.kept name b hob
      exact ⟨c.ty, by rw [hnew.lookup_eq_none hc, hc]; rfl, hbc⟩

end Level

theorem Attribute.Upgrade.extendedBy {a b : Attribute} (h : a.Upgrade b) (ha : a.WellFormed)
    (hb : b.WellFormed) : a.ty.ExtendedBy b.ty := by
  induction h with
  | leaf hf => exact .refl _
  | @group mode old new traits traits' hk h hn hf ih =>
    cases ha with
    | group hold ha _ =>
      cases hb with
      | group hnew hb _ =>
        have hmembers : Grown (fun a b : Attribute => a.ty.ExtendedBy b.ty)
            (fun b => b.flags.required = false) old new := by
          refine ⟨fun name a hl => ?_, hn⟩
          obtain ⟨b, hl'⟩ := hk name a hl
          exact ⟨b, hl', ih name a b hl hl' (ha _ (Keyed.mem_of_lookup hl))
            (hb _ (Keyed.mem_of_lookup hl'))⟩
        refine NestingMode.extendedBy_wrap mode ?_
        rw [← objectTy, ← objectTy, objectTy_eq, objectTy_eq]
        exact extendedBy_objectTyOf (by simpa using hold) (by simpa using hnew) hmembers
          (Q := fun _ => True) ⟨fun name b hl => (by cases hl), fun name b hl => (by cases hl)⟩

theorem Attribute.MembersUpgrade.extendedBy {old new : List (String × Attribute)}
    (h : MembersUpgrade old new) (hold : ∀ e ∈ old, e.2.WellFormed)
    (hnew : ∀ e ∈ new, e.2.WellFormed) :
    Grown (fun a b : Attribute => a.ty.ExtendedBy b.ty) (fun b => b.flags.required = false) old
      new :=
  h.imp fun _ _ _ ha hb hab =>
    hab.extendedBy (hold _ (Keyed.mem_of_lookup ha)) (hnew _ (Keyed.mem_of_lookup hb))

theorem Block.Upgrade.extendedBy {b c : Block} (h : b.Upgrade c) (hb : b.WellFormed)
    (hc : c.WellFormed) : b.ty.ExtendedBy c.ty := by
  induction h with
  | @mk nesting oldAttributes newAttributes oldBlocks newBlocks traits traits' ha hk h hn ht ih =>
    cases hb with
    | mk hold hoa hob _ =>
      cases hc with
      | mk hnew hna hnb _ =>
        have hblocks : Grown (fun b c : Block => b.ty.ExtendedBy c.ty)
            (fun c => c.traits.minItems = 0) oldBlocks newBlocks := by
          refine ⟨fun name b hl => ?_, hn⟩
          obtain ⟨c, hl'⟩ := hk name b hl
          exact ⟨c, hl', ih name b c hl hl' (hob _ (Keyed.mem_of_lookup hl))
            (hnb _ (Keyed.mem_of_lookup hl'))⟩
        rw [Block.ty_eq, Block.ty_eq]
        exact NestingMode.extendedBy_wrap _
          (extendedBy_objectTyOf hold hnew (ha.extendedBy hoa hna) hblocks)

theorem Schema.Upgrade.extendedBy {old new : Schema} (h : old.Upgrade new)
    (hold : old.WellFormed) (hnew : new.WellFormed) : old.ty.ExtendedBy new.ty :=
  extendedBy_objectTyOf hold.names hnew.names
    (Attribute.MembersUpgrade.extendedBy h.attributes hold.attributes hnew.attributes)
    (h.blocks.imp fun _ _ _ hb hc hbc => hbc.extendedBy (hold.blocks _ (Keyed.mem_of_lookup hb))
      (hnew.blocks _ (Keyed.mem_of_lookup hc)))

/-! ## Stored values -/

/-- A stored value of a schema is read by another one without breaking changes, with the same
primitives at the same paths. -/
theorem Schema.Built.reads_stored {old new : Schema} (hold : old.Built) (hnew : new.Built)
    (h : ∀ c ∈ old.diff new, c.isBreaking = false) {v : Value} (hv : Value.HasType old.ty v)
    (hk : v.isFullyKnown = true) :
    ∃ j w, v.toJson = .ok j ∧ Value.ofJson new.ty j = .ok w ∧
      ∀ p x, (∀ y, .element y ∉ p) → v.atPath p = .ok x → x.ty.isPrimitive = true →
        w.atPath p = .ok x := by
  have hext := (hold.wellFormed.upgrade h).extendedBy hold.wellFormed hnew.wellFormed
  obtain ⟨hty, hwf⟩ := hv.spec
  obtain ⟨j, hj⟩ := Value.exists_toJson hk
  have hread := Value.ofJson_toJson hwf hj
  rw [hty] at hread
  refine ⟨j, v.widen new.ty, hj,
    Value.ofJson_widen hext hold.wellFormed.ty hnew.wellFormed.ty hread,
    fun p x hp hx hprim => ?_⟩
  obtain ⟨u, hu, hat⟩ := Value.atPath_widen hwf hnew.wellFormed.ty (hty ▸ hext) hp hx
  rw [hu.eq_of_isPrimitive hprim] at hat
  rwa [Value.widen_of_isPrimitive hprim] at hat

namespace Server

/-- Rules that have a tag as well. -/
def taggedRules : BlockDraft :=
  { rules with attributes := rules.attributes ++ [("tag", (optional .string).build)] }

def taggedDraft : SchemaDraft :=
  { draft with version := 2, blocks := [("rules", taggedRules.build)] }

def taggedSchema : Schema :=
  { schema with
    version := 2
    blocks := [("rules", ⟨.set, [("note", leaf .string), ("port", leaf .number),
      ("tag", leaf .string)], [], ⟨0, 0, .empty, .none⟩⟩)] }

theorem taggedSchema_built : taggedSchema.Built := by
  refine ⟨taggedDraft, fun name a ha => ?_, fun name b hb => ?_, rfl⟩
  · simp only [taggedDraft, draft, List.mem_cons, Prod.mk.injEq, List.not_mem_nil, or_false] at ha
    rcases ha with ⟨_, ha⟩ | ⟨_, ha⟩
    · exact built_optional (t := .string) trivial ha.symm
    · exact built_disks ha.symm
  · simp only [taggedDraft, List.mem_singleton, Prod.mk.injEq] at hb
    refine .build (d := taggedRules) (fun name a ha => ?_) (fun name c hc => by cases hc) hb.2.symm
    simp only [taggedRules, rules, List.cons_append, List.nil_append, List.mem_cons,
      Prod.mk.injEq, List.not_mem_nil, or_false] at ha
    rcases ha with ⟨_, ha⟩ | ⟨_, ha⟩ | ⟨_, ha⟩
    · exact built_optional (t := .string) trivial ha.symm
    · exact built_optional (t := .number) trivial ha.symm
    · exact built_optional (t := .string) trivial ha.symm

/-- A server with a name and one rule. -/
def stored : Value :=
  .object [("disks", .null (.list (.object [("label", .string), ("size", .number)]))),
    ("name", .string "web"),
    ("rules", .set (.object [("note", .string), ("port", .number)])
      [.object [("note", .string "a"), ("port", .null .number)]])]

theorem hasType_stored : Value.HasType schema.ty stored := by
  have hread : Value.ofJson schema.ty (.object [("name", .string "web"),
      ("rules", .array [.object [("note", .string "a")]])]) = .ok stored := rfl
  exact Value.hasType_iff.2 (Value.wellFormed_ofJson schema_built.wellFormed.ty hread)

end Server

/-- The rules of a stored server are read by the schema that adds a tag to them. -/
theorem Schema.reads_stored_rule :
    (∀ c ∈ Server.schema.diff Server.taggedSchema, c.isBreaking = false) ∧
      Server.stored.isFullyKnown = true ∧ Value.HasType Server.schema.ty Server.stored ∧
      ∃ j w, Server.stored.toJson = .ok j ∧ Value.ofJson Server.taggedSchema.ty j = .ok w ∧
        w.atPath [.name "name"] = .ok (.string "web") := by
  have hchanges : ∀ c ∈ Server.schema.diff Server.taggedSchema, c.isBreaking = false := by
    decide
  obtain ⟨j, w, hj, hw, hread⟩ := Schema.Built.reads_stored Server.schema_built
    Server.taggedSchema_built hchanges Server.hasType_stored rfl
  exact ⟨hchanges, rfl, Server.hasType_stored, j, w, hj, hw,
    hread [.name "name"] _ (by simp) rfl rfl⟩

end ResourceSchema
