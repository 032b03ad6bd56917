import ResourceSchema.Proofs.Except
import ResourceSchema.Proofs.Ty.Basic
import ResourceSchema.Schema.Draft

/-!
# Built schemas

What the builders can make: an attribute, a block or a schema is built from a draft whose members
were built before, and behaviour may be attached to it later. Whatever is built is well formed: the
rules that building checks hold at every depth (`Schema.Built.wellFormed`).
-/

namespace ResourceSchema

/-- The rules for flags: not both required and optional, and someone to set the attribute. -/
def Flags.Valid (f : Flags) : Prop :=
  (f.required && f.optional) = false ∧ (f.required || f.optional || f.computed) = true

/-- The rules for the names of one level: distinct lowercase identifiers. -/
def MemberNames (names : List String) : Prop :=
  names.Nodup ∧ ∀ name ∈ names, isMemberName name = true

/-- The rule for bounds: the minimum is within the maximum, if there is one. -/
def BlockTraits.Valid (traits : BlockTraits) : Prop :=
  traits.maxItems = 0 ∨ traits.minItems ≤ traits.maxItems

/-! ## Well-formed descriptors -/

namespace Attribute

/-- The rules of building hold for an attribute and for every attribute nested in it. -/
inductive WellFormed : Attribute → Prop
  | leaf {t : Ty} {traits : AttributeTraits} (ht : t.WellFormed) (hf : traits.flags.Valid) :
      WellFormed (.leaf t traits)
  | group {mode : NestingMode} {members : List (String × Attribute)} {traits : AttributeTraits}
      (hn : MemberNames (Keyed.keys members)) (hm : ∀ e ∈ members, WellFormed e.2)
      (hf : traits.flags.Valid) : WellFormed (.group mode members traits)

theorem WellFormed.withTraits {a : Attribute} {traits : AttributeTraits} (h : a.WellFormed)
    (hf : traits.flags.Valid) : (a.withTraits traits).WellFormed := by
  cases h with
  | leaf ht _ => exact .leaf ht hf
  | group hn hm _ => exact .group hn hm hf

theorem WellFormed.flags {a : Attribute} (h : a.WellFormed) : a.traits.flags.Valid := by
  cases h with
  | leaf _ hf => exact hf
  | group _ _ hf => exact hf

end Attribute

/-- The rules of building hold for a block and for everything nested in it. -/
inductive Block.WellFormed : Block → Prop
  | mk {nesting : BlockNesting} {attributes : List (String × Attribute)}
      {blocks : List (String × Block)} {traits : BlockTraits}
      (hn : MemberNames (Keyed.keys attributes ++ Keyed.keys blocks))
      (ha : ∀ e ∈ attributes, e.2.WellFormed) (hb : ∀ e ∈ blocks, WellFormed e.2)
      (ht : traits.Valid) : WellFormed ⟨nesting, attributes, blocks, traits⟩

/-- The rules of building hold for a schema and for everything in it. -/
structure Schema.WellFormed (s : Schema) : Prop where
  names : MemberNames (Keyed.keys s.attributes ++ Keyed.keys s.blocks)
  attributes : ∀ e ∈ s.attributes, e.2.WellFormed
  blocks : ∀ e ∈ s.blocks, e.2.WellFormed

/-! ## What the builders make -/

/-- Attributes made by drafts, with behaviour attached or not. -/
inductive Attribute.Built : Attribute → Prop
  | build {d : AttributeDraft} {a : Attribute} (hty : ∀ t, d.ty = some t → t.WellFormed)
      (hm : ∀ mode members, d.nested = some (mode, members) →
        ∀ name b, (name, Except.ok b) ∈ members → Built b)
      (h : d.build = .ok a) : Built a
  | attachAt {a b : Attribute} {behaviour : Behaviour} {names : List String} (ha : Built a)
      (h : a.attachAt? behaviour names = some b) : Built b

/-- Blocks made by drafts, with behaviour attached or not. -/
inductive Block.Built : Block → Prop
  | build {d : BlockDraft} {b : Block}
      (ha : ∀ name a, (name, Except.ok a) ∈ d.attributes → a.Built)
      (hb : ∀ name c, (name, Except.ok c) ∈ d.blocks → Built c)
      (h : d.build = .ok b) : Built b
  | attachAt {b c : Block} {behaviour : Behaviour} {names : List String} (hb : Built b)
      (h : b.attachAt? behaviour names = some c) : Built c

/-- A schema made by a draft from built members. -/
def Schema.Built (s : Schema) : Prop :=
  ∃ d : SchemaDraft, (∀ name a, (name, Except.ok a) ∈ d.attributes → a.Built) ∧
    (∀ name b, (name, Except.ok b) ∈ d.blocks → b.Built) ∧ d.build = .ok s

/-! ## Building checks the rules -/

namespace Members

variable {α : Type} {members : Members α} {seen result : List (String × α)}

theorem check_spec (h : members.check seen = .ok result) (hseen : MemberNames (Keyed.keys seen)) :
    MemberNames (Keyed.keys result) ∧
      ∀ e ∈ result, e ∈ seen ∨ (e.1, Except.ok e.2) ∈ members := by
  induction members generalizing seen with
  | nil => cases h; exact ⟨hseen, fun e he => .inl he⟩
  | cons m rest ih =>
    obtain ⟨name, member⟩ := m
    unfold check at h
    split at h
    · cases h
    · next hname =>
      split at h
      · cases h
      · next a =>
        split at h
        · cases h
        · next hnew =>
          have hfresh : name ∉ Keyed.keys seen := by
            rw [← Keyed.lookup_eq_none]
            exact Option.not_isSome_iff_eq_none.1 hnew
          have hseen' : MemberNames (Keyed.keys (seen ++ [(name, a)])) := by
            rw [Keyed.keys_append]
            refine ⟨List.nodup_append'.2 ⟨hseen.1, by simp, ?_⟩, fun n hn => ?_⟩
            · simpa using hfresh
            · rcases List.mem_append.1 hn with hn | hn
              · exact hseen.2 n hn
              · obtain rfl : n = name := by simpa using hn
                simpa using hname
          obtain ⟨hnames, hmem⟩ := ih h hseen'
          refine ⟨hnames, ?_⟩
          intro e he
          rcases hmem e he with he | he
          · rcases List.mem_append.1 he with he | he
            · exact .inl he
            · obtain rfl : e = (name, a) := by simpa using he
              exact .inr List.mem_cons_self
          · exact .inr (List.mem_cons_of_mem _ he)

theorem build_spec (h : members.build = .ok result) :
    MemberNames (Keyed.keys result) ∧ ∀ e ∈ result, (e.1, Except.ok e.2) ∈ members := by
  obtain ⟨hnames, hmem⟩ := check_spec h ⟨List.nodup_nil, by simp⟩
  exact ⟨hnames, fun e he => (hmem e he).resolve_left (by simp)⟩

end Members

theorem memberNames_append {attributes : List (String × Attribute)}
    {blocks : List (String × Block)} (ha : MemberNames (Keyed.keys attributes))
    (hb : MemberNames (Keyed.keys blocks)) {u : Unit}
    (h : checkDisjoint attributes blocks = .ok u) :
    MemberNames (Keyed.keys attributes ++ Keyed.keys blocks) := by
  refine ⟨List.nodup_append'.2 ⟨ha.1, hb.1, fun name hna hnb => ?_⟩, fun name hn => ?_⟩
  · rw [checkDisjoint] at h
    split at h
    · cases h
    · next hnone =>
      obtain ⟨e, he, rfl⟩ := List.mem_map.1 hnb
      obtain ⟨a, hl⟩ := Keyed.exists_lookup hna
      exact absurd (by simp [hl]) (List.find?_eq_none.1 hnone e he)
  · exact (List.mem_append.1 hn).elim (ha.2 name) (hb.2 name)

theorem BlockTraits.valid_of_not {traits : BlockTraits}
    (h : ¬(0 < traits.maxItems && traits.maxItems < traits.minItems) = true) : traits.Valid := by
  by_cases hz : traits.maxItems = 0
  · exact .inl hz
  · have hpos : 0 < traits.maxItems := UInt64.pos_iff_ne_zero.2 hz
    simp only [Bool.and_eq_true, decide_eq_true_eq, not_and] at h
    exact .inr (UInt64.not_lt.1 (h hpos))

/-- An attribute is built from a type or from a group, with valid flags. -/
theorem AttributeDraft.build_eq_ok {d : AttributeDraft} {a : Attribute} (h : d.build = .ok a) :
    d.traits.flags.Valid ∧ ((∃ t, d.ty = some t ∧ a = .leaf t d.traits) ∨
      ∃ mode members result, d.nested = some (mode, members) ∧ members.build = .ok result ∧
        a = .group mode result d.traits) := by
  have hflags : ∀ built : Attribute,
      (if (d.traits.flags.required && d.traits.flags.optional) = true then
          Except.error (SchemaError.requiredAndOptional [])
        else if (!(d.traits.flags.required || d.traits.flags.optional ||
            d.traits.flags.computed)) = true then .error (.missingConstraint [])
        else .ok built) = .ok a → d.traits.flags.Valid ∧ a = built := by
    intro built hb
    split at hb
    · cases hb
    · next hro =>
      split at hb
      · cases hb
      · next hset =>
        cases hb
        refine ⟨⟨Bool.eq_false_iff.2 hro, ?_⟩, rfl⟩
        exact Bool.ne_false_iff.1 fun hnone => hset (by rw [hnone]; rfl)
  unfold AttributeDraft.build at h
  split at h
  · next t hty _ =>
    obtain ⟨hf, rfl⟩ := hflags _ h
    exact ⟨hf, .inl ⟨t, hty, rfl⟩⟩
  · next mode members _ hnested =>
    obtain ⟨result, hresult, h⟩ := Except.bind_eq_ok.1 h
    obtain ⟨hf, rfl⟩ := hflags _ h
    exact ⟨hf, .inr ⟨mode, members, result, hnested, hresult, rfl⟩⟩
  · cases h

/-! ## Attaching behaviour keeps them -/

theorem updateMember?_spec {α : Type} {name : String} {f : α → Option α}
    {members updated : List (String × α)} (h : updateMember? name f members = some updated) :
    Keyed.keys updated = Keyed.keys members ∧
      ∀ e ∈ updated, e ∈ members ∨ ∃ a, (e.1, a) ∈ members ∧ f a = some e.2 := by
  induction members generalizing updated with
  | nil => cases h
  | cons m rest ih =>
    obtain ⟨n, a⟩ := m
    rw [updateMember?] at h
    split at h
    · obtain ⟨b, hb, rfl⟩ := Option.map_eq_some_iff.1 h
      refine ⟨rfl, List.forall_mem_cons.2 ⟨.inr ⟨a, List.mem_cons_self, hb⟩, ?_⟩⟩
      intro e he
      exact .inl (List.mem_cons_of_mem _ he)
    · obtain ⟨tail, htail, rfl⟩ := Option.map_eq_some_iff.1 h
      obtain ⟨hkeys, hmem⟩ := ih htail
      refine ⟨congrArg (n :: ·) hkeys, List.forall_mem_cons.2 ⟨.inl List.mem_cons_self, ?_⟩⟩
      intro e he
      rcases hmem e he with he | ⟨b, hb, hf⟩
      · exact .inl (List.mem_cons_of_mem _ he)
      · exact .inr ⟨b, List.mem_cons_of_mem _ hb, hf⟩

theorem Attribute.WellFormed.attachAt? {behaviour : Behaviour} {names : List String}
    {a b : Attribute} (ha : a.WellFormed) (h : a.attachAt? behaviour names = some b) :
    b.WellFormed := by
  induction names generalizing a b with
  | nil =>
    cases h
    exact ha.withTraits ha.flags
  | cons name names ih =>
    cases ha with
    | leaf ht hf => cases h
    | group hn hm hf =>
      obtain ⟨updated, hu, rfl⟩ := Option.map_eq_some_iff.1 h
      obtain ⟨hkeys, hmem⟩ := updateMember?_spec hu
      refine .group (hkeys ▸ hn) (fun e he => ?_) hf
      rcases hmem e he with he | ⟨c, hc, hce⟩
      · exact hm e he
      · exact ih (hm _ hc) hce

theorem Block.WellFormed.attachAt? {behaviour : Behaviour} {names : List String} {b c : Block}
    (hb : b.WellFormed) (h : b.attachAt? behaviour names = some c) : c.WellFormed := by
  induction names generalizing b c with
  | nil =>
    cases h
    cases hb with
    | mk hn ha hb ht => exact .mk hn ha hb ht
  | cons name names ih =>
    cases hb with
    | mk hn ha hb ht =>
      rw [Block.attachAt?] at h
      split at h
      · obtain ⟨updated, hu, rfl⟩ := Option.map_eq_some_iff.1 h
        obtain ⟨hkeys, hmem⟩ := updateMember?_spec hu
        refine .mk (hkeys ▸ hn) (fun e he => ?_) hb ht
        rcases hmem e he with he | ⟨a, hmem, hae⟩
        · exact ha e he
        · exact (ha _ hmem).attachAt? hae
      · obtain ⟨updated, hu, rfl⟩ := Option.map_eq_some_iff.1 h
        obtain ⟨hkeys, hmem⟩ := updateMember?_spec hu
        refine .mk (hkeys ▸ hn) ha (fun e he => ?_) ht
        rcases hmem e he with he | ⟨d, hmem, hde⟩
        · exact hb e he
        · exact ih (hb _ hmem) hde

/-! ## Whatever is built is well formed -/

theorem Attribute.Built.wellFormed {a : Attribute} (h : a.Built) : a.WellFormed := by
  induction h with
  | @build d a hty hm hd ih =>
    obtain ⟨hf, ⟨t, ht, rfl⟩ | ⟨mode, members, result, hnested, hresult, rfl⟩⟩ :=
      AttributeDraft.build_eq_ok hd
    · exact .leaf (hty t ht) hf
    · obtain ⟨hnames, hmem⟩ := Members.build_spec hresult
      exact .group hnames (fun e he => ih mode members hnested _ _ (hmem e he)) hf
  | attachAt _ h ih => exact ih.attachAt? h

theorem Block.Built.wellFormed {b : Block} (h : b.Built) : b.WellFormed := by
  induction h with
  | @build d b ha hb hd ih =>
    unfold BlockDraft.build at hd
    obtain ⟨attributes, hattrs, hd⟩ := Except.bind_eq_ok.1 hd
    obtain ⟨blocks, hblocks, hd⟩ := Except.bind_eq_ok.1 hd
    obtain ⟨u, hdisj, hd⟩ := Except.bind_eq_ok.1 hd
    obtain ⟨hna, hma⟩ := Members.build_spec hattrs
    obtain ⟨hnb, hmb⟩ := Members.build_spec hblocks
    split at hd
    · cases hd
    · next hbounds =>
      cases hd
      exact .mk (memberNames_append hna hnb hdisj) (fun e he => (ha _ _ (hma e he)).wellFormed)
        (fun e he => ih _ _ (hmb e he)) (BlockTraits.valid_of_not hbounds)
  | attachAt _ h ih => exact ih.attachAt? h

theorem Schema.Built.wellFormed {s : Schema} (h : s.Built) : s.WellFormed := by
  obtain ⟨d, ha, hb, hd⟩ := h
  unfold SchemaDraft.build at hd
  obtain ⟨attributes, hattrs, hd⟩ := Except.bind_eq_ok.1 hd
  obtain ⟨blocks, hblocks, hd⟩ := Except.bind_eq_ok.1 hd
  obtain ⟨u, hdisj, hd⟩ := Except.bind_eq_ok.1 hd
  cases hd
  obtain ⟨hna, hma⟩ := Members.build_spec hattrs
  obtain ⟨hnb, hmb⟩ := Members.build_spec hblocks
  exact ⟨memberNames_append hna hnb hdisj, fun e he => (ha _ _ (hma e he)).wellFormed,
    fun e he => (hb _ _ (hmb e he)).wellFormed⟩

/-! ## An example

A server with a name, a list of disks and a set of rules. -/

namespace Server

/-- An optional attribute of a type. -/
def optional (t : Ty) : AttributeDraft :=
  ⟨some t, none, ⟨⟨false, true, false, false⟩, .empty, .none⟩⟩

def leaf (t : Ty) : Attribute := .leaf t ⟨⟨false, true, false, false⟩, .empty, .none⟩

def disks : AttributeDraft :=
  ⟨none, some (.list, [("label", (optional .string).build), ("size", (optional .number).build)]),
    ⟨⟨false, true, false, false⟩, .empty, .none⟩⟩

def rules : BlockDraft :=
  ⟨.set, [("note", (optional .string).build), ("port", (optional .number).build)], [],
    ⟨0, 0, .empty, .none⟩⟩

def draft : SchemaDraft :=
  ⟨1, [("name", (optional .string).build), ("disks", disks.build)], [("rules", rules.build)],
    .empty⟩

def schema : Schema :=
  ⟨1,
    [("name", leaf .string),
      ("disks", .group .list [("label", leaf .string), ("size", leaf .number)]
        ⟨⟨false, true, false, false⟩, .empty, .none⟩)],
    [("rules", ⟨.set, [("note", leaf .string), ("port", leaf .number)], [],
      ⟨0, 0, .empty, .none⟩⟩)],
    .empty⟩

theorem built_optional {t : Ty} {a : Attribute} (ht : t.WellFormed)
    (h : (optional t).build = .ok a) : a.Built :=
  .build (d := optional t) (fun u hu => by cases hu; exact ht) (fun _ _ hm => by cases hm) h

theorem built_disks {a : Attribute} (h : disks.build = .ok a) : a.Built := by
  refine .build (d := disks) (fun t ht => by cases ht) (fun mode members hm name b hb => ?_) h
  cases hm
  simp only [List.mem_cons, Prod.mk.injEq, List.not_mem_nil, or_false] at hb
  rcases hb with ⟨_, hb⟩ | ⟨_, hb⟩
  · exact built_optional (t := .string) trivial hb.symm
  · exact built_optional (t := .number) trivial hb.symm

theorem built_rules {b : Block} (h : rules.build = .ok b) : b.Built := by
  refine .build (d := rules) (fun name a ha => ?_) (fun name c hc => by cases hc) h
  simp only [rules, List.mem_cons, Prod.mk.injEq, List.not_mem_nil, or_false] at ha
  rcases ha with ⟨_, ha⟩ | ⟨_, ha⟩
  · exact built_optional (t := .string) trivial ha.symm
  · exact built_optional (t := .number) trivial ha.symm

theorem schema_built : schema.Built := by
  refine ⟨draft, fun name a ha => ?_, fun name b hb => ?_, rfl⟩
  · simp only [draft, List.mem_cons, Prod.mk.injEq, List.not_mem_nil, or_false] at ha
    rcases ha with ⟨_, ha⟩ | ⟨_, ha⟩
    · exact built_optional (t := .string) trivial ha.symm
    · exact built_disks ha.symm
  · simp only [draft, List.mem_singleton, Prod.mk.injEq] at hb
    exact built_rules hb.2.symm

end Server
end ResourceSchema
