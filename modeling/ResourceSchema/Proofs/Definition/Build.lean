import ResourceSchema.Proofs.Definition.Node
import ResourceSchema.Proofs.Recursion

/-!
# Building definitions

A node is built after its members. Building it checks its own rules, and what it finds is reported
at the path of the node. So a definition builds exactly if the rules hold at every depth, and the
error of one that does not is about a rule that the node at the path of the error breaks
(`SchemaDef.build_iff_lawful`).
-/

namespace ResourceSchema

variable {path : Path} {e : SchemaError}

/-! ## Errors and their paths -/

namespace SchemaError

/-- The path that an error carries. -/
def path? : SchemaError → Option Path
  | .typeXorNested path | .requiredAndOptional path | .missingConstraint path
  | .duplicateName path _ | .invalidName path _ | .invalidItemBounds path _ _ => some path
  | .definition _ => none

@[simp] theorem path?_under (parent : Path) (e : SchemaError) :
    (e.under parent).path? = e.path?.map fun p => parent ++ p := by
  cases e <;> rfl

end SchemaError

/-- At the nodes that are no attributes the rules are about names and bounds. -/
theorem DefNode.Lawful.of_level {n : DefNode} (hnames : MemberNames n.names)
    (hattr : ∀ d, n ≠ .attr d)
    (hbounds : ∀ d, n = .block d → d.maxItems = 0 ∨ d.minItems ≤ d.maxItems) : n.Lawful := by
  obtain ⟨ha, hb, hdisjoint⟩ := List.nodup_append'.1 hnames.1
  exact {
    kind := fun d hd => absurd hd (hattr d)
    exclusive := fun d hd => absurd hd (hattr d)
    constrained := fun d hd => absurd hd (hattr d)
    names := fun name hname => isMemberName_iff.1 (hnames.2 name hname)
    disjoint := fun name ha hb => hdisjoint ha hb
    distinct := ⟨ha, hb⟩
    bounds := hbounds }

theorem DefNode.Breaks.under {n : DefNode} (h : n.Breaks e) (parent : Path) :
    n.Breaks (e.under parent) := by
  cases h with
  | typeXorNested h => exact .typeXorNested h
  | requiredAndOptional hr ho => exact .requiredAndOptional hr ho
  | missingConstraint hr ho hc => exact .missingConstraint hr ho hc
  | invalidName hn h => exact .invalidName hn h
  | duplicateName h => exact .duplicateName h
  | invalidItemBounds h0 h => exact .invalidItemBounds h0 h

/-! ## Blame -/

/-- The node at the path of an error breaks the rule that the error is about; the path is continued
below this node, which stands at `path`. -/
def DefNode.Blames (n : DefNode) (path : Path) (e : SchemaError) : Prop :=
  ∃ p k, e.path? = some (path ++ p) ∧ n.LeadsTo p k ∧ k.Breaks e

namespace DefNode.Blames

variable {n : DefNode}

/-- An error of the node itself is reported at the path of the node. -/
theorem own (h : e.path? = some [] ∧ n.Breaks e) (path : Path) : n.Blames path (e.under path) :=
  ⟨[], n, by rw [SchemaError.path?_under, h.1]; rfl, .here, h.2.under path⟩

/-- An error of an attribute is passed on as it is. -/
theorem attr {c : String × AttributeDef} (hc : c ∈ n.attributes)
    (h : (DefNode.attr c.2).Blames (path ++ [.name c.1]) e) : n.Blames path e := by
  obtain ⟨p, k, hp, hk, hb⟩ := h
  exact ⟨.name c.1 :: p, k, by rw [hp, List.append_assoc]; rfl, .attr hc hk, hb⟩

/-- An error of a block is passed on as it is. -/
theorem block {c : String × BlockDef} (hc : c ∈ n.blocks)
    (h : (DefNode.block c.2).Blames (path ++ [.name c.1]) e) : n.Blames path e := by
  obtain ⟨p, k, hp, hk, hb⟩ := h
  exact ⟨.name c.1 :: p, k, by rw [hp, List.append_assoc]; rfl, .block hc hk, hb⟩

end DefNode.Blames

/-! ## The members of a level -/

/-- An error about the names of a level: one that is no identifier, or one that occurs twice. -/
inductive NamesBreak (names : List String) : SchemaError → Prop
  | invalid {name : String} (hn : name ∈ names) (h : ¬IsIdentifier name) :
      NamesBreak names (.invalidName [] name)
  | duplicate {name : String} (h : 2 ≤ names.count name) : NamesBreak names (.duplicateName [] name)

theorem NamesBreak.mono {names more : List String} (h : NamesBreak names e)
    (hs : names.Sublist more) : NamesBreak more e := by
  cases h with
  | invalid hn h => exact .invalid (hs.subset hn) h
  | duplicate h => exact .duplicate (Nat.le_trans h (hs.count_le _))

theorem NamesBreak.breaks {n : DefNode} (h : NamesBreak n.names e) :
    e.path? = some [] ∧ n.Breaks e := by
  cases h with
  | invalid hn h => exact ⟨rfl, .invalidName hn h⟩
  | duplicate h => exact ⟨rfl, .duplicateName h⟩

namespace Members

variable {α : Type} {members seen result : List (String × α)}

theorem check_ofBuilt_eq_ok (h : check seen (ofBuilt members) = .ok result) :
    result = seen ++ members := by
  induction members generalizing seen with
  | nil => cases h; exact (List.append_nil _).symm
  | cons m rest ih =>
    obtain ⟨name, a⟩ := m
    rw [ofBuilt, List.map_cons, ← ofBuilt, check] at h
    split at h
    · cases h
    · split at h
      · cases h
      · rw [ih h, List.append_assoc]
        rfl

theorem check_ofBuilt_eq_error (h : check seen (ofBuilt members) = .error e) :
    NamesBreak (Keyed.keys (seen ++ members)) e := by
  induction members generalizing seen with
  | nil => cases h
  | cons m rest ih =>
    obtain ⟨name, a⟩ := m
    rw [ofBuilt, List.map_cons, ← ofBuilt, check] at h
    rw [Keyed.keys_append, Keyed.keys_cons]
    split at h
    · next hname =>
      cases h
      rw [Bool.not_eq_true', ← Bool.not_eq_true, isMemberName_iff] at hname
      exact .invalid (by simp) hname
    · split at h
      · next hseen =>
        cases h
        have hmem : name ∈ Keyed.keys seen := by
          refine Classical.not_not.1 fun hne => ?_
          rw [Keyed.lookup_eq_none.2 hne] at hseen
          cases hseen
        have hcount := List.one_le_count_iff.2 hmem
        refine .duplicate ?_
        rw [List.count_append, List.count_cons_self]
        omega
      · have hrest := ih h
        rwa [List.append_assoc, List.singleton_append, Keyed.keys_append, Keyed.keys_cons] at hrest

theorem build_ofBuilt_eq_ok (h : build (ofBuilt members) = .ok result) :
    result = members ∧ MemberNames (Keyed.keys members) := by
  obtain rfl := check_ofBuilt_eq_ok h
  exact ⟨rfl, (build_spec h).1⟩

theorem build_ofBuilt_eq_error (h : build (ofBuilt members) = .error e) :
    NamesBreak (Keyed.keys members) e := by
  have h : check [] (ofBuilt members) = .error e := h
  exact check_ofBuilt_eq_error h

end Members

section Level

variable {attributes as : List (String × Attribute)} {blocks bs : List (String × Block)}

/-- Builds the members of one level. -/
def buildLevel (attributes : List (String × Attribute)) (blocks : List (String × Block)) :
    Except SchemaError (List (String × Attribute) × List (String × Block)) := do
  let attributes ← (Members.ofBuilt attributes).build
  let blocks ← (Members.ofBuilt blocks).build
  checkDisjoint attributes blocks
  return (attributes, blocks)

theorem buildLevel_eq_ok (h : buildLevel attributes blocks = .ok (as, bs)) :
    as = attributes ∧ bs = blocks ∧ MemberNames (Keyed.keys attributes ++ Keyed.keys blocks) := by
  obtain ⟨as, has, h⟩ := Except.bind_eq_ok.1 h
  obtain ⟨bs, hbs, h⟩ := Except.bind_eq_ok.1 h
  obtain ⟨_, hdisjoint, h⟩ := Except.bind_eq_ok.1 h
  cases h
  obtain ⟨rfl, ha⟩ := Members.build_ofBuilt_eq_ok has
  obtain ⟨rfl, hb⟩ := Members.build_ofBuilt_eq_ok hbs
  exact ⟨rfl, rfl, memberNames_append ha hb hdisjoint⟩

theorem checkDisjoint_eq_error (h : checkDisjoint attributes blocks = .error e) :
    NamesBreak (Keyed.keys attributes ++ Keyed.keys blocks) e := by
  unfold checkDisjoint at h
  split at h
  · next name _ hfound =>
    cases h
    have hblock : name ∈ Keyed.keys blocks :=
      Keyed.mem_keys_of_mem (List.mem_of_find?_eq_some hfound)
    have hattribute : name ∈ Keyed.keys attributes := by
      refine Classical.not_not.1 fun hne => ?_
      have hsome := List.find?_some hfound
      simp [Keyed.lookup_eq_none.2 hne] at hsome
    have ha := List.one_le_count_iff.2 hattribute
    have hb := List.one_le_count_iff.2 hblock
    refine .duplicate ?_
    rw [List.count_append]
    omega
  · cases h

theorem buildLevel_eq_error (h : buildLevel attributes blocks = .error e) :
    NamesBreak (Keyed.keys attributes ++ Keyed.keys blocks) e := by
  rcases Except.bind_eq_error.1 h with ha | ⟨as, has, hrest⟩
  · exact (Members.build_ofBuilt_eq_error ha).mono (List.sublist_append_left _ _)
  rcases Except.bind_eq_error.1 hrest with hb | ⟨bs, hbs, hlast⟩
  · exact (Members.build_ofBuilt_eq_error hb).mono (List.sublist_append_right _ _)
  rw [(Members.build_ofBuilt_eq_ok has).1, (Members.build_ofBuilt_eq_ok hbs).1] at hlast
  rcases Except.bind_eq_error.1 hlast with hdisjoint | ⟨_, _, hdone⟩
  · exact checkDisjoint_eq_error hdisjoint
  · cases hdone

end Level

/-! ## One node, its members built -/

namespace AttributeDef

variable {d : AttributeDef} {members : List (String × Attribute)} {a : Attribute}

/-- The draft of an attribute whose nested attributes have been built. -/
def draft (d : AttributeDef) (members : List (String × Attribute)) : AttributeDraft :=
  ⟨d.ty, d.nested.map fun group => (group.1, .ofBuilt members), ⟨d.flags, d.docs, .none⟩⟩

theorem build_eq (path : Path) (d : AttributeDef) : d.build path = (do
    let members ← buildMembers path (DefNode.attr d).attributes
    (d.draft members).build.mapError (·.under path)) := by
  obtain ⟨ty, nested, flags, docs⟩ := d
  cases nested with
  | none => rw [build]; rfl
  | some group =>
    obtain ⟨mode, defs⟩ := group
    rw [build]
    simp only [DefNode.attributes, Option.elim, pure_bind]
    rfl

/-- An attribute that is built has exactly one of a type and a group. -/
theorem draft_eq_ok (hk : Keyed.keys members = Keyed.keys (DefNode.attr d).attributes)
    (h : (d.draft members).build = .ok a) :
    (DefNode.attr d).Lawful ∧
      ((∃ t, d.ty = some t ∧ d.nested = none ∧ a = .leaf t ⟨d.flags, d.docs, .none⟩) ∨
        ∃ mode defs, d.ty = none ∧ d.nested = some (mode, defs) ∧
          a = .group mode members ⟨d.flags, d.docs, .none⟩) := by
  obtain ⟨hflags, hshape⟩ := AttributeDraft.build_eq_ok h
  have hflags : d.flags.Valid := hflags
  have lawful (hkind : d.ty.isSome ≠ d.nested.isSome)
      (hnames : MemberNames (Keyed.keys (DefNode.attr d).attributes)) :
      (DefNode.attr d).Lawful := {
    kind := by rintro _ ⟨⟩; exact hkind
    exclusive := by rintro _ ⟨⟩; simpa using hflags.1
    constrained := by rintro _ ⟨⟩; simpa [or_assoc] using hflags.2
    names := by simpa [DefNode.names, DefNode.blocks, isMemberName_iff] using hnames.2
    disjoint := by simp [DefNode.blocks]
    distinct := ⟨hnames.1, List.nodup_nil⟩
    bounds := by rintro _ ⟨⟩ }
  obtain ⟨ty, nested, flags, docs⟩ := d
  rcases hshape with ⟨t, hty, rfl⟩ | ⟨mode, built, result, hnested, hresult, rfl⟩
  · obtain rfl : ty = some t := hty
    cases nested with
    | none => exact ⟨lawful (by simp) ⟨List.nodup_nil, by simp [DefNode.attributes]⟩,
        .inl ⟨t, rfl, rfl, rfl⟩⟩
    | some group => cases h
  · cases nested with
    | none => cases hnested
    | some group =>
      cases hnested
      obtain ⟨rfl, hnames⟩ := Members.build_ofBuilt_eq_ok hresult
      cases ty with
      | none => exact ⟨lawful (by simp) (hk ▸ hnames), .inr ⟨_, _, rfl, rfl, rfl⟩⟩
      | some t => cases h

theorem checkFlags_eq_error {built : Attribute}
    (h : (if d.flags.required && d.flags.optional then .error (.requiredAndOptional [])
      else if !(d.flags.required || d.flags.optional || d.flags.computed) then
        .error (.missingConstraint [])
      else .ok built : Except SchemaError Attribute) = .error e) :
    e.path? = some [] ∧ (DefNode.attr d).Breaks e := by
  split at h
  · next hboth =>
    cases h
    obtain ⟨hr, ho⟩ := Bool.and_eq_true_iff.1 hboth
    exact ⟨rfl, .requiredAndOptional hr ho⟩
  · split at h
    · next hneither =>
      cases h
      simp only [Bool.not_eq_true', Bool.or_eq_false_iff] at hneither
      exact ⟨rfl, .missingConstraint hneither.1.1 hneither.1.2 hneither.2⟩
    · cases h

theorem draft_eq_error (hk : Keyed.keys members = Keyed.keys (DefNode.attr d).attributes)
    (h : (d.draft members).build = .error e) :
    e.path? = some [] ∧ (DefNode.attr d).Breaks e := by
  obtain ⟨ty, nested, flags, docs⟩ := d
  cases ty with
  | none =>
    cases nested with
    | none => cases h; exact ⟨rfl, .typeXorNested rfl⟩
    | some group =>
      rcases Except.bind_eq_error.1 h with h | ⟨_, _, h⟩
      · refine NamesBreak.breaks ((Members.build_ofBuilt_eq_error h).mono ?_)
        rw [hk]
        exact List.sublist_append_left _ _
      · exact checkFlags_eq_error h
  | some t =>
    cases nested with
    | none => exact checkFlags_eq_error h
    | some group => cases h; exact ⟨rfl, .typeXorNested rfl⟩

/-! ## Members in sequence -/

end AttributeDef

section Sequence

variable {α β : Type} {f : Path → α → Except SchemaError β} {defs : List (String × α)}
  {members : List (String × β)}

/-- Builds the member that stands below `path` under its name. -/
def buildNamed (f : Path → α → Except SchemaError β) (path : Path) (d : String × α) :
    Except SchemaError (String × β) := do
  let b ← f (path ++ [.name d.1]) d.2
  return (d.1, b)

/-- Members built one by one are related to their definitions as each one built is. -/
theorem mapM_buildNamed_eq_ok {R : α → β → Prop} (h : defs.mapM (buildNamed f path) = .ok members)
    (hR : ∀ d ∈ defs, ∀ path b, f path d.2 = .ok b → R d.2 b) :
    List.Forall₂ (fun d m => m.1 = d.1 ∧ R d.2 m.2) defs members := by
  have hbuilt := (List.forall₂_and_left _ _).2 ⟨hR, Except.mapM_eq_ok.1 h⟩
  refine hbuilt.imp fun d m ⟨hR, hm⟩ => ?_
  obtain ⟨b, hb, hm⟩ := Except.bind_eq_ok.1 hm
  cases hm
  exact ⟨rfl, hR _ b hb⟩

theorem keys_of_mapM_buildNamed (h : defs.mapM (buildNamed f path) = .ok members) :
    Keyed.keys members = Keyed.keys defs := by
  have hkeys := mapM_buildNamed_eq_ok (R := fun _ _ => True) h fun _ _ _ _ _ => trivial
  clear h
  induction hkeys with
  | nil => rfl
  | cons hd _ ih => simp [hd.1, ih]

theorem mapM_buildNamed_eq_error (h : defs.mapM (buildNamed f path) = .error e) :
    ∃ d ∈ defs, f (path ++ [.name d.1]) d.2 = .error e := by
  obtain ⟨d, hd, he⟩ := Except.mapM_eq_error h
  refine ⟨d, hd, (Except.bind_eq_error.1 he).resolve_right ?_⟩
  rintro ⟨b, _, hdone⟩
  cases hdone

theorem spec_of_mapM_buildNamed {P : α → Prop} {g : β → α}
    (h : defs.mapM (buildNamed f path) = .ok members)
    (hd : ∀ d ∈ defs, ∀ path b, f path d.2 = .ok b → P d.2 ∧ g b = d.2) :
    (∀ d ∈ defs, P d.2) ∧ (members.map fun m => (m.1, g m.2)) = defs := by
  have hbuilt := mapM_buildNamed_eq_ok (R := fun d b => P d ∧ g b = d) h hd
  clear h hd
  induction hbuilt with
  | nil => exact ⟨by simp, rfl⟩
  | @cons d m defs members hm _ ih =>
    obtain ⟨hname, hp, hg⟩ := hm
    exact ⟨List.forall_mem_cons.2 ⟨hp, ih.1⟩, by rw [List.map_cons, ih.2, hname, hg]⟩

end Sequence

namespace AttributeDef

variable {d : AttributeDef} {a : Attribute} {defs : List (String × AttributeDef)}
  {members : List (String × Attribute)}

theorem buildMembers_eq_mapM (path : Path) (defs : List (String × AttributeDef)) :
    buildMembers path defs = defs.mapM (buildNamed build path) :=
  eq_mapM_of_cons (f := buildMembers path) rfl
    (fun _ _ => by simp only [buildMembers, buildNamed, bind_assoc, pure_bind]) defs

@[simp] theorem ofMembers_eq_map (members : List (String × Attribute)) :
    ofMembers members = members.map fun m => (m.1, ofAttribute m.2) :=
  eq_map_of_cons rfl (fun _ _ => rfl) members

theorem build_eq_error (h : d.build path = .error e) : (DefNode.attr d).Blames path e := by
  induction d using AttributeDef.induct generalizing path with
  | h d ih =>
    rw [build_eq, buildMembers_eq_mapM] at h
    rcases Except.bind_eq_error.1 h with h | ⟨members, hmembers, h⟩
    · obtain ⟨c, hc, h⟩ := mapM_buildNamed_eq_error h
      exact .attr hc (ih c hc h)
    · obtain ⟨own, hown, rfl⟩ := Except.mapError_eq_error.1 h
      exact .own (draft_eq_error (keys_of_mapM_buildNamed hmembers) hown) path

theorem build_eq_ok (h : d.build path = .ok a) :
    (DefNode.attr d).All DefNode.Lawful ∧ ofAttribute a = d := by
  induction d using AttributeDef.induct generalizing path a with
  | h d ih =>
    rw [build_eq, buildMembers_eq_mapM] at h
    obtain ⟨members, hmembers, h⟩ := Except.bind_eq_ok.1 h
    obtain ⟨hlawful, hshape⟩ :=
      draft_eq_ok (keys_of_mapM_buildNamed hmembers) (Except.mapError_eq_ok.1 h)
    obtain ⟨hbelow, heq⟩ := spec_of_mapM_buildNamed
      (P := fun c => (DefNode.attr c).All DefNode.Lawful) (g := ofAttribute) hmembers
      fun c hc _ _ => ih c hc
    rw [← ofMembers_eq_map] at heq
    refine ⟨DefNode.all_iff.2 ⟨hlawful, hbelow, by simp [DefNode.blocks]⟩, ?_⟩
    obtain ⟨ty, nested, flags, docs⟩ := d
    rcases hshape with ⟨t, rfl, rfl, rfl⟩ | ⟨mode, defs, rfl, rfl, rfl⟩
    · rfl
    · obtain rfl : ofMembers members = defs := heq
      rfl

end AttributeDef

/-! ## Blocks -/

namespace BlockDef

variable {d : BlockDef} {attributes : List (String × Attribute)} {blocks : List (String × Block)}
  {b : Block}

/-- The traits of a block without behaviour. -/
def traits (d : BlockDef) : BlockTraits := ⟨d.minItems, d.maxItems, d.docs, .none⟩

/-- The draft of a block whose members have been built. -/
def draft (d : BlockDef) (attributes : List (String × Attribute)) (blocks : List (String × Block)) :
    BlockDraft := ⟨d.nesting, .ofBuilt attributes, .ofBuilt blocks, d.traits⟩

theorem build_eq (path : Path) (d : BlockDef) : d.build path = (do
    let attributes ← AttributeDef.buildMembers path d.attributes
    let blocks ← buildMembers path d.blocks
    (d.draft attributes blocks).build.mapError (·.under path)) := by
  obtain ⟨nesting, minItems, maxItems, docs, attributes, blocks⟩ := d
  rw [build]
  rfl

theorem draft_build_eq (d : BlockDef) : (d.draft attributes blocks).build = (do
    let level ← buildLevel attributes blocks
    if 0 < d.maxItems && d.maxItems < d.minItems then
      .error (.invalidItemBounds [] d.minItems d.maxItems)
    else .ok ⟨d.nesting, level.1, level.2, d.traits⟩) := by
  simp only [BlockDraft.build, buildLevel, bind_assoc, pure_bind]
  rfl

theorem draft_eq_ok (ha : Keyed.keys attributes = Keyed.keys d.attributes)
    (hb : Keyed.keys blocks = Keyed.keys d.blocks) (h : (d.draft attributes blocks).build = .ok b) :
    (DefNode.block d).Lawful ∧ b = ⟨d.nesting, attributes, blocks, d.traits⟩ := by
  rw [draft_build_eq] at h
  obtain ⟨⟨as, bs⟩, hlevel, hrest⟩ := Except.bind_eq_ok.1 h
  obtain ⟨rfl, rfl, hnames⟩ := buildLevel_eq_ok hlevel
  rw [ha, hb] at hnames
  split at hrest
  · cases hrest
  · next hbounds =>
    cases hrest
    have hvalid : d.traits.Valid := BlockTraits.valid_of_not hbounds
    refine ⟨.of_level hnames nofun ?_, rfl⟩
    rintro _ ⟨⟩
    exact hvalid

theorem draft_eq_error (ha : Keyed.keys attributes = Keyed.keys d.attributes)
    (hb : Keyed.keys blocks = Keyed.keys d.blocks)
    (h : (d.draft attributes blocks).build = .error e) :
    e.path? = some [] ∧ (DefNode.block d).Breaks e := by
  rw [draft_build_eq] at h
  rcases Except.bind_eq_error.1 h with h | ⟨level, _, h⟩
  · refine NamesBreak.breaks ?_
    have hbreak := buildLevel_eq_error h
    rwa [ha, hb] at hbreak
  · split at h
    · next hbounds =>
      cases h
      obtain ⟨hpos, hlt⟩ := Bool.and_eq_true_iff.1 hbounds
      exact ⟨rfl, .invalidItemBounds (UInt64.pos_iff_ne_zero.1 (of_decide_eq_true hpos))
        (of_decide_eq_true hlt)⟩
    · cases h

theorem buildMembers_eq_mapM (path : Path) (defs : List (String × BlockDef)) :
    buildMembers path defs = defs.mapM (buildNamed build path) :=
  eq_mapM_of_cons (f := buildMembers path) rfl
    (fun _ _ => by simp only [buildMembers, buildNamed, bind_assoc, pure_bind]) defs

@[simp] theorem ofMembers_eq_map (members : List (String × Block)) :
    ofMembers members = members.map fun m => (m.1, ofBlock m.2) :=
  eq_map_of_cons rfl (fun _ _ => rfl) members

theorem build_eq_error (h : d.build path = .error e) : (DefNode.block d).Blames path e := by
  induction d using BlockDef.induct generalizing path with
  | h d ih =>
    rw [build_eq, AttributeDef.buildMembers_eq_mapM, buildMembers_eq_mapM] at h
    rcases Except.bind_eq_error.1 h with h | ⟨attributes, ha, h⟩
    · obtain ⟨c, hc, h⟩ := mapM_buildNamed_eq_error h
      exact .attr hc (AttributeDef.build_eq_error h)
    rcases Except.bind_eq_error.1 h with h | ⟨blocks, hb, h⟩
    · obtain ⟨c, hc, h⟩ := mapM_buildNamed_eq_error h
      exact .block hc (ih c hc h)
    · obtain ⟨own, hown, rfl⟩ := Except.mapError_eq_error.1 h
      exact .own (draft_eq_error (keys_of_mapM_buildNamed ha) (keys_of_mapM_buildNamed hb) hown)
        path

theorem build_eq_ok (h : d.build path = .ok b) :
    (DefNode.block d).All DefNode.Lawful ∧ ofBlock b = d := by
  induction d using BlockDef.induct generalizing path b with
  | h d ih =>
    rw [build_eq, AttributeDef.buildMembers_eq_mapM, buildMembers_eq_mapM] at h
    obtain ⟨attributes, ha, h⟩ := Except.bind_eq_ok.1 h
    obtain ⟨blocks, hb, h⟩ := Except.bind_eq_ok.1 h
    obtain ⟨hlawful, rfl⟩ := draft_eq_ok (keys_of_mapM_buildNamed ha) (keys_of_mapM_buildNamed hb)
      (Except.mapError_eq_ok.1 h)
    obtain ⟨hattributes, hofa⟩ := spec_of_mapM_buildNamed
      (P := fun c => (DefNode.attr c).All DefNode.Lawful) (g := AttributeDef.ofAttribute) ha
      fun c _ _ _ hc => AttributeDef.build_eq_ok hc
    obtain ⟨hblocks, hofb⟩ := spec_of_mapM_buildNamed
      (P := fun c => (DefNode.block c).All DefNode.Lawful) (g := ofBlock) hb fun c hc _ _ => ih c hc
    refine ⟨DefNode.all_iff.2 ⟨hlawful, hattributes, hblocks⟩, ?_⟩
    rw [ofBlock, AttributeDef.ofMembers_eq_map, ofMembers_eq_map, hofa, hofb]
    cases d
    rfl

end BlockDef

/-! ## Schemas -/

namespace SchemaDef

variable {d : SchemaDef} {s : Schema}

theorem build_eq (d : SchemaDef) : d.build = (do
    let attributes ← AttributeDef.buildMembers [] d.attributes
    let blocks ← BlockDef.buildMembers [] d.blocks
    let level ← buildLevel attributes blocks
    return ⟨d.version, level.1, level.2, d.docs⟩) := by
  simp only [build, toDraft, SchemaDraft.build, buildLevel, bind_assoc, pure_bind]

theorem build_eq_error (h : d.build = .error e) : (DefNode.schema d).Blames [] e := by
  rw [build_eq, AttributeDef.buildMembers_eq_mapM, BlockDef.buildMembers_eq_mapM] at h
  rcases Except.bind_eq_error.1 h with h | ⟨attributes, ha, h⟩
  · obtain ⟨c, hc, h⟩ := mapM_buildNamed_eq_error h
    exact .attr hc (AttributeDef.build_eq_error h)
  rcases Except.bind_eq_error.1 h with h | ⟨blocks, hb, h⟩
  · obtain ⟨c, hc, h⟩ := mapM_buildNamed_eq_error h
    exact .block hc (BlockDef.build_eq_error h)
  rcases Except.bind_eq_error.1 h with h | ⟨_, _, hdone⟩
  · have hbreak := buildLevel_eq_error h
    rw [keys_of_mapM_buildNamed ha, keys_of_mapM_buildNamed hb] at hbreak
    obtain ⟨hp, hn⟩ := NamesBreak.breaks (n := .schema d) hbreak
    exact ⟨[], _, hp, .here, hn⟩
  · cases hdone

theorem build_eq_ok (h : d.build = .ok s) :
    (DefNode.schema d).All DefNode.Lawful ∧ ofSchema s = d := by
  rw [build_eq, AttributeDef.buildMembers_eq_mapM, BlockDef.buildMembers_eq_mapM] at h
  obtain ⟨attributes, ha, h⟩ := Except.bind_eq_ok.1 h
  obtain ⟨blocks, hb, h⟩ := Except.bind_eq_ok.1 h
  obtain ⟨⟨as, bs⟩, hlevel, h⟩ := Except.bind_eq_ok.1 h
  cases h
  obtain ⟨rfl, rfl, hnames⟩ := buildLevel_eq_ok hlevel
  rw [keys_of_mapM_buildNamed ha, keys_of_mapM_buildNamed hb] at hnames
  obtain ⟨hattributes, hofa⟩ := spec_of_mapM_buildNamed
    (P := fun c => (DefNode.attr c).All DefNode.Lawful) (g := AttributeDef.ofAttribute) ha
    fun c _ _ _ hc => AttributeDef.build_eq_ok hc
  obtain ⟨hblocks, hofb⟩ := spec_of_mapM_buildNamed
    (P := fun c => (DefNode.block c).All DefNode.Lawful) (g := BlockDef.ofBlock) hb
    fun c _ _ _ hc => BlockDef.build_eq_ok hc
  refine ⟨DefNode.all_iff.2 ⟨?_, hattributes, hblocks⟩, ?_⟩
  · exact .of_level hnames nofun nofun
  · rw [ofSchema, AttributeDef.ofMembers_eq_map, BlockDef.ofMembers_eq_map, hofa, hofb]

/-- A definition is built exactly if the rules hold at every depth. If it is not built, then the
node at the path of the error breaks the rule that the error is about. -/
theorem build_iff_lawful (d : SchemaDef) :
    ((∃ s, d.build = .ok s) ↔ ∀ p n, (DefNode.schema d).LeadsTo p n → n.Lawful) ∧
      ∀ e, d.build = .error e →
        ∃ p n, e.path? = some p ∧ (DefNode.schema d).LeadsTo p n ∧ n.Breaks e := by
  refine ⟨⟨fun ⟨s, hs⟩ => (build_eq_ok hs).1, fun hlawful => ?_⟩, fun e => build_eq_error⟩
  cases hbuild : d.build with
  | ok s => exact ⟨s, rfl⟩
  | error e =>
    obtain ⟨p, n, _, hn, hb⟩ := build_eq_error hbuild
    exact absurd hb (hlawful p n hn).not_breaks

end SchemaDef

/-! ## An example -/

namespace Server

/-- A server whose disks have rules of which there must be more than there may be. -/
def unboundedDef : SchemaDef :=
  ⟨1, .empty, [], [("disks", ⟨.list, 0, 0, .empty, [("size", ⟨some .number, none,
    ⟨true, false, false, false⟩, .empty⟩)], [("rules", ⟨.set, 4, 1, .empty, [], []⟩)]⟩)]⟩

end Server

theorem SchemaDef.build_iff_lawful_unbounded :
    let e := SchemaError.invalidItemBounds [.name "disks", .name "rules"] 4 1
    Server.unboundedDef.build = .error e ∧
      (∃ n, (DefNode.schema Server.unboundedDef).LeadsTo [.name "disks", .name "rules"] n ∧
        n.Breaks e) ∧
      ¬∀ p n, (DefNode.schema Server.unboundedDef).LeadsTo p n → n.Lawful := by
  intro e
  have hbuild : Server.unboundedDef.build = .error e := rfl
  obtain ⟨hiff, herror⟩ := build_iff_lawful Server.unboundedDef
  obtain ⟨p, n, hp, hn, hb⟩ := herror e hbuild
  obtain rfl := Option.some.inj hp
  refine ⟨hbuild, ⟨n, hn, hb⟩, fun hlawful => ?_⟩
  obtain ⟨s, hs⟩ := hiff.2 hlawful
  rw [hbuild] at hs
  cases hs

end ResourceSchema
