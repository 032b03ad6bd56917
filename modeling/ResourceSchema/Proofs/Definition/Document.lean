import ResourceSchema.Definition.Printer
import ResourceSchema.Definition.Reader
import ResourceSchema.Proofs.Definition.Node
import ResourceSchema.Proofs.Recursion

/-!
# Documents of definitions read back

A definition is read back from its document, down to the types of its attributes
(`SchemaDef.ofDocument?_toJson`). A record is read field by field, from one where no field is set:
the fields of its document set what they were printed from, and the fields that are not there were
not set.
-/

namespace ResourceSchema

/-! ## Documents of members -/

@[simp] theorem Document.ofMembers_eq_map (members : List (String × Json)) :
    ofMembers members = members.map fun m => (m.1, ofJson m.2) :=
  eq_map_of_cons rfl (fun _ _ => rfl) members

/-- Members printed one by one are read one by one. -/
theorem mapM_ofMembers {α : Type} {read : Document → Option α} {print : α → Json}
    {members : List (String × α)} (h : ∀ e ∈ members, read (.ofJson (print e.2)) = some e.2) :
    (Document.ofMembers (members.map fun e => (e.1, print e.2))).mapM
      (fun e => do return (e.1, ← read e.2)) = some members := by
  induction members with
  | nil => rfl
  | cons e rest ih =>
    obtain ⟨he, hrest⟩ := List.forall_mem_cons.1 h
    rw [List.map_cons, Document.ofMembers, List.mapM_cons, he, ih hrest]
    rfl

@[simp] theorem distinctNames_iff {α : Type} {entries : List (String × α)} :
    distinctNames entries = true ↔ (Keyed.keys entries).Nodup := by
  induction entries with
  | nil => simp [distinctNames]
  | cons e rest ih =>
    obtain ⟨name, a⟩ := e
    rw [distinctNames, Bool.and_eq_true, ih, Option.isNone_iff_eq_none, Keyed.lookup_eq_none,
      Keyed.keys_cons, List.nodup_cons]

theorem distinctNames_ofMembers {members : List (String × Json)} :
    distinctNames (Document.ofMembers members) = true ↔ (Keyed.keys members).Nodup := by
  simp

/-! ## Fields set one after another -/

section Fields

variable {σ : Type} {f : String → Document → σ → Option σ} {s t u : σ}
  {members others : List (String × Json)}

/-- Setting the fields of a document one after another leads from one record to another. -/
def Sets (f : String → Document → σ → Option σ) (s : σ) (members : List (String × Json))
    (t : σ) : Prop :=
  (Document.ofMembers members).foldlM (fun s e => f e.1 e.2 s) s = some t

theorem Sets.nil : Sets f s [] s := rfl

theorem Sets.one {name : String} {j : Json} (h : f name (.ofJson j) s = some t) :
    Sets f s [(name, j)] t := by
  rw [Sets, Document.ofMembers, Document.ofMembers, List.foldlM_cons, h]
  rfl

theorem Sets.append (h : Sets f s members t) (h' : Sets f t others u) :
    Sets f s (members ++ others) u := by
  rw [Sets, Document.ofMembers_eq_map] at h h' ⊢
  rw [List.map_append, List.foldlM_append, h]
  exact h'

theorem Sets.text {g : Option String → σ} {name : String}
    (h : ∀ s, f name (.ofJson (.string s)) (g none) = some (g (some s)))
    (text : Option String) : Sets f (g none) (textMember name text) (g text) := by
  cases text with
  | none => exact .nil
  | some s => exact .one (h s)

/-- The texts of a record are set by the members they are printed as. -/
theorem Sets.docs {g : Documentation → σ}
    (h : ∀ name ∈ ["description", "markdown_description", "deprecation_message"], ∀ d docs,
      f name d (g docs) = (docs.setField? name d).map g) (docs : Documentation) :
    Sets f (g .empty) docs.members (g docs) := by
  have hdescription := Sets.text (g := fun t => g ⟨t, none, none⟩)
    (fun s => h "description" (by simp) _ _) docs.description
  have hmarkdown := Sets.text (g := fun t => g ⟨docs.description, t, none⟩)
    (fun s => h "markdown_description" (by simp) _ _) docs.markdownDescription
  have hdeprecation := Sets.text
    (g := fun t => g ⟨docs.description, docs.markdownDescription, t⟩)
    (fun s => h "deprecation_message" (by simp) _ _) docs.deprecationMessage
  exact (hdescription.append hmarkdown).append hdeprecation

@[simp] theorem uint64?_ofUInt64 (n : UInt64) :
    (Document.ofJson (.number (.ofUInt64 n))).uint64? = some n := by
  have hlt : n.toNat < 0x10000000000000000 := n.toNat_lt
  show (if n.toNat < 0x10000000000000000 then some (UInt64.ofNat n.toNat) else none) = some n
  rw [if_pos hlt, UInt64.ofNat_toNat]

@[simp]
theorem int64?_ofInt64 (i : Int64) : (Document.ofJson (.number (.ofInt64 i))).int64? = some i := by
  show (if -0x8000000000000000 ≤ i.toInt ∧ i.toInt < 0x8000000000000000 then
    some (Int64.ofInt i.toInt) else none) = some i
  rw [if_pos ⟨i.le_toInt, i.toInt_lt⟩, Int64.ofInt_toInt]

theorem Sets.count {g : UInt64 → σ} {name : String}
    (h : ∀ d : Document, f name d (g 0) = d.uint64?.map g) (n : UInt64) :
    Sets f (g 0) (countMember name n) (g n) := by
  unfold countMember
  split
  · next hzero => rw [hzero]; exact .nil
  · exact .one (by rw [h, uint64?_ofUInt64]; rfl)

/-- An object that is left out where it is empty sets what was printed as it. -/
theorem Sets.object {α : Type} {g : List α → σ} {name : String} {defs : List α}
    (hnil : members = [] → defs = [])
    (h : f name (.mapping (Document.ofMembers members)) (g []) = some (g defs)) :
    Sets f (g []) (objectMember name members) (g defs) := by
  unfold objectMember
  split
  · next hempty =>
    rw [hnil (List.isEmpty_iff.1 hempty)]
    exact .nil
  · exact .one h

/-! ## Names of fields -/

theorem keys_textMember (name : String) (text : Option String) :
    (Keyed.keys (textMember name text)).Sublist [name] := by
  cases text <;> simp [textMember]

theorem keys_flagMember (name : String) (flag : Bool) :
    (Keyed.keys (flagMember name flag)).Sublist [name] := by
  cases flag <;> simp [flagMember]

theorem keys_countMember (name : String) (n : UInt64) :
    (Keyed.keys (countMember name n)).Sublist [name] := by
  unfold countMember
  split <;> simp

theorem keys_objectMember (name : String) (members : List (String × Json)) :
    (Keyed.keys (objectMember name members)).Sublist [name] := by
  unfold objectMember
  split <;> simp

theorem keys_docs (docs : Documentation) : (Keyed.keys docs.members).Sublist
    ["description", "markdown_description", "deprecation_message"] := by
  rw [Documentation.members, Keyed.keys_append, Keyed.keys_append]
  exact ((keys_textMember _ _).append (keys_textMember _ _)).append (keys_textMember _ _)

theorem keys_flags (flags : Flags) : (Keyed.keys flags.members).Sublist
    ["required", "optional", "computed", "sensitive"] := by
  rw [Flags.members, Keyed.keys_append, Keyed.keys_append, Keyed.keys_append]
  exact (((keys_flagMember _ _).append (keys_flagMember _ _)).append
    (keys_flagMember _ _)).append (keys_flagMember _ _)

end Fields

/-! ## Types -/

@[simp] theorem Ty.attributesJson_eq_map (attributes : List (String × Ty)) :
    attributesJson attributes = attributes.map fun e => (e.1, e.2.toJson) :=
  eq_map_of_cons rfl (fun _ _ => rfl) attributes

theorem Ty.attributesOfEntries?_eq_mapM (entries : List (String × Document)) :
    attributesOfEntries? entries = entries.mapM fun e => do return (e.1, ← ofDocument? e.2) :=
  eq_mapM_of_cons (f := attributesOfEntries?) rfl
    (fun e _ => by rw [attributesOfEntries?]; cases ofDocument? e.2 <;> rfl) entries

theorem Ty.ofDocument?_toJson {t : Ty} (ht : t.WellFormed) :
    ofDocument? (.ofJson t.toJson) = some t := by
  induction t using Ty.induct with
  | string | number | bool => rfl
  | list t ih | set t ih | map t ih =>
    rw [toJson, Document.ofJson, Document.ofMembers, Document.ofMembers, ofDocument?, ih ht]
    rfl
  | object attributes ih =>
    obtain ⟨hsorted, hattributes⟩ := wellFormed_object_iff.1 ht
    have hread := mapM_ofMembers fun e he => ih e he (hattributes e he)
    rw [toJson, Document.ofJson, Document.ofMembers, Document.ofMembers, Document.ofJson,
      ofDocument?, attributesJson_eq_map, attributesOfEntries?_eq_mapM, hread, Option.map_some,
      ofAttributes, Keyed.sorted_eq_self hsorted]

@[simp] theorem Ty.isAbsent_toJson (t : Ty) : (Document.ofJson t.toJson).isAbsent = false := by
  cases t <;> rfl

/-! ## Attributes -/

/-- What the data types of a definition ensure: members are found by name, and the types of
attributes are well formed. -/
structure DefNode.Regular (n : DefNode) : Prop where
  attributes : (Keyed.keys n.attributes).Nodup
  blocks : (Keyed.keys n.blocks).Nodup
  ty : ∀ d t, n = .attr d → d.ty = some t → t.WellFormed

namespace AttributeDef

variable {d : AttributeDef} {defs : List (String × AttributeDef)}

/-- The member for a type. -/
def tyMembers : Option Ty → List (String × Json)
  | some t => [("type", t.toJson)]
  | none => []

/-- The member for a group. -/
def nestedMembers : Option (NestingMode × List (String × AttributeDef)) → List (String × Json)
  | some (mode, defs) =>
    [("nested", .object
      [("nesting", .string mode.text), ("attributes", .object (attributeMembers defs))])]
  | none => []

/-- The members of the document of an attribute, in their order. -/
def members (d : AttributeDef) : List (String × Json) :=
  tyMembers d.ty ++ nestedMembers d.nested ++ d.flags.members ++ d.docs.members

theorem toJson_eq (d : AttributeDef) : d.toJson = .object d.members := by
  obtain ⟨ty, nested, flags, docs⟩ := d
  cases ty <;> cases nested <;> rfl

@[simp] theorem attributeMembers_eq_map (defs : List (String × AttributeDef)) :
    attributeMembers defs = defs.map fun e => (e.1, e.2.toJson) :=
  eq_map_of_cons rfl (fun _ _ => rfl) defs

theorem setFields?_eq_foldlM (entries : List (String × Document)) (d : AttributeDef) :
    setFields? entries d = entries.foldlM (fun d e => setField? e.1 e.2 d) d :=
  eq_foldlM_of_cons (fun _ => rfl) (fun _ _ _ => rfl) entries d

theorem ofEntries?_eq_mapM (entries : List (String × Document)) :
    ofEntries? entries = entries.mapM fun e => do return (e.1, ← ofDocument? e.2) :=
  eq_mapM_of_cons (f := ofEntries?) rfl
    (fun e _ => by rw [ofEntries?]; cases ofDocument? e.2 <;> rfl) entries

/-- The attributes of a mapping are read if each one is. -/
theorem ofEntries?_attributeMembers
    (h : ∀ e ∈ defs, ofDocument? (.ofJson e.2.toJson) = some e.2) :
    ofEntries? (Document.ofMembers (attributeMembers defs)) = some defs := by
  rw [ofEntries?_eq_mapM, attributeMembers_eq_map, mapM_ofMembers h]

theorem members?_attributeMembers (hd : (Keyed.keys defs).Nodup)
    (h : ∀ e ∈ defs, ofDocument? (.ofJson e.2.toJson) = some e.2) :
    members? (.mapping (Document.ofMembers (attributeMembers defs))) = some defs := by
  rw [members?, ofEntries?_attributeMembers h, Option.map_some, Keyed.assigned_eq_self hd]

section Fields

variable {ty : Option Ty} {nested : Option (NestingMode × List (String × AttributeDef))}
  {flags : Flags} {docs : Documentation}

theorem sets_ty (ht : ∀ t, ty = some t → t.WellFormed) :
    Sets setField? ⟨none, nested, flags, docs⟩ (tyMembers ty) ⟨ty, nested, flags, docs⟩ := by
  cases ty with
  | none => exact .nil
  | some t =>
    refine .one ?_
    rw [setField?, if_neg (by rw [Ty.isAbsent_toJson]; exact Bool.false_ne_true),
      Ty.ofDocument?_toJson (ht t rfl)]
    rfl

@[simp] theorem ofDocument?_mode (mode : NestingMode) :
    NestingMode.ofDocument? (.ofJson (.string mode.text)) = some mode := by
  cases mode <;> rfl

theorem sets_nested (hd : ∀ mode defs, nested = some (mode, defs) → (Keyed.keys defs).Nodup)
    (h : ∀ mode defs, nested = some (mode, defs) →
      ∀ e ∈ defs, ofDocument? (.ofJson e.2.toJson) = some e.2) :
    Sets setField? ⟨ty, none, flags, docs⟩ (nestedMembers nested) ⟨ty, nested, flags, docs⟩ := by
  rcases nested with _ | ⟨mode, defs⟩
  · exact .nil
  · have hnesting : setGroupField? "nesting" (.ofJson (.string mode.text)) (none, []) =
        some (some mode, []) := by
      rw [setGroupField?, ofDocument?_mode]
      rfl
    have hattributes : setGroupField? "attributes" (.ofJson (.object (attributeMembers defs)))
        (some mode, []) = some (some mode, defs) := by
      rw [Document.ofJson, setGroupField?, ofEntries?_attributeMembers (h mode defs rfl),
        Option.map_some, Keyed.assigned_eq_self (hd mode defs rfl)]
    have hgroup : setGroupFields? (Document.ofMembers
        [("nesting", .string mode.text), ("attributes", .object (attributeMembers defs))])
        (none, []) = some (some mode, defs) := by
      rw [Document.ofMembers, Document.ofMembers, Document.ofMembers, setGroupFields?]
      refine Option.bind_eq_some_iff.2 ⟨_, hnesting, ?_⟩
      rw [setGroupFields?]
      exact Option.bind_eq_some_iff.2 ⟨_, hattributes, rfl⟩
    refine .one ?_
    rw [Document.ofJson, setField?, if_pos (distinctNames_ofMembers.2 (by simp)), hgroup]
    rfl

theorem sets_flags (flags : Flags) :
    Sets setField? ⟨ty, nested, .none, docs⟩ flags.members ⟨ty, nested, flags, docs⟩ := by
  rcases flags with ⟨_ | _, _ | _, _ | _, _ | _⟩ <;> rfl

theorem sets_docs (docs : Documentation) :
    Sets setField? ⟨ty, nested, flags, .empty⟩ docs.members ⟨ty, nested, flags, docs⟩ := by
  refine Sets.docs (g := fun docs => (⟨ty, nested, flags, docs⟩ : AttributeDef)) ?_ docs
  intro name hname d docs
  simp only [List.mem_cons, List.not_mem_nil, or_false] at hname
  rcases hname with rfl | rfl | rfl <;> simp [setField?, isDocumentationField]

end Fields

/-- Fields are printed in their order, each at most once. -/
theorem keys_members (d : AttributeDef) : (Keyed.keys d.members).Sublist fieldNames := by
  have hty : (Keyed.keys (tyMembers d.ty)).Sublist ["type"] := by
    cases d.ty <;> simp [tyMembers]
  have hnested : (Keyed.keys (nestedMembers d.nested)).Sublist ["nested"] := by
    rcases d.nested with _ | ⟨mode, defs⟩ <;> simp [nestedMembers]
  rw [members, Keyed.keys_append, Keyed.keys_append, Keyed.keys_append]
  exact ((hty.append hnested).append (keys_flags _)).append (keys_docs _)

theorem ofDocument?_object {members : List (String × Json)} (hd : (Keyed.keys members).Nodup)
    (h : Sets setField? .empty members d) : ofDocument? (.ofJson (.object members)) = some d := by
  rw [Document.ofJson, ofDocument?, if_pos (distinctNames_ofMembers.2 hd), setFields?_eq_foldlM]
  exact h

/-- An attribute is read back from its document. -/
theorem ofDocument?_toJson (h : (DefNode.attr d).All DefNode.Regular) :
    ofDocument? (.ofJson d.toJson) = some d := by
  induction d using AttributeDef.induct with
  | h d ih =>
    obtain ⟨hd, hbelow, _⟩ := DefNode.all_iff.1 h
    rw [toJson_eq]
    refine ofDocument?_object ((keys_members d).nodup (by decide)) ?_
    obtain ⟨ty, nested, flags, docs⟩ := d
    have hty : Sets setField? .empty (tyMembers ty) ⟨ty, none, .none, .empty⟩ :=
      sets_ty (hd.ty _ · rfl)
    have hnested : Sets setField? ⟨ty, none, .none, .empty⟩ (nestedMembers nested)
        ⟨ty, nested, .none, .empty⟩ :=
      sets_nested (by rintro mode defs rfl; exact hd.attributes)
        (by rintro mode defs rfl e he; exact ih e he (hbelow e he))
    exact ((hty.append hnested).append (sets_flags flags)).append (sets_docs docs)

end AttributeDef

theorem Sets.attributes {σ : Type} {f : String → Document → σ → Option σ}
    {g : List (String × AttributeDef) → σ} {defs : List (String × AttributeDef)}
    (hset : ∀ d, f "attributes" d (g []) = (AttributeDef.members? d).map g)
    (hd : (Keyed.keys defs).Nodup) (h : ∀ e ∈ defs, (DefNode.attr e.2).All DefNode.Regular) :
    Sets f (g []) (objectMember "attributes" (attributeMembers defs)) (g defs) := by
  have hread := AttributeDef.members?_attributeMembers hd fun e he =>
    AttributeDef.ofDocument?_toJson (h e he)
  exact .object (by simp) (by rw [hset, hread]; rfl)

/-! ## Blocks -/

namespace BlockDef

variable {d : BlockDef} {defs : List (String × BlockDef)}

/-- The members of the document of a block, in their order. -/
def members (d : BlockDef) : List (String × Json) :=
  [("nesting", .string d.nesting.mode.text)] ++ countMember "min_items" d.minItems ++
    countMember "max_items" d.maxItems ++ d.docs.members ++
    objectMember "attributes" (attributeMembers d.attributes) ++
    objectMember "blocks" (blockMembers d.blocks)

theorem toJson_eq (d : BlockDef) : d.toJson = .object d.members := by
  cases d
  rfl

@[simp] theorem blockMembers_eq_map (defs : List (String × BlockDef)) :
    blockMembers defs = defs.map fun e => (e.1, e.2.toJson) :=
  eq_map_of_cons rfl (fun _ _ => rfl) defs

theorem setFields?_eq_foldlM (entries : List (String × Document)) (p : Partial) :
    setFields? entries p = entries.foldlM (fun p e => setField? e.1 e.2 p) p :=
  eq_foldlM_of_cons (fun _ => rfl) (fun _ _ _ => rfl) entries p

theorem ofEntries?_eq_mapM (entries : List (String × Document)) :
    ofEntries? entries = entries.mapM fun e => do return (e.1, ← ofDocument? e.2) :=
  eq_mapM_of_cons (f := ofEntries?) rfl
    (fun e _ => by rw [ofEntries?]; cases ofDocument? e.2 <;> rfl) entries

theorem members?_blockMembers (hd : (Keyed.keys defs).Nodup)
    (h : ∀ e ∈ defs, ofDocument? (.ofJson e.2.toJson) = some e.2) :
    members? (.mapping (Document.ofMembers (blockMembers defs))) = some defs := by
  rw [members?, ofEntries?_eq_mapM, blockMembers_eq_map, mapM_ofMembers h, Option.map_some,
    Keyed.assigned_eq_self hd]

theorem sets_blocks {σ : Type} {f : String → Document → σ → Option σ}
    {g : List (String × BlockDef) → σ}
    (hset : ∀ entries, f "blocks" (.mapping entries) (g []) =
      (members? (.mapping entries)).map g)
    (hd : (Keyed.keys defs).Nodup) (h : ∀ e ∈ defs, ofDocument? (.ofJson e.2.toJson) = some e.2) :
    Sets f (g []) (objectMember "blocks" (blockMembers defs)) (g defs) := by
  have hread := members?_blockMembers hd h
  exact .object (by simp) (by rw [hset, hread]; rfl)

section Fields

variable {nesting : BlockNesting} {minItems maxItems : UInt64} {docs : Documentation}
  {attributes : List (String × AttributeDef)} {blocks : List (String × BlockDef)}

/-- A block of known nesting; the other fields are what has been set so far. -/
def Partial.ofFields (nesting : BlockNesting) (minItems maxItems : UInt64) (docs : Documentation)
    (attributes : List (String × AttributeDef)) (blocks : List (String × BlockDef)) : Partial :=
  ⟨some nesting, ⟨.list, minItems, maxItems, docs, attributes, blocks⟩⟩

theorem sets_nesting (nesting : BlockNesting) :
    Sets setField? .empty [("nesting", .string nesting.mode.text)]
      (.ofFields nesting 0 0 .empty [] []) := by
  refine .one ?_
  cases nesting <;> rfl

theorem sets_minItems (minItems : UInt64) :
    Sets setField? (.ofFields nesting 0 maxItems docs attributes blocks)
      (countMember "min_items" minItems)
      (.ofFields nesting minItems maxItems docs attributes blocks) :=
  Sets.count (g := fun n => Partial.ofFields nesting n maxItems docs attributes blocks)
    (fun d => by simp only [setField?]; rfl) minItems

theorem sets_maxItems (maxItems : UInt64) :
    Sets setField? (.ofFields nesting minItems 0 docs attributes blocks)
      (countMember "max_items" maxItems)
      (.ofFields nesting minItems maxItems docs attributes blocks) :=
  Sets.count (g := fun n => Partial.ofFields nesting minItems n docs attributes blocks)
    (fun d => by simp only [setField?]; rfl) maxItems

theorem sets_docs (docs : Documentation) :
    Sets setField? (.ofFields nesting minItems maxItems .empty attributes blocks) docs.members
      (.ofFields nesting minItems maxItems docs attributes blocks) := by
  refine Sets.docs (g := fun docs =>
    Partial.ofFields nesting minItems maxItems docs attributes blocks) ?_ docs
  intro name hname d docs
  simp only [List.mem_cons, List.not_mem_nil, or_false] at hname
  rcases hname with rfl | rfl | rfl <;> simp [setField?, Partial.ofFields]

theorem sets_attributes (hd : (Keyed.keys attributes).Nodup)
    (h : ∀ e ∈ attributes, (DefNode.attr e.2).All DefNode.Regular) :
    Sets setField? (.ofFields nesting minItems maxItems docs [] blocks)
      (objectMember "attributes" (attributeMembers attributes))
      (.ofFields nesting minItems maxItems docs attributes blocks) :=
  Sets.attributes (g := fun a => Partial.ofFields nesting minItems maxItems docs a blocks)
    (fun d => by simp only [setField?]; rfl) hd h

end Fields

/-- Fields are printed in their order, each at most once. -/
theorem keys_members (d : BlockDef) : (Keyed.keys d.members).Sublist fieldNames := by
  simp only [members, Keyed.keys_append]
  exact (((((List.Sublist.refl ["nesting"]).append (keys_countMember _ _)).append
    (keys_countMember _ _)).append (keys_docs _)).append (keys_objectMember _ _)).append
    (keys_objectMember _ _)

/-- A block is read back from its document. -/
theorem ofDocument?_toJson (h : (DefNode.block d).All DefNode.Regular) :
    ofDocument? (.ofJson d.toJson) = some d := by
  induction d using BlockDef.induct with
  | h d ih =>
    obtain ⟨hd, hattributes, hblocks⟩ := DefNode.all_iff.1 h
    have hset := sets_blocks (f := setField?)
      (g := Partial.ofFields d.nesting d.minItems d.maxItems d.docs d.attributes)
      (fun entries => by simp only [setField?, members?, Option.map_map]; rfl) hd.blocks
      fun e he => ih e he (hblocks e he)
    have hfields : Sets setField? .empty d.members (.ofFields d.nesting d.minItems d.maxItems d.docs
        d.attributes d.blocks) :=
      (((((sets_nesting d.nesting).append (sets_minItems _)).append (sets_maxItems _)).append
        (sets_docs _)).append (sets_attributes hd.attributes hattributes)).append hset
    rw [toJson_eq, Document.ofJson, ofDocument?,
      if_pos (distinctNames_ofMembers.2 ((keys_members d).nodup (by decide))),
      setFields?_eq_foldlM]
    refine Option.bind_eq_some_iff.2 ⟨_, hfields, ?_⟩
    cases d
    rfl

end BlockDef

/-! ## Schemas -/

namespace SchemaDef

variable {d : SchemaDef}

/-- The members of the document of a schema, in their order. -/
def members (d : SchemaDef) : List (String × Json) :=
  [("version", .number (.ofInt64 d.version))] ++ d.docs.members ++
    objectMember "attributes" (attributeMembers d.attributes) ++
    objectMember "blocks" (blockMembers d.blocks)

theorem keys_members (d : SchemaDef) : (Keyed.keys d.members).Sublist fieldNames := by
  simp only [members, Keyed.keys_append]
  exact (((List.Sublist.refl ["version"]).append (keys_docs _)).append
    (keys_objectMember _ _)).append (keys_objectMember _ _)

/-- A schema is read back from its document. -/
theorem ofDocument?_toJson (h : (DefNode.schema d).All DefNode.Regular) :
    ofDocument? (.ofJson d.toJson) = some d := by
  obtain ⟨hd, hattributes, hblocks⟩ := DefNode.all_iff.1 h
  have hversion : Sets setField? .empty [("version", .number (.ofInt64 d.version))]
      ⟨d.version, .empty, [], []⟩ := by
    refine .one ?_
    rw [setField?, int64?_ofInt64]
    rfl
  have hdocs : Sets setField? ⟨d.version, .empty, [], []⟩ d.docs.members
      ⟨d.version, d.docs, [], []⟩ := by
    refine Sets.docs (g := fun docs => (⟨d.version, docs, [], []⟩ : SchemaDef)) ?_ d.docs
    intro name hname d docs
    simp only [List.mem_cons, List.not_mem_nil, or_false] at hname
    rcases hname with rfl | rfl | rfl <;> simp [setField?]
  have hattributes : Sets setField? ⟨d.version, d.docs, [], []⟩
      (objectMember "attributes" (attributeMembers d.attributes))
      ⟨d.version, d.docs, d.attributes, []⟩ :=
    Sets.attributes (g := fun a => (⟨d.version, d.docs, a, []⟩ : SchemaDef))
      (fun d => by simp only [setField?]) hd.attributes hattributes
  have hblocks : Sets setField? ⟨d.version, d.docs, d.attributes, []⟩
      (objectMember "blocks" (blockMembers d.blocks)) d :=
    BlockDef.sets_blocks (g := fun b => (⟨d.version, d.docs, d.attributes, b⟩ : SchemaDef))
      (fun entries => by simp only [setField?]) hd.blocks
      fun e he => BlockDef.ofDocument?_toJson (hblocks e he)
  have hfields : Sets setField? .empty d.members d :=
    ((hversion.append hdocs).append hattributes).append hblocks
  have hnames := distinctNames_ofMembers.2 ((keys_members d).nodup (by decide))
  show ofDocument? (.mapping (Document.ofMembers d.members)) = some d
  rw [ofDocument?, if_pos hnames]
  exact hfields

end SchemaDef

end ResourceSchema
