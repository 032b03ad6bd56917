import ResourceSchema.Proofs.Definition.Document
import ResourceSchema.Proofs.Json.ReadBack

/-!
# Texts of definitions read back

The document of a definition has no floating-point numbers, so it is read back from its text unless
brackets nest too deep in it, and with it the definition (`SchemaDef.ofText?_text`).
-/

namespace ResourceSchema

theorem Ty.integral_toJson (t : Ty) : t.toJson.Integral := by
  induction t using Ty.induct with
  | string | number | bool => exact .string _
  | list t ih | set t ih | map t ih => exact .object (by simpa using ih)
  | object attributes ih =>
    have hattributes : ∀ m ∈ attributesJson attributes, m.2.Integral := by
      rw [attributesJson_eq_map]
      exact List.forall_mem_map.2 ih
    exact .object (List.forall_mem_singleton.2 (.object hattributes))

/-- Printed members without floating-point numbers. -/
def IntegralMembers (members : List (String × Json)) : Prop := ∀ m ∈ members, m.2.Integral

theorem IntegralMembers.append {members others : List (String × Json)} (h : IntegralMembers members)
    (h' : IntegralMembers others) : IntegralMembers (members ++ others) :=
  List.forall_mem_append.2 ⟨h, h'⟩

theorem integralMembers_docs (docs : Documentation) : IntegralMembers docs.members := by
  have htext : ∀ name text, IntegralMembers (textMember name text) := by
    rintro name (_ | s)
    · exact nofun
    · exact List.forall_mem_singleton.2 (.string s)
  exact ((htext _ _).append (htext _ _)).append (htext _ _)

theorem integralMembers_flags (flags : Flags) : IntegralMembers flags.members := by
  have hflag : ∀ name flag, IntegralMembers (flagMember name flag) := by
    rintro name (_ | _)
    · exact nofun
    · exact List.forall_mem_singleton.2 (.bool true)
  exact (((hflag _ _).append (hflag _ _)).append (hflag _ _)).append (hflag _ _)

theorem integralMembers_count (name : String) (n : UInt64) :
    IntegralMembers (countMember name n) := by
  unfold countMember
  split
  · exact nofun
  · exact List.forall_mem_singleton.2 (.number _ _)

theorem integralMembers_object {members : List (String × Json)} (name : String)
    (h : IntegralMembers members) : IntegralMembers (objectMember name members) := by
  unfold objectMember
  split
  · exact nofun
  · exact List.forall_mem_singleton.2 (.object h)

theorem AttributeDef.integral_toJson (d : AttributeDef) : d.toJson.Integral := by
  induction d using AttributeDef.induct with
  | h d ih =>
    have hty : IntegralMembers (tyMembers d.ty) := by
      rcases d.ty with _ | t
      · exact nofun
      · exact List.forall_mem_singleton.2 t.integral_toJson
    have hnested : IntegralMembers (nestedMembers d.nested) := by
      obtain ⟨ty, nested, flags, docs⟩ := d
      rcases nested with _ | ⟨mode, defs⟩
      · exact nofun
      · have hdefs : IntegralMembers (attributeMembers defs) := by
          rw [attributeMembers_eq_map]
          exact List.forall_mem_map.2 ih
        exact List.forall_mem_singleton.2 (.object (IntegralMembers.append
          (List.forall_mem_singleton.2 (.string mode.text))
          (List.forall_mem_singleton.2 (.object hdefs))))
    rw [toJson_eq]
    exact .object (((hty.append hnested).append (integralMembers_flags _)).append
      (integralMembers_docs _))

theorem integralMembers_attributes (defs : List (String × AttributeDef)) :
    IntegralMembers (attributeMembers defs) := by
  rw [AttributeDef.attributeMembers_eq_map]
  exact List.forall_mem_map.2 fun e _ => e.2.integral_toJson

theorem BlockDef.integral_toJson (d : BlockDef) : d.toJson.Integral := by
  induction d using BlockDef.induct with
  | h d ih =>
    have hblocks : IntegralMembers (blockMembers d.blocks) := by
      rw [blockMembers_eq_map]
      exact List.forall_mem_map.2 ih
    have hnesting : IntegralMembers [("nesting", .string d.nesting.mode.text)] :=
      List.forall_mem_singleton.2 (.string _)
    rw [toJson_eq]
    exact .object (((((hnesting.append (integralMembers_count _ _)).append
      (integralMembers_count _ _)).append (integralMembers_docs _)).append
      (integralMembers_object _ (integralMembers_attributes _))).append
      (integralMembers_object _ hblocks))

namespace SchemaDef

theorem integral_toJson (d : SchemaDef) : d.toJson.Integral := by
  have hblocks : IntegralMembers (blockMembers d.blocks) := by
    rw [BlockDef.blockMembers_eq_map]
    exact List.forall_mem_map.2 fun e _ => e.2.integral_toJson
  have hversion : IntegralMembers [("version", .number (.ofInt64 d.version))] :=
    List.forall_mem_singleton.2 (.number _ _)
  exact .object (((hversion.append (integralMembers_docs _)).append
    (integralMembers_object _ (integralMembers_attributes _))).append
    (integralMembers_object _ hblocks))

/-- A definition is read back from its text, unless brackets nest too deep in its document. -/
theorem ofText?_text {d : SchemaDef} (h : (DefNode.schema d).All DefNode.Regular)
    (hdepth : d.toJson.depth ≤ 127) : ofText? d.text = some d := by
  rw [ofText?, text, d.integral_toJson.ofText?_pretty hdepth]
  exact ofDocument?_toJson h

end SchemaDef

/-! ## An example

A server with disks that have tags, and with rules, of which there may be a few. -/

namespace Server

/-- An optional attribute of a type. -/
def optionalDef (t : Ty) : AttributeDef := ⟨some t, none, ⟨false, true, false, false⟩, .empty⟩

def disksDef : AttributeDef :=
  ⟨none, some (.list, [("size", optionalDef .number),
      ("tags", optionalDef (.map (.object [("key", .string), ("secret", .bool)])))]),
    ⟨true, false, false, true⟩, .empty⟩

def rulesDef : BlockDef :=
  ⟨.set, 1, 4, .empty, [("port", optionalDef .number)], []⟩

def definition : SchemaDef :=
  ⟨-3, ⟨some "a \"server\"\n", none, some "\x01"⟩,
    [("name", optionalDef .string), ("disks", disksDef)], [("rules", rulesDef)]⟩

theorem regular_optionalDef {t : Ty} (ht : t.WellFormed) :
    (DefNode.attr (optionalDef t)).All DefNode.Regular :=
  DefNode.all_iff.2 ⟨⟨List.nodup_nil, List.nodup_nil, by rintro _ _ ⟨⟩ ⟨⟩; exact ht⟩, nofun, nofun⟩

theorem regular_disksDef : (DefNode.attr disksDef).All DefNode.Regular := by
  refine DefNode.all_iff.2 ⟨⟨by decide, by decide, by rintro _ _ ⟨⟩ ⟨⟩⟩, ?_, nofun⟩
  have htags : (Ty.map (.object [("key", .string), ("secret", .bool)])).WellFormed :=
    Ty.wellFormed_object_iff.2
      ⟨Keyed.increasing_iff_keys.2 (by decide +kernel), by simp [Ty.WellFormed]⟩
  exact List.forall_mem_cons.2 ⟨regular_optionalDef trivial,
    List.forall_mem_singleton.2 (regular_optionalDef htags)⟩

theorem regular_definition : (DefNode.schema definition).All DefNode.Regular := by
  have hrules : (DefNode.block rulesDef).All DefNode.Regular :=
    DefNode.all_iff.2 ⟨⟨by decide, by decide, nofun⟩,
      List.forall_mem_singleton.2 (regular_optionalDef trivial), nofun⟩
  refine DefNode.all_iff.2 ⟨⟨by decide, by decide, nofun⟩, ?_, List.forall_mem_singleton.2 hrules⟩
  exact List.forall_mem_cons.2 ⟨regular_optionalDef trivial,
    List.forall_mem_singleton.2 regular_disksDef⟩

end Server

theorem SchemaDef.ofText?_text_server :
    (DefNode.schema Server.definition).All DefNode.Regular ∧
      Server.definition.toJson.depth ≤ 127 ∧
      ofText? Server.definition.text = some Server.definition := by
  have hdepth : Server.definition.toJson.depth ≤ 127 := by decide +kernel
  exact ⟨Server.regular_definition, hdepth, ofText?_text Server.regular_definition hdepth⟩

end ResourceSchema
