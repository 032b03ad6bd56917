import ResourceSchema.Proofs.Data.Basic
import ResourceSchema.Proofs.Schema.Kind

/-!
# Reading back what was written to a plan

A schema does not look at the set elements on a path, so a path resolves as it did before a write
changed them. What the raw value then has at the path is what a read of the plan gives.
-/

namespace ResourceSchema

namespace Server

def disksTy : Ty := .list (.object [("label", .string), ("size", .number)])

theorem wellFormed_disksTy : disksTy.WellFormed :=
  schema_built.wellFormed.ty.step (s := .name "disks") rfl

/-- A rule with a note and no port. -/
def rule (note : String) : Value := .object [("note", .string note), ("port", .null .number)]

/-- A plan for a server with some rules. -/
def plan (rules : List Value) : Data :=
  ⟨.plan, schema, .object
    [("disks", .null disksTy), ("name", .null .string), ("rules", .set (rule "").ty rules)]⟩

end Server

namespace Data

variable {d d' : Data} {p : Path} {w : Value}

/-- A value written to a plan is read back equal, at the path with each set element as it stands
after the write. Only set elements change on the path, and those that it then names are in their
sets. -/
theorem get_of_set (h : d.set p w = .ok d') :
    (∀ q, Path.same q (d.raw.pathAfter p w) = true → ∃ x, d'.get q = .ok x ∧ x.same w = true) ∧
      Path.Alike p (d.raw.pathAfter p w) ∧
      ((∀ v, .element v ∉ p) → d.raw.pathAfter p w = p) ∧
      ∀ before v after, d.raw.pathAfter p w = before ++ .element v :: after →
        ∃ x, d'.raw.atPath (before ++ [.element v]) = .ok x ∧ x.same v = true := by
  obtain ⟨_, ht, raw, hraw, rfl⟩ := set_eq_ok h
  have halike := Value.alike_pathAfter d.raw p w
  obtain ⟨x, hx, hnew⟩ := Value.atPath_setAt hraw
  refine ⟨fun q hq => ?_, halike, fun hp => (halike.eq hp).symm, fun before v after hpath => ?_⟩
  swap
  · rw [hpath] at hx
    exact Value.exists_element_of_atPath hx
  -- The path may name equal set elements in place of those that were written.
  obtain ⟨y, hy, hxy⟩ := Value.atPath_congr (Value.same_refl raw) (Path.same_symm hq) hx
  have hqt : d.schema.typeAt q = .ok w.ty :=
    Schema.typeAt_alike (Path.Alike.trans halike (Path.Alike.of_same hq).symm) ht
  exact ⟨y, get_of_atPath hqt hy, Value.same_trans (Value.same_symm hxy) hnew⟩

/-- A rule whose note is changed to that of the other one is merged with it and read back there. -/
theorem get_of_set_merged_rule :
    ∃ d', (Server.plan [Server.rule "a", Server.rule "b"]).set
        [.name "rules", .element (Server.rule "b"), .name "note"] (.string "a") = .ok d' ∧
      d'.raw.same (Server.plan [Server.rule "a"]).raw = true ∧
      ∃ x, d'.get [.name "rules", .element (Server.rule "a"), .name "note"] = .ok x ∧
        x.same (.string "a") = true := by
  have hcomputed : (((Server.plan [Server.rule "a", Server.rule "b"]).set
      [.name "rules", .element (Server.rule "b"), .name "note"] (.string "a")).toOption.any
        fun d' => d'.raw.same (Server.plan [Server.rule "a"]).raw) = true := by
    decide +kernel
  cases hset : (Server.plan [Server.rule "a", Server.rule "b"]).set
      [.name "rules", .element (Server.rule "b"), .name "note"] (.string "a") with
  | error e => rw [hset] at hcomputed; cases hcomputed
  | ok d' =>
    rw [hset] at hcomputed
    exact ⟨d', rfl, hcomputed, (get_of_set hset).1 _ (by decide +kernel)⟩

end Data
end ResourceSchema
