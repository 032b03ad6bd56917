import ResourceSchema.Proofs.Data.ReadBack
import ResourceSchema.Proofs.Schema.Resolution
import ResourceSchema.Proofs.Value.Build
import ResourceSchema.Proofs.Value.Interchange

/-!
# Reads of data

Data that is made and written to in any number of steps keeps the type of its schema
(`Reachable.invariant`). The schema walk and the walk through the value then agree on every path: a
read fails only where the path does not resolve, and otherwise gives the value that is there or one
that stands in for it (`Reachable.get_spec`).
-/

namespace ResourceSchema

/-! ## Lookups along a path of the type -/

namespace Value

variable {v : Value} {t : Ty} {p : Path}

/-- What a read makes of the walk through a value: the value that is there, unknown below an
unknown, null below a null and where an element is missing. No other end of a walk stands for a
value. -/
def readAs (t : Ty) : Except StepError Value → Option Value
  | .ok v => some v
  | .error (.unknownValue _) => some (.unknown t)
  | .error (.nullValue _) | .error (.elementNotFound _) => some (.null t)
  | .error _ => none

/-- A path that the type of a value accepts can be read, as a value of the type it leads to. -/
theorem lookup_spec (hv : v.WellFormed) (hp : v.ty.atPath p = .ok t) :
    ∃ w, v.lookup t p = .ok w ∧ w.ty = t ∧ readAs t (v.atPath p) = some w := by
  induction p generalizing v with
  | nil => cases hp; exact ⟨v, rfl, rfl, rfl⟩
  | cons s p ih =>
    obtain ⟨u, hu, hp⟩ := Except.bind_eq_ok.1 hp
    have hstep := step_eq hu
    by_cases hnull : v.isNull = true
    · rw [if_pos hnull] at hstep
      refine ⟨.null t, ?_, rfl, by rw [atPath, hstep]; rfl⟩
      cases v <;> first | rfl | cases hnull
    rw [if_neg hnull] at hstep
    by_cases hunknown : v.isUnknown = true
    · rw [if_pos hunknown] at hstep
      refine ⟨.unknown t, ?_, rfl, by rw [atPath, hstep]; rfl⟩
      cases v <;> first | rfl | cases hunknown
    rw [if_neg hunknown] at hstep
    -- The value has data in it, so the lookup takes the step as well.
    cases hc : v.child? s with
    | none =>
      rw [hc] at hstep
      refine ⟨.null t, ?_, rfl, by rw [atPath, hstep]; rfl⟩
      unfold lookup
      split
      · rfl
      · exact absurd rfl hunknown
      · rw [hstep]
    | some child =>
      rw [hc] at hstep
      obtain ⟨rfl, hchild⟩ := child?_spec hv hu hc
      rw [atPath, hstep]
      obtain ⟨w, hw, hrest⟩ := ih hchild hp
      refine ⟨w, ?_, hrest⟩
      unfold lookup
      split
      · exact absurd rfl hnull
      · exact absurd rfl hunknown
      · rw [hstep]
        exact hw

/-- What is made of walks that agree is equal. -/
theorem readAs_congr {x y : Except StepError Value} (h : SameRead x y)
    (hv : readAs t x = some v) : ∃ w, readAs t y = some w ∧ v.same w = true := by
  cases h with
  | ok hxy =>
    cases hv
    exact ⟨_, rfl, hxy⟩
  | @error e e' he =>
    have hsame : readAs t (.error e') = readAs t (.error e) := by
      cases e <;> cases e' <;> first | rfl | cases he
    exact ⟨v, hsame.trans hv, same_refl v⟩

end Value

/-! ## Reachable data -/

namespace Data

/-- Data that a program can come to have. Values and paths that it hands over are well formed, as
all are that can be obtained. -/
inductive Reachable : Data → Prop
  | ofValue {role : Role} {schema : Schema} {raw : Value} {d : Data} (hs : schema.Built)
      (hr : raw.WellFormed) (h : ofValue role schema raw = .ok d) : Reachable d
  | absent (role : Role) {schema : Schema} (hs : schema.Built) : Reachable (absent role schema)
  | ofJson {role : Role} {schema : Schema} {j : Json} {d : Data} (hs : schema.Built)
      (h : ofJson role schema j = .ok d) : Reachable d
  | set {d d' : Data} {p : Path} {w : Value} (hd : Reachable d) (hp : p.WellFormed)
      (hw : w.WellFormed) (h : d.set p w = .ok d') : Reachable d'
  | setDatum {d d' : Data} {p : Path} {datum : Host.Datum} (hd : Reachable d)
      (hp : p.WellFormed) (h : d.setDatum p datum = .ok d') : Reachable d'

/-- What holds of all reachable data: the raw value is a well-formed one of the schema's type. -/
structure Invariant (d : Data) : Prop where
  schema : d.schema.WellFormed
  ty : d.raw.ty = d.schema.ty
  raw : d.raw.WellFormed

variable {d d' : Data} {p : Path} {w : Value}

theorem Invariant.ofValue {role : Role} {schema : Schema} {raw : Value}
    (hs : schema.WellFormed) (hr : raw.WellFormed) (h : ofValue role schema raw = .ok d) :
    d.Invariant := by
  obtain ⟨hty, _, rfl⟩ := ofValue_eq_ok h
  exact ⟨hs, hty, hr⟩

theorem Invariant.set (hd : d.Invariant) (hp : p.WellFormed) (hw : w.WellFormed)
    (h : d.set p w = .ok d') : d'.Invariant := by
  obtain ⟨_, _, raw, hraw, rfl⟩ := set_eq_ok h
  obtain ⟨hty, hwf⟩ := Value.setAt_spec hd.raw hp hw hraw
  exact ⟨hd.schema, hty.trans hd.ty, hwf⟩

theorem Invariant.typeAt (hd : d.Invariant) {t : Ty} :
    d.schema.typeAt p = .ok t ↔ d.raw.ty.atPath p = .ok t := by
  rw [Schema.typeAt_eq_ok_iff hd.schema, hd.ty]

theorem Reachable.invariant (h : d.Reachable) : d.Invariant := by
  induction h with
  | ofValue hs hr h => exact .ofValue hs.wellFormed hr h
  | absent role hs => exact ⟨hs.wellFormed, rfl, hs.wellFormed.ty⟩
  | ofJson hs h =>
    obtain ⟨raw, hraw, h⟩ := ofJson_eq_ok h
    exact .ofValue hs.wellFormed (Value.wellFormed_ofJson hs.wellFormed.ty hraw).2 h
  | set hd hp hw h ih => exact ih.set hp hw h
  | setDatum hd hp h ih =>
    obtain ⟨t, w, ht, hw, h⟩ := setDatum_eq_ok h
    obtain ⟨j, _, hw⟩ := Except.bind_eq_ok.1 hw
    have htwf := (Schema.typeAt_eq_ok ih.schema ht).2
    exact ih.set hp (Value.wellFormed_ofJson htwf hw).2 h

/-- Only plans are written to, so that a state stays as it was made. -/
theorem Reachable.isFullyKnown (h : d.Reachable) (hrole : d.role = .state) :
    d.raw.isFullyKnown = true := by
  have hset : ∀ {d d' : Data} {p : Path} {w : Value}, d.set p w = .ok d' → d'.role = .plan := by
    intro d d' p w h
    obtain ⟨hplan, _, raw, _, rfl⟩ := set_eq_ok h
    exact hplan
  cases h with
  | ofValue _ _ h =>
    obtain ⟨_, hstate, rfl⟩ := ofValue_eq_ok h
    exact hstate hrole
  | absent _ _ => rfl
  | ofJson _ h =>
    obtain ⟨raw, _, h⟩ := ofJson_eq_ok h
    obtain ⟨_, hstate, rfl⟩ := ofValue_eq_ok h
    exact hstate hrole
  | set _ _ _ h => cases (hset h).symm.trans hrole
  | setDatum _ _ h =>
    obtain ⟨_, _, _, _, h⟩ := setDatum_eq_ok h
    cases (hset h).symm.trans hrole

/-- A path that resolves can be read, as a value of the type it leads to. -/
theorem Invariant.exists_get (hd : d.Invariant) {t : Ty} (ht : d.schema.typeAt p = .ok t) :
    ∃ v, d.get p = .ok v ∧ v.ty = t ∧ Value.readAs t (d.raw.atPath p) = some v := by
  obtain ⟨v, hv, hty, hread⟩ := Value.lookup_spec hd.raw (hd.typeAt.1 ht)
  exact ⟨v, get_eq_ok_iff.2 ⟨t, ht, hv⟩, hty, hread⟩

theorem Invariant.ty_of_get (hd : d.Invariant) {t : Ty} (ht : d.schema.typeAt p = .ok t)
    (h : d.get p = .ok w) : w.ty = t := by
  obtain ⟨v, hv, hty, _⟩ := hd.exists_get ht
  rw [Except.ok.inj (h.symm.trans hv), hty]

/-- Equal paths read equal values. -/
theorem Invariant.get_congr {q : Path} (hd : d.Invariant) (hp : Path.same p q = true)
    (h : d.get p = .ok w) : ∃ x, d.get q = .ok x ∧ w.same x = true := by
  obtain ⟨t, ht, _⟩ := get_eq_ok_iff.1 h
  obtain ⟨v, hv, _, hread⟩ := hd.exists_get ht
  obtain rfl := Except.ok.inj (h.symm.trans hv)
  obtain ⟨x, hx, _, hother⟩ := hd.exists_get (Schema.typeAt_alike (.of_same hp) ht)
  obtain ⟨y, hy, hsame⟩ :=
    Value.readAs_congr (Value.atPath_rel (Value.same_refl d.raw) hp) hread
  obtain rfl := Option.some.inj (hother.symm.trans hy)
  exact ⟨x, hx, hsame⟩

/-- Reads of reachable data fail exactly where the path does not resolve in the schema, with the
error of that. Elsewhere they give a value of the type at the path: the one that the raw value has
there, or what stands in for it. -/
theorem Reachable.get_spec (h : d.Reachable) :
    d.raw.ty = d.schema.ty ∧ ∀ p,
      (∀ t, d.schema.typeAt p = .ok t →
        ∃ v, d.get p = .ok v ∧ v.ty = t ∧ Value.readAs t (d.raw.atPath p) = some v) ∧
      ∀ e, d.get p = .error e ↔ ∃ source, d.schema.typeAt p = .error source ∧
        e = .resolve source := by
  have hd := h.invariant
  refine ⟨hd.ty, fun p => ⟨fun t => hd.exists_get, ?_⟩⟩
  intro e
  cases ht : d.schema.typeAt p with
  | ok t =>
    obtain ⟨v, hv, _⟩ := hd.exists_get ht
    rw [hv]
    simp
  | error source =>
    have hget : d.get p = .error (.resolve source) := by
      rw [get, ht]
      rfl
    rw [hget]
    simp [eq_comm]

/-- Disks that are planned as unknown have sizes that are unknown, at any index. -/
theorem Reachable.get_spec_unknown_disks :
    ∃ d, (Data.absent .plan Server.schema).set [.name "disks"] (.unknown Server.disksTy) = .ok d ∧
      d.Reachable ∧ d.get [.name "disks", .index 3, .name "size"] = .ok (.unknown .number) := by
  have hset : (Data.absent .plan Server.schema).set [.name "disks"] (.unknown Server.disksTy) =
      .ok ⟨.plan, Server.schema, .object [("disks", .unknown Server.disksTy),
        ("name", .null .string), ("rules", .null (.set (Server.rule "").ty))]⟩ := rfl
  have hpath : Path.WellFormed [.name "disks"] := by simp [Path.WellFormed, PathStep.WellFormed]
  have hd := Reachable.set (.absent .plan Server.schema_built) hpath (w := .unknown Server.disksTy)
    Server.wellFormed_disksTy hset
  obtain ⟨v, hv, _, hread⟩ := (hd.get_spec.2 [.name "disks", .index 3, .name "size"]).1 .number rfl
  obtain rfl : .unknown .number = v := Option.some.inj hread
  exact ⟨_, hset, hd, hv⟩

end Data
end ResourceSchema
