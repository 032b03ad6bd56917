import ResourceSchema.Proofs.Data.Reads
import ResourceSchema.Proofs.Value.Writable

/-!
# When a write to a plan succeeds

A write to a plan is checked by the schema first, then against the data that it goes through. Its
path has to resolve, its value to have the type of the path, and its steps to stay within what the
data can take (`Reachable.set_spec`). No step is of a kind that the data does not have.
-/

namespace ResourceSchema.Data

variable {d : Data} {p : Path} {w : Value}

/-! ## The checks in order -/

theorem set_of_typeAt_error (hrole : d.role = .plan) {source : ResolveError}
    (h : d.schema.typeAt p = .error source) : d.set p w = .error (.resolve source) := by
  rw [set, if_neg (not_not.2 hrole), h]
  rfl

theorem set_of_ty_ne (hrole : d.role = .plan) {t : Ty} (h : d.schema.typeAt p = .ok t)
    (hw : w.ty ≠ t) : d.set p w = .error (.typeMismatch .plan p t w.ty) := by
  rw [set, if_neg (not_not.2 hrole), h, hrole]
  exact if_pos hw

theorem set_of_typeAt (hrole : d.role = .plan) (h : d.schema.typeAt p = .ok w.ty) :
    d.set p w = ((d.raw.setAt p w).mapError (.set p)).map fun raw => { d with raw := raw } := by
  rw [set, if_neg (not_not.2 hrole), h]
  show (if w.ty ≠ w.ty then _ else _) = _
  rw [if_neg (not_not.2 rfl)]
  cases d.raw.setAt p w <;> rfl

/-! ## The data that a write goes through -/

theorem Invariant.exists_set_iff (hd : d.Invariant) (hrole : d.role = .plan) (hp : p.WellFormed)
    (ht : d.schema.typeAt p = .ok w.ty) : (∃ d', d.set p w = .ok d') ↔ d.raw.Writable p := by
  rw [set_of_typeAt hrole ht, ← Value.exists_setAt_iff hd.raw hp (hd.typeAt.1 ht)]
  cases d.raw.setAt p w <;> simp [Except.mapError, Except.map]

theorem Invariant.set_eq_error_iff (hd : d.Invariant) (hrole : d.role = .plan)
    (hp : p.WellFormed) (ht : d.schema.typeAt p = .ok w.ty) {e : DataError} :
    d.set p w = .error e ↔ ∃ before s after x source, p = before ++ s :: after ∧
      d.raw.Writable before ∧ d.raw.met? before = some x ∧ Value.Obstacle x s source ∧
        e = .set p source := by
  have hraw : d.set p w = .error e ↔ ∃ source, d.raw.setAt p w = .error source ∧
      e = .set p source := by
    rw [set_of_typeAt hrole ht]
    cases d.raw.setAt p w <;> simp [Except.mapError, Except.map, eq_comm]
  rw [hraw]
  constructor
  · rintro ⟨source, hs, rfl⟩
    obtain ⟨before, s, after, x, rfl, hw, hx, ho⟩ :=
      (Value.setAt_eq_error_iff hd.raw hp (hd.typeAt.1 ht)).1 hs
    exact ⟨before, s, after, x, source, rfl, hw, hx, ho, rfl⟩
  · rintro ⟨before, s, after, x, source, hsplit, hw, hx, ho, rfl⟩
    refine ⟨source, ?_, rfl⟩
    rw [Value.setAt_eq_error_iff hd.raw hp (hd.typeAt.1 ht)]
    exact ⟨before, s, after, x, hsplit, hw, hx, ho⟩

/-- The steps of a path that resolves are of the kinds that the data has. -/
theorem Invariant.set_ne_step (hd : d.Invariant) (hrole : d.role = .plan) (hp : p.WellFormed)
    (q : Path) (source : StepError) : d.set p w ≠ .error (.set q (.step source)) := by
  intro he
  cases ht : d.schema.typeAt p with
  | error source' =>
    rw [set_of_typeAt_error hrole ht] at he
    cases he
  | ok t =>
    by_cases hw : w.ty = t
    · subst hw
      obtain ⟨_, _, _, _, source', _, _, _, ho, heq⟩ := (hd.set_eq_error_iff hrole hp ht).1 he
      cases heq
      cases ho
    · rw [set_of_ty_ne hrole ht hw] at he
      cases he

/-- A write to a plan succeeds exactly if the path resolves, to the type of the value, and every
step can be taken: an index is at most the length of the list that the write meets, an element has
the type of its set. The checks are made in this order, and among the steps the first that cannot be
taken decides. -/
theorem Reachable.set_spec (h : d.Reachable) (hrole : d.role = .plan) (hp : p.WellFormed)
    (w : Value) :
    ((∃ d', d.set p w = .ok d') ↔ d.schema.typeAt p = .ok w.ty ∧ d.raw.Writable p) ∧
      (∀ source, d.schema.typeAt p = .error source → d.set p w = .error (.resolve source)) ∧
      (∀ t, d.schema.typeAt p = .ok t → w.ty ≠ t →
        d.set p w = .error (.typeMismatch .plan p t w.ty)) ∧
      (d.schema.typeAt p = .ok w.ty → ∀ e, d.set p w = .error e ↔
        ∃ before s after x source, p = before ++ s :: after ∧ d.raw.Writable before ∧
          d.raw.met? before = some x ∧ Value.Obstacle x s source ∧ e = .set p source) ∧
      ∀ q source, d.set p w ≠ .error (.set q (.step source)) := by
  have hd := h.invariant
  refine ⟨⟨?_, ?_⟩, fun source => set_of_typeAt_error hrole, fun t => set_of_ty_ne hrole,
    fun ht e => hd.set_eq_error_iff hrole hp ht, hd.set_ne_step hrole hp⟩
  · rintro ⟨d', hd'⟩
    obtain ⟨_, ht, _⟩ := set_eq_ok hd'
    exact ⟨ht, (hd.exists_set_iff hrole hp ht).1 ⟨d', hd'⟩⟩
  · rintro ⟨ht, hw⟩
    exact (hd.exists_set_iff hrole hp ht).2 hw

/-- The first disk of a server that is not planned yet can be written to, the second cannot. -/
theorem Reachable.set_spec_first_disk :
    (∃ d', (Data.absent .plan Server.schema).set [.name "disks", .index 0, .name "label"]
        (.string "root") = .ok d') ∧
      (Data.absent .plan Server.schema).set [.name "disks", .index 1, .name "label"]
          (.string "root") =
        .error (.set [.name "disks", .index 1, .name "label"] (.indexOutOfRange 1 0)) := by
  have hd : (Data.absent .plan Server.schema).Reachable := .absent .plan Server.schema_built
  have hpath : ∀ i, Path.WellFormed [.name "disks", .index i, .name "label"] := by
    simp [Path.WellFormed, PathStep.WellFormed]
  constructor
  · refine (hd.set_spec rfl (hpath 0) (.string "root")).1.2 ⟨rfl, ⟨?_, ?_⟩⟩
    · rintro (_ | ⟨s, _ | ⟨s', _ | ⟨s'', _ | ⟨_, _⟩⟩⟩⟩) i after heq <;> cases heq
      exact ⟨_, rfl, Int.le_refl 0⟩
    · rintro (_ | ⟨s, _ | ⟨s', _ | ⟨s'', _ | ⟨_, _⟩⟩⟩⟩) w after heq <;> cases heq
  · refine ((hd.set_spec rfl (hpath 1) (.string "root")).2.2.2.1 rfl _).2
      ⟨[.name "disks"], .index 1, [.name "label"], _, _, rfl, ?_, rfl, .index ?_, rfl⟩
    · refine ⟨?_, ?_⟩ <;> rintro (_ | ⟨s, _ | ⟨_, _⟩⟩) i after heq <;> cases heq
    · decide

end ResourceSchema.Data
