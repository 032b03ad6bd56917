import ResourceSchema.Data
import ResourceSchema.Proofs.Value.Step

/-!
# Data that can be made, read and written

When making data, reading it or writing to it succeeds, and what the result is then. A lookup finds
what the steps of its path find.
-/

namespace ResourceSchema

namespace Value

variable {v w : Value} {t : Ty} {p : Path}

/-- What the steps of a path find is what a lookup gives. -/
theorem lookup_of_atPath (h : v.atPath p = .ok w) : v.lookup t p = .ok w := by
  induction p generalizing v with
  | nil => exact h
  | cons s p ih =>
    obtain ⟨child, hstep, h⟩ := Except.bind_eq_ok.1 h
    have hchild := (step_eq_ok_iff.1 hstep).2
    unfold lookup
    split
    · cases hchild
    · cases hchild
    · rw [hstep]
      exact ih h

/-- A lookup gives a value with any property that steps keep, that null of the type has and that an
unknown passes on to an unknown of the type. -/
theorem lookup_of_step {P : Value → Prop} (hnull : P (.null t))
    (hunknown : ∀ u, P (.unknown u) → P (.unknown t))
    (hstep : ∀ {x y : Value} {s : PathStep}, P x → x.step s = .ok y → P y) (hv : P v)
    (h : v.lookup t p = .ok w) : P w := by
  induction p generalizing v with
  | nil => cases h; exact hv
  | cons s p ih =>
    unfold lookup at h
    split at h
    · cases h; exact hnull
    · cases h; exact hunknown _ hv
    · split at h
      · next child hchild => exact ih (hstep hv hchild) h
      · cases h; exact hnull
      · cases h

theorem WellFormed.lookup (hv : v.WellFormed) (ht : t.WellFormed) (h : v.lookup t p = .ok w) :
    w.WellFormed :=
  lookup_of_step (P := WellFormed) ht (fun _ _ => ht) (fun hx hs => (step_spec hx hs).2) hv h

theorem isFullyKnown_of_lookup (hv : v.isFullyKnown = true) (h : v.lookup t p = .ok w) :
    w.isFullyKnown = true :=
  lookup_of_step (P := fun x => x.isFullyKnown = true) rfl (fun _ hu => by cases hu)
    isFullyKnown_of_step hv h

end Value

namespace Data

variable {d d' : Data} {role : Role} {schema : Schema} {raw w : Value} {p : Path}

theorem ofValue_eq_ok (h : ofValue role schema raw = .ok d) :
    raw.ty = schema.ty ∧ (role = .state → raw.isFullyKnown = true) ∧ d = ⟨role, schema, raw⟩ := by
  unfold ofValue at h
  split at h
  · cases h
  · next hty =>
    split at h
    · cases h
    · next hstate =>
      cases h
      refine ⟨Classical.not_not.1 hty, fun hrole => ?_, rfl⟩
      exact Bool.ne_false_iff.1 fun hknown => hstate ⟨hrole, hknown⟩

theorem ofValue_of_ty (hrole : role ≠ .state) (hty : raw.ty = schema.ty) :
    ofValue role schema raw = .ok ⟨role, schema, raw⟩ := by
  rw [ofValue, if_neg (Classical.not_not.2 hty), if_neg fun h => hrole h.1]

theorem ofJson_eq_ok {j : Json} (h : ofJson role schema j = .ok d) :
    ∃ raw, Value.ofJson schema.ty j = .ok raw ∧ ofValue role schema raw = .ok d := by
  obtain ⟨raw, hraw, h⟩ := Except.bind_eq_ok.1 h
  exact ⟨raw, Except.mapError_eq_ok.1 hraw, h⟩

theorem get_eq_ok_iff :
    d.get p = .ok w ↔ ∃ t, d.schema.typeAt p = .ok t ∧ d.raw.lookup t p = .ok w := by
  refine Except.bind_eq_ok.trans (exists_congr fun t => ?_)
  rw [Except.mapError_eq_ok, Except.mapError_eq_ok]

theorem get_of_atPath {t : Ty} (ht : d.schema.typeAt p = .ok t) (h : d.raw.atPath p = .ok w) :
    d.get p = .ok w :=
  get_eq_ok_iff.2 ⟨t, ht, Value.lookup_of_atPath h⟩

theorem set_eq_ok (h : d.set p w = .ok d') :
    d.role = .plan ∧ d.schema.typeAt p = .ok w.ty ∧
      ∃ raw, d.raw.setAt p w = .ok raw ∧ d' = { d with raw := raw } := by
  unfold set at h
  split at h
  · cases h
  · next hrole =>
    obtain ⟨t, ht, h⟩ := Except.bind_eq_ok.1 h
    split at h
    · cases h
    · next hty =>
      obtain ⟨raw, hraw, h⟩ := Except.bind_eq_ok.1 h
      cases h
      obtain rfl := Classical.not_not.1 hty
      exact ⟨Classical.not_not.1 hrole, Except.mapError_eq_ok.1 ht, raw,
        Except.mapError_eq_ok.1 hraw, rfl⟩

theorem setDatum_eq_ok {datum : Host.Datum} (h : d.setDatum p datum = .ok d') :
    ∃ t w, d.schema.typeAt p = .ok t ∧ Value.ofDatum t datum = .ok w ∧ d.set p w = .ok d' := by
  unfold setDatum at h
  split at h
  · cases h
  · obtain ⟨t, ht, h⟩ := Except.bind_eq_ok.1 h
    obtain ⟨w, hw, h⟩ := Except.bind_eq_ok.1 h
    exact ⟨t, w, Except.mapError_eq_ok.1 ht, Except.mapError_eq_ok.1 hw, h⟩

end Data
end ResourceSchema
