import ResourceSchema.Proofs.Value.Position
import ResourceSchema.Proofs.Value.WriteBack

/-!
# Steps through types and steps through values

The type of a value says beforehand where a path leads in it. Where the type takes a path, the value
has a node of that type there or nothing at all (`atPath_of_ty`); where the type refuses a step, the
value refuses it with the same error, unless the read has missed something before
(`failsAt_of_ty`). For one step this is `step_of_ty` and `step_eq_error`, and a path takes one step
after the other.
-/

namespace ResourceSchema

/-! ## The step at which a path fails -/

namespace Path

variable {α : Type} {step : α → PathStep → Except StepError α} {a b : α} {s : PathStep} {p : Path}
  {k : Nat} {e : StepError}

/-- Steps taken from `a` one after the other get to the `k`-th one, and this fails. -/
def FailsAt (step : α → PathStep → Except StepError α) (a : α) (p : Path) (k : Nat)
    (e : StepError) : Prop :=
  ∃ b s, (p.take k).foldlM step a = .ok b ∧ p[k]? = some s ∧ step b s = .error e

@[simp] theorem not_failsAt_nil : ¬FailsAt step a [] k e := by
  rintro ⟨b, s, -, hs, -⟩
  cases hs

@[simp] theorem failsAt_cons_zero : FailsAt step a (s :: p) 0 e ↔ step a s = .error e := by
  constructor
  · rintro ⟨b, s', hb, hs', he⟩
    cases hb
    cases hs'
    exact he
  · exact fun he => ⟨a, s, rfl, rfl, he⟩

@[simp] theorem failsAt_cons_succ : FailsAt step a (s :: p) (k + 1) e ↔
    ∃ b, step a s = .ok b ∧ FailsAt step b p k e := by
  constructor
  · rintro ⟨c, s', hc, hs', he⟩
    rw [List.take_succ_cons, List.foldlM_cons] at hc
    obtain ⟨b, hb, hc⟩ := Except.bind_eq_ok.1 hc
    exact ⟨b, hb, c, s', hc, hs', he⟩
  · rintro ⟨b, hb, c, s', hc, hs', he⟩
    refine ⟨c, s', ?_, hs', he⟩
    rw [List.take_succ_cons, List.foldlM_cons]
    exact Except.bind_eq_ok.2 ⟨b, hb, hc⟩

/-- Steps that do not lead anywhere fail at one of them, with its error. -/
theorem foldlM_eq_error_iff : p.foldlM step a = .error e ↔ ∃ k, FailsAt step a p k e := by
  induction p generalizing a with
  | nil =>
    refine ⟨fun h => (by cases h), ?_⟩
    rintro ⟨k, h⟩
    exact absurd h not_failsAt_nil
  | cons s p ih =>
    rw [List.foldlM_cons]
    refine Except.bind_eq_error.trans ⟨?_, ?_⟩
    · rintro (he | ⟨b, hb, he⟩)
      · exact ⟨0, failsAt_cons_zero.2 he⟩
      · obtain ⟨k, hk⟩ := ih.1 he
        exact ⟨k + 1, failsAt_cons_succ.2 ⟨b, hb, hk⟩⟩
    · rintro ⟨_ | k, hk⟩
      · exact .inl (failsAt_cons_zero.1 hk)
      · obtain ⟨b, hb, hk⟩ := failsAt_cons_succ.1 hk
        exact .inr ⟨b, hb, ih.2 ⟨k, hk⟩⟩

end Path

namespace Value

variable {t : Ty} {v w : Value} {s : PathStep} {p : Path} {k : Nat} {e : StepError}

/-! ## One step -/

/-- Why there is nothing at a step from a value, though its type takes the step. -/
inductive Gap : Value → PathStep → StepError → Prop
  | null (t : Ty) (s : PathStep) : Gap (.null t) s (.nullValue s)
  | unknown (t : Ty) (s : PathStep) : Gap (.unknown t) s (.unknownValue s)
  | child {v : Value} {s : PathStep} (hk : v.isKnown = true)
      (hc : ∀ c ∈ v.children, c.1.same s = false) : Gap v s (.elementNotFound s)

theorem Gap.isMissingValue (h : Gap v s e) : e.isMissingValue = true := by
  cases h <;> rfl

/-- A step that fails leads to none of the children. -/
theorem children_apart (hv : v.WellFormed) (h : v.step s = .error e) :
    ∀ c ∈ v.children, c.1.same s = false := by
  intro c hc
  rw [children_eq_parts] at hc
  obtain ⟨part, hpart, rfl⟩ := List.mem_map.1 hc
  refine Bool.eq_false_iff.2 fun hsame => ?_
  obtain ⟨u, hu, -⟩ := step_of_inSlot? ((inSlot?_eq_some_iff hv).2 hpart)
  obtain ⟨x, hx, -⟩ := step_congr (same_refl v) hsame hu
  rw [h] at hx
  cases hx

/-- Where the type takes a step the value has a child of the type that it leads to, or a gap. -/
theorem step_of_ty (hv : v.WellFormed) (ht : v.ty.step s = .ok t) :
    (∃ w, v.step s = .ok w ∧ w.ty = t ∧ w.WellFormed) ∨ ∃ e, v.step s = .error e ∧ Gap v s e := by
  cases h : v.step s with
  | ok w =>
    obtain ⟨hty, hw⟩ := step_spec hv h
    rw [ht] at hty
    exact .inl ⟨w, rfl, (Except.ok.inj hty).symm, hw⟩
  | error e =>
    refine .inr ⟨e, rfl, ?_⟩
    have happart := children_apart hv h
    rw [step_eq ht] at h
    split at h
    · next hnull =>
      cases v <;> cases hnull
      cases h
      exact .null _ s
    · next hnull =>
      split at h
      · next hunknown =>
        cases v <;> cases hunknown
        cases h
        exact .unknown _ s
      · next hunknown =>
        split at h <;> cases h
        exact .child (by simp [isKnown, hnull, hunknown]) happart

/-! ## Whole paths -/

/-- A read gets to the `k`-th step, and there is nothing at it. -/
def MissesAt (v : Value) (p : Path) (k : Nat) (e : StepError) : Prop :=
  p.FailsAt Value.step v k e ∧ ∃ x s, v.atPath (p.take k) = .ok x ∧ p[k]? = some s ∧ Gap x s e

theorem missesAt_cons_zero (h : v.step s = .error e) (hg : Gap v s e) :
    v.MissesAt (s :: p) 0 e :=
  ⟨Path.failsAt_cons_zero.2 h, v, s, rfl, rfl, hg⟩

theorem MissesAt.cons (h : v.step s = .ok w) (hm : w.MissesAt p k e) :
    v.MissesAt (s :: p) (k + 1) e := by
  obtain ⟨hfails, x, s', hx, hs', hg⟩ := hm
  refine ⟨Path.failsAt_cons_succ.2 ⟨w, h, hfails⟩, x, s', ?_, hs', hg⟩
  rw [List.take_succ_cons]
  exact Except.bind_eq_ok.2 ⟨w, h, hx⟩

theorem atPath_of_failsAt (h : p.FailsAt Value.step v k e) : v.atPath p = .error e := by
  rw [atPath_eq_foldlM]
  exact Path.foldlM_eq_error_iff.2 ⟨k, h⟩

/-- Where its type takes a path a value has a node of the type that it leads to, or a gap on the
way. -/
theorem atPath_of_ty (hv : v.WellFormed) (ht : v.ty.atPath p = .ok t) :
    (∃ x, v.atPath p = .ok x ∧ x.ty = t) ∨ ∃ k e, v.MissesAt p k e := by
  induction p generalizing v with
  | nil =>
    cases ht
    exact .inl ⟨v, rfl, rfl⟩
  | cons s p ih =>
    obtain ⟨u, hu, ht⟩ := Except.bind_eq_ok.1 ht
    rcases step_of_ty hv hu with ⟨w, hw, rfl, hwf⟩ | ⟨e, he, hg⟩
    · rcases ih hwf ht with ⟨x, hx, hty⟩ | ⟨k, e, hm⟩
      · exact .inl ⟨x, Except.bind_eq_ok.2 ⟨w, hw, hx⟩, hty⟩
      · exact .inr ⟨k + 1, e, hm.cons hw⟩
    · exact .inr ⟨0, e, missesAt_cons_zero he hg⟩

/-- Where its type refuses a step of a path a value refuses it, or has a gap before. -/
theorem failsAt_of_ty (hv : v.WellFormed) (h : p.FailsAt Ty.step v.ty k e) :
    p.FailsAt Value.step v k e ∨ ∃ j e', j < k ∧ v.MissesAt p j e' := by
  induction p generalizing v k with
  | nil => exact absurd h Path.not_failsAt_nil
  | cons s p ih =>
    cases k with
    | zero => exact .inl (Path.failsAt_cons_zero.2 (step_eq_error (Path.failsAt_cons_zero.1 h)))
    | succ k =>
      obtain ⟨u, hu, h⟩ := Path.failsAt_cons_succ.1 h
      rcases step_of_ty hv hu with ⟨w, hw, rfl, hwf⟩ | ⟨e', he', hg⟩
      · rcases ih hwf h with h | ⟨j, e', hj, hm⟩
        · exact .inl (Path.failsAt_cons_succ.2 ⟨w, hw, h⟩)
        · exact .inr ⟨j + 1, e', Nat.succ_lt_succ hj, hm.cons hw⟩
      · exact .inr ⟨0, e', Nat.succ_pos k, missesAt_cons_zero he' hg⟩

theorem MissesAt.spec (h : v.MissesAt p k e) :
    v.atPath p = .error e ∧ e.isMissingValue = true := by
  obtain ⟨hfails, x, s, -, -, hg⟩ := h
  exact ⟨atPath_of_failsAt hfails, hg.isMissingValue⟩

/-- Steps through the type of a value and steps through the value agree. Where the type takes a
path, the value has a node there of the type that the path leads to, or the read misses a value on
the way. Where the type refuses a step, the read fails at that step with the same error, or misses a
value before. A path that the type does not take is refused at some step, and to miss a value is to
come to a node that is null, unknown or without such a child. -/
theorem type_and_value_agree (hv : v.WellFormed) (p : Path) :
    (∀ t, v.ty.atPath p = .ok t →
      (∃ x, v.atPath p = .ok x ∧ x.ty = t) ∨
        ∃ k e, v.MissesAt p k e ∧ v.atPath p = .error e ∧ e.isMissingValue = true) ∧
    (∀ k e, p.FailsAt Ty.step v.ty k e →
      p.FailsAt Value.step v k e ∧ v.atPath p = .error e ∨
        ∃ j e', j < k ∧ v.MissesAt p j e' ∧ v.atPath p = .error e' ∧
          e'.isMissingValue = true) ∧
    ∀ e, v.ty.atPath p = .error e ↔ ∃ k, p.FailsAt Ty.step v.ty k e := by
  refine ⟨fun t ht => ?_, fun k e h => ?_, fun e => ?_⟩
  · refine (atPath_of_ty hv ht).imp_right ?_
    rintro ⟨k, e, hm⟩
    exact ⟨k, e, hm, hm.spec⟩
  · refine (failsAt_of_ty hv h).imp (fun hf => ⟨hf, atPath_of_failsAt hf⟩) ?_
    rintro ⟨j, e', hj, hm⟩
    exact ⟨j, e', hj, hm, hm.spec⟩
  · rw [Ty.atPath_eq_foldlM]
    exact Path.foldlM_eq_error_iff

/-- A path through a rule that is not in the set to a member that no rule has. The type refuses the
second step, the read misses the rule at the first. -/
theorem type_and_value_agree_absent_rule :
    let v := Pending.rules [["a"], ["b"]]
    let p : Path := [.element (Pending.rule ["c"]), .name "port"]
    v.WellFormed ∧
      p.FailsAt Ty.step v.ty 1 (.noSuchAttribute "port" Pending.ruleTy) ∧
      ∃ e, v.MissesAt p 0 e ∧ v.atPath p = .error e ∧ e.isMissingValue = true := by
  intro v p
  have hv : v.WellFormed := Pending.wellFormed_rules (by decide)
  have hfails : p.FailsAt Ty.step v.ty 1 (.noSuchAttribute "port" Pending.ruleTy) :=
    ⟨Pending.ruleTy, .name "port", rfl, rfl, by with_unfolding_all rfl⟩
  have hread : v.atPath p = .error (.elementNotFound (.element (Pending.rule ["c"]))) := by
    with_unfolding_all rfl
  refine ⟨hv, hfails, ?_⟩
  rcases (type_and_value_agree hv p).2.1 1 _ hfails with ⟨-, he⟩ | ⟨j, e, hj, hmiss⟩
  · rw [hread] at he
    cases he
  · obtain rfl := Nat.lt_one_iff.1 hj
    exact ⟨e, hmiss⟩

end Value
end ResourceSchema
