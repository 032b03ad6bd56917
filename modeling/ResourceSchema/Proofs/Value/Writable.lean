import ResourceSchema.Proofs.Value.Write

/-!
# When a write succeeds

A write goes down from the root and meets a value at every step: the one that is there, or what it
starts from where there is none. Two things can stop it there, a list that is too short and an
element of the wrong type for its set (`Obstacle`). A write of a value of the right type succeeds
exactly if it meets no obstacle (`exists_setAt_iff`), and otherwise fails at the first one
(`setAt_eq_error_iff`).
-/

namespace ResourceSchema

/-- What a write starts from in a place of type `t` where there is nothing yet: a set element is
there as the step has it, all else is null. -/
def PathStep.fresh (t : Ty) : PathStep → Value
  | .element w => w
  | _ => .null t

namespace Value

variable {t : Ty} {v w x new : Value} {s : PathStep} {p before : Path} {e e' : SetError}

/-- What a write meets in the place of type `t` that a step leads to. -/
def meet (v : Value) (s : PathStep) (t : Ty) : Value :=
  match v.step s with
  | .ok child => child
  | .error _ => s.fresh t

/-- What a write meets at the end of a path; nothing if the path does not fit the type. -/
def met? (v : Value) : Path → Option Value
  | [] => some v
  | s :: p =>
    match v.ty.step s with
    | .ok t => (v.meet s t).met? p
    | .error _ => none

/-- Count of the elements of a list; without data there are none. -/
def listLength : Value → Nat
  | .list _ items => items.length
  | _ => 0

/-- What stops a write at a step from a value. -/
inductive Obstacle : Value → PathStep → SetError → Prop
  | index {v : Value} {i : Int} (h : v.listLength < i) :
      Obstacle v (.index i) (.indexOutOfRange i v.listLength)
  | element {v w : Value} {t : Ty} (ht : v.ty = .set t) (hw : w.ty ≠ t) :
      Obstacle v (.element w) (.typeMismatch t w.ty)

/-- No step of a path is more than a write can take: an index is at most the length of the list that
the write meets, and a set element has the element type of its set. -/
structure Writable (v : Value) (p : Path) : Prop where
  index : ∀ before (i : Int) after, p = before ++ .index i :: after →
    ∃ x, v.met? before = some x ∧ i ≤ x.listLength
  element : ∀ before w after, p = before ++ .element w :: after →
    v.ty.atPath before = .ok (.set w.ty)

/-! ## One step -/

theorem meet_eq_child? (ht : v.ty.step s = .ok t) : v.meet s t = (v.child? s).getD (s.fresh t) := by
  unfold meet
  cases hc : v.child? s with
  | some child => rw [step_eq_ok_iff.2 ⟨⟨t, ht⟩, hc⟩, Option.getD_some]
  | none =>
    cases hs : v.step s with
    | ok child =>
      rw [(step_eq_ok_iff.1 hs).2] at hc
      cases hc
    | error e => rfl

/-- The data that a write puts into a null or an unknown has nothing but nulls in it. -/
theorem child?_materialize (ht : v.ty.step s = .ok t) :
    (v.materialize.child? s).getD (s.fresh t) = (v.child? s).getD (s.fresh t) := by
  have hc := Ty.step_eq_ok_iff.1 ht
  have hnull : ∀ {attributes : List (String × Ty)} {name : String},
      attributes.lookup name = some t → (nullFields attributes).lookup name = some (.null t) := by
    intro attributes name hl
    rw [nullFields, Keyed.lookup_map, hl]
    rfl
  cases v <;> try rfl
  all_goals
    simp only [ty] at hc
    cases hc with
    | name hl => simp [materialize, emptyOf?, child?, hnull hl, PathStep.fresh]
    | index hi => simp [materialize, emptyOf?, child?, itemAt?]
    | element => rfl
    | key => rfl

@[simp] theorem listLength_materialize (v : Value) : v.materialize.listLength = v.listLength := by
  cases v with
  | null t => cases t <;> rfl
  | unknown t => cases t <;> rfl
  | _ => rfl

theorem freshAt_eq_error_iff (ht : v.ty.step s = .ok t) :
    v.freshAt s t = .error e ↔ Obstacle v s e := by
  have hc := Ty.step_eq_ok_iff.1 ht
  constructor
  · intro h
    unfold freshAt at h
    split at h
    · next items i hm =>
      have hlen : v.listLength = items.length := by
        rw [← listLength_materialize, hm]
        rfl
      split at h
      · next hlt =>
        cases h
        rw [← hlen] at hlt ⊢
        exact .index hlt
      · cases h
    · next items x hm =>
      have hty : v.ty = .set t := by
        rw [← materialize_ty, hm, ty] at hc ⊢
        cases hc
        rfl
      split at h
      · next hne => cases h; exact .element hty hne
      · cases h
    · cases h
  · intro h
    cases h with
    | index hlt =>
      cases v <;> simp only [ty] at hc <;> cases hc
      all_goals
        simp only [freshAt, materialize, emptyOf?, Option.getD_some, listLength,
          List.length_nil] at hlt ⊢
        rw [if_pos hlt]
    | element hty hne =>
      rw [hty] at hc
      cases hc
      cases v <;> cases hty <;> simp [freshAt, materialize, emptyOf?, hne]

theorem freshAt_eq_ok (ht : v.ty.step s = .ok t) (h : v.freshAt s t = .ok w) :
    w = s.fresh t := by
  have hc := Ty.step_eq_ok_iff.1 ht
  have hknown := isKnown_materialize ht
  rw [← materialize_ty] at hc
  unfold freshAt at h
  generalize v.materialize = parent at *
  cases parent <;> simp only [ty] at hc <;> cases hc <;> try cases hknown
  all_goals
    dsimp only at h
    try split at h
    all_goals cases h
    all_goals rfl

theorem openAt_eq_error_iff (ht : v.ty.step s = .ok t) :
    v.openAt s = .error e ↔ Obstacle v s e := by
  rw [← freshAt_eq_error_iff ht, openAt, ht]
  show (v.freshAt s t).bind _ = _ ↔ _
  cases v.freshAt s t <;> simp [Except.bind, pure, Except.pure]

/-- Where no obstacle stands, a write goes on with what it meets. -/
theorem openAt_eq_meet (ht : v.ty.step s = .ok t) (h : ∀ e, ¬Obstacle v s e) :
    v.openAt s = .ok (v.meet s t) := by
  cases hopen : v.openAt s with
  | error e => exact absurd ((openAt_eq_error_iff ht).1 hopen) (h e)
  | ok child =>
    obtain ⟨u, fresh, hu, hf, rfl⟩ := openAt_eq_ok hopen
    rw [ht] at hu
    cases hu
    rw [freshAt_eq_ok ht hf, child?_materialize ht, meet_eq_child? ht]

theorem Obstacle.eq (h : Obstacle v s e) (h' : Obstacle v s e') : e = e' := by
  cases h with
  | index _ => cases h'; rfl
  | element ht _ =>
    cases h' with
    | element ht' _ =>
      rw [ht] at ht'
      cases ht'
      rfl

/-! ## Whole paths -/

theorem writable_nil (v : Value) : v.Writable [] := by
  refine ⟨fun before i after h => ?_, fun before w after h => ?_⟩
  · cases before <;> cases h
  · cases before <;> cases h

theorem Writable.no_obstacle (ht : v.ty.step s = .ok t) (h : v.Writable (s :: p)) (e : SetError) :
    ¬Obstacle v s e := by
  intro ho
  cases ho with
  | index hlt =>
    obtain ⟨x, hx, hle⟩ := h.index [] _ p rfl
    cases hx
    omega
  | element hty hne =>
    have hset := h.element [] _ p rfl
    rw [hty] at hset
    cases hset
    exact hne rfl

theorem ty_eq_of_no_obstacle (ht : v.ty.step (.element w) = .ok t)
    (h : ∀ e, ¬Obstacle v (.element w) e) : v.ty = .set w.ty := by
  have hty : v.ty = .set t := by
    have hc := Ty.step_eq_ok_iff.1 ht
    cases hc' : v.ty <;> rw [hc'] at hc <;> cases hc
    rfl
  by_cases hw : w.ty = t
  · rw [hty, hw]
  · exact absurd (.element hty hw) (h _)

theorem writable_cons (ht : v.ty.step s = .ok t) (hs : ∀ e, ¬Obstacle v s e)
    (hty : (v.meet s t).ty = t) : v.Writable (s :: p) ↔ (v.meet s t).Writable p := by
  have hmet : ∀ q, v.met? (s :: q) = (v.meet s t).met? q := by
    intro q
    rw [met?, ht]
  have hpath : ∀ q, v.ty.atPath (s :: q) = (v.meet s t).ty.atPath q := by
    intro q
    rw [Ty.atPath, ht, hty]
    rfl
  constructor
  · intro h
    refine ⟨?_, ?_⟩
    · rintro before i after rfl
      rw [← hmet]
      exact h.index (s :: before) i after rfl
    · rintro before w after rfl
      rw [← hpath]
      exact h.element (s :: before) w after rfl
  · intro hp
    refine ⟨?_, ?_⟩
    · rintro (_ | ⟨s', before⟩) i after heq
      · cases heq
        exact ⟨v, rfl, Int.not_lt.1 fun hlt => hs _ (.index hlt)⟩
      · cases heq
        rw [hmet]
        exact hp.index before i after rfl
    · rintro (_ | ⟨s', before⟩) w after heq
      · cases heq
        exact congrArg Except.ok (ty_eq_of_no_obstacle ht hs)
      · cases heq
        rw [hpath]
        exact hp.element before w after rfl

/-- What a write meets behind a step that it can take has the type that the step leads to. -/
theorem meet_spec (hv : v.WellFormed) (hs : s.WellFormed) (ht : v.ty.step s = .ok t)
    (h : ∀ e, ¬Obstacle v s e) : (v.meet s t).ty = t ∧ (v.meet s t).WellFormed := by
  obtain ⟨hty, hwf⟩ := openAt_spec hv hs (openAt_eq_meet ht h)
  rw [ht] at hty
  exact ⟨(Except.ok.inj hty).symm, hwf⟩

theorem setAt_of_obstacle (ht : v.ty.step s = .ok t) (h : Obstacle v s e) :
    v.setAt (s :: p) new = .error e := by
  rw [setAt_cons, (openAt_eq_error_iff ht).2 h]
  rfl

theorem setAt_of_no_obstacle (ht : v.ty.step s = .ok t) (h : ∀ e, ¬Obstacle v s e) :
    v.setAt (s :: p) new = ((v.meet s t).setAt p new).map (v.putAt s) :=
  setAt_of_openAt (openAt_eq_meet ht h) p new

theorem exists_setAt_iff (hv : v.WellFormed) (hp : p.WellFormed)
    (hnew : v.ty.atPath p = .ok new.ty) :
    (∃ w, v.setAt p new = .ok w) ↔ v.Writable p := by
  induction p generalizing v with
  | nil =>
    have hty : new.ty = v.ty := (Except.ok.inj hnew).symm
    rw [setAt, if_pos hty]
    exact ⟨fun _ => writable_nil v, fun _ => ⟨new, rfl⟩⟩
  | cons s p ih =>
    obtain ⟨hs, hp⟩ := List.forall_mem_cons.1 hp
    obtain ⟨t, ht, hnew⟩ := Except.bind_eq_ok.1 hnew
    by_cases h : ∀ e, ¬Obstacle v s e
    · obtain ⟨hty, hwf⟩ := meet_spec hv hs ht h
      rw [writable_cons ht h hty, ← ih hwf hp (by rw [hty, hnew]), setAt_of_no_obstacle ht h]
      cases (v.meet s t).setAt p new <;> simp [Except.map]
    · obtain ⟨e, he⟩ := not_forall_not.1 h
      rw [setAt_of_obstacle ht he]
      constructor
      · rintro ⟨_, ⟨⟩⟩
      · intro hw
        exact absurd he (hw.no_obstacle ht e)

/-- A write that does not succeed fails at the first obstacle that it meets. -/
theorem setAt_eq_error_iff (hv : v.WellFormed) (hp : p.WellFormed)
    (hnew : v.ty.atPath p = .ok new.ty) : v.setAt p new = .error e ↔
      ∃ before s after x, p = before ++ s :: after ∧ v.Writable before ∧
        v.met? before = some x ∧ Obstacle x s e := by
  induction p generalizing v with
  | nil =>
    have hty : new.ty = v.ty := (Except.ok.inj hnew).symm
    rw [setAt, if_pos hty]
    simp
  | cons s p ih =>
    obtain ⟨hs, hp⟩ := List.forall_mem_cons.1 hp
    obtain ⟨t, ht, hnew⟩ := Except.bind_eq_ok.1 hnew
    by_cases h : ∀ e, ¬Obstacle v s e
    · obtain ⟨hty, hwf⟩ := meet_spec hv hs ht h
      have hmap : v.setAt (s :: p) new = .error e ↔ (v.meet s t).setAt p new = .error e := by
        rw [setAt_of_no_obstacle ht h, Except.map_eq_error]
      rw [hmap, ih hwf hp (by rw [hty, hnew])]
      constructor
      · rintro ⟨before, s', after, x, rfl, hw, hx, ho⟩
        have hmet : v.met? (s :: before) = some x := by
          rw [met?, ht]
          exact hx
        exact ⟨s :: before, s', after, x, rfl, (writable_cons ht h hty).2 hw, hmet, ho⟩
      · rintro ⟨_ | ⟨s', before⟩, s'', after, x, heq, hw, hx, ho⟩
        · cases heq
          cases hx
          exact absurd ho (h e)
        · cases heq
          rw [met?, ht] at hx
          exact ⟨before, s'', after, x, rfl, (writable_cons ht h hty).1 hw, hx, ho⟩
    · obtain ⟨e', he⟩ := not_forall_not.1 h
      rw [setAt_of_obstacle ht he]
      constructor
      · rintro ⟨⟩
        exact ⟨[], s, p, v, rfl, writable_nil v, rfl, he⟩
      · rintro ⟨_ | ⟨s', before⟩, s'', after, x, heq, hw, hx, ho⟩
        · cases heq
          cases hx
          rw [he.eq ho]
        · cases heq
          exact absurd he (hw.no_obstacle ht e')

end Value
end ResourceSchema
