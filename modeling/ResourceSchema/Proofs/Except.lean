import Mathlib.Data.List.Forall2

/-!
# Results of steps in sequence

When a sequence of steps that may fail succeeds, each step has succeeded, and likewise when a step
is taken for each element of a list; when it fails, one of them has failed. Two sequences of steps
that agree step by step agree in what comes out (`Except.Rel`).
-/

namespace ResourceSchema

variable {ε δ α β γ κ : Type}

theorem Except.bind_eq_ok {x : Except ε α} {f : α → Except ε β} {b : β} :
    x.bind f = .ok b ↔ ∃ a, x = .ok a ∧ f a = .ok b := by
  cases x <;> simp [Except.bind]

theorem Except.bind_eq_error {x : Except ε α} {f : α → Except ε β} {e : ε} :
    x.bind f = .error e ↔ x = .error e ∨ ∃ a, x = .ok a ∧ f a = .error e := by
  cases x <;> simp [Except.bind]

theorem Except.check_eq_ok {x : Except ε Unit} {y : Except ε β} {b : β} :
    (x.bind fun _ => y) = .ok b ↔ x = .ok () ∧ y = .ok b := by
  cases x <;> simp [Except.bind]

@[simp] theorem Except.map_eq_ok {x : Except ε α} {f : α → β} {b : β} :
    x.map f = .ok b ↔ ∃ a, x = .ok a ∧ f a = b := by
  cases x <;> simp [Except.map]

@[simp] theorem Except.map_eq_error {x : Except ε α} {f : α → β} {e : ε} :
    x.map f = .error e ↔ x = .error e := by
  cases x <;> simp [Except.map]

/-- What goes on with one result only succeeds where that is the result. -/
theorem Except.bind_eq_ok_iff {x : Except ε α} {f : α → Except ε β} {a : α} {b : β}
    (hf : ∀ c, f c = .ok b ↔ c = a) : x.bind f = .ok b ↔ x = .ok a := by
  simp [bind_eq_ok, hf]

/-- A result under its name. -/
theorem Except.named_eq_ok {name : κ} {x : Except ε α} {e : κ × α} :
    (do return (name, ← x)) = (.ok e : Except ε (κ × α)) ↔ name = e.1 ∧ x = .ok e.2 := by
  cases x <;> simp [Prod.ext_iff]

@[simp] theorem Except.mapError_eq_ok {x : Except ε α} {f : ε → δ} {a : α} :
    x.mapError f = .ok a ↔ x = .ok a := by
  cases x <;> simp [Except.mapError]

@[simp] theorem Except.mapError_eq_error {x : Except ε α} {f : ε → δ} {e : δ} :
    x.mapError f = .error e ↔ ∃ e', x = .error e' ∧ f e' = e := by
  cases x <;> simp [Except.mapError]

/-! ## Lists -/

theorem Except.forM_eq_ok {f : α → Except ε Unit} {xs : List α} :
    xs.forM f = .ok () ↔ ∀ x ∈ xs, f x = .ok () := by
  induction xs with
  | nil => exact ⟨fun _ _ hx => (List.not_mem_nil hx).elim, fun _ => rfl⟩
  | cons x xs ih =>
    rw [List.forall_mem_cons, ← ih]
    exact Except.bind_eq_ok.trans ⟨fun ⟨_, hx, h⟩ => ⟨hx, h⟩, fun ⟨hx, h⟩ => ⟨(), hx, h⟩⟩

@[simp] theorem Except.mapM_eq_ok {f : α → Except ε β} {xs : List α} {ys : List β} :
    xs.mapM f = .ok ys ↔ List.Forall₂ (fun x y => f x = .ok y) xs ys := by
  induction xs generalizing ys with
  | nil =>
    cases ys with
    | nil => exact ⟨fun _ => .nil, fun _ => rfl⟩
    | cons y ys => exact ⟨fun h => (by cases h), fun h => (by cases h)⟩
  | cons x xs ih =>
    rw [List.mapM_cons]
    constructor
    · intro h
      obtain ⟨y, hy, h⟩ := Except.bind_eq_ok.1 h
      obtain ⟨rest, hrest, h⟩ := Except.bind_eq_ok.1 h
      cases h
      exact .cons hy (ih.1 hrest)
    · intro h
      cases h with
      | cons hy hrest =>
        exact Except.bind_eq_ok.2 ⟨_, hy, Except.bind_eq_ok.2 ⟨_, ih.2 hrest, rfl⟩⟩

theorem Except.mapM_eq_error {f : α → Except ε β} {xs : List α} {e : ε} (h : xs.mapM f = .error e) :
    ∃ x ∈ xs, f x = .error e := by
  induction xs with
  | nil => cases h
  | cons x xs ih =>
    rw [List.mapM_cons] at h
    rcases Except.bind_eq_error.1 h with hx | ⟨y, _, h⟩
    · exact ⟨x, List.mem_cons_self, hx⟩
    rcases Except.bind_eq_error.1 h with hrest | ⟨ys, _, h⟩
    · obtain ⟨z, hz, he⟩ := ih hrest
      exact ⟨z, List.mem_cons_of_mem _ hz, he⟩
    · cases h

theorem Except.exists_mapM {f : α → Except ε β} {xs : List α} (h : ∀ x ∈ xs, ∃ y, f x = .ok y) :
    ∃ ys, xs.mapM f = .ok ys := by
  induction xs with
  | nil => exact ⟨[], rfl⟩
  | cons x xs ih =>
    obtain ⟨⟨y, hy⟩, hrest⟩ := List.forall_mem_cons.1 h
    obtain ⟨ys, hys⟩ := ih hrest
    exact ⟨y :: ys, by rw [List.mapM_cons, hy, hys]; rfl⟩

/-- When each step checks something and then goes on as a function, so do all of them. -/
theorem Except.foldlM_eq_ok {f : β → α → Except ε β} {g : β → α → β} {P : α → Prop} {xs : List α}
    {b c : β} (hf : ∀ b x c, f b x = .ok c ↔ P x ∧ c = g b x) :
    xs.foldlM f b = .ok c ↔ (∀ x ∈ xs, P x) ∧ c = xs.foldl g b := by
  induction xs generalizing b with
  | nil => exact ⟨fun h => (by cases h; exact ⟨by simp, rfl⟩), fun h => congrArg Except.ok h.2.symm⟩
  | cons x xs ih =>
    rw [List.foldlM_cons, List.forall_mem_cons, and_assoc]
    refine Except.bind_eq_ok.trans ⟨?_, ?_⟩
    · rintro ⟨d, hd, h⟩
      obtain ⟨hx, rfl⟩ := (hf b x d).1 hd
      exact ⟨hx, ih.1 h⟩
    · rintro ⟨hx, h⟩
      exact ⟨g b x, (hf b x _).2 ⟨hx, rfl⟩, ih.2 h⟩

/-! ## Two runs -/

/-- Both are errors or both are results, in relation to each other. -/
inductive Except.Rel (E : ε → δ → Prop) (R : α → β → Prop) : Except ε α → Except δ β → Prop
  | error {e : ε} {e' : δ} (h : E e e') : Rel E R (.error e) (.error e')
  | ok {a : α} {b : β} (h : R a b) : Rel E R (.ok a) (.ok b)

theorem Except.Rel.refl {E : ε → ε → Prop} {R : α → α → Prop} (hE : ∀ e, E e e) (hR : ∀ a, R a a)
    (x : Except ε α) : Rel E R x x := by
  cases x with
  | error e => exact .error (hE e)
  | ok a => exact .ok (hR a)

theorem Except.Rel.bind {E : ε → δ → Prop} {R : α → β → Prop} {S : γ → κ → Prop} {x : Except ε α}
    {y : Except δ β} {f : α → Except ε γ} {g : β → Except δ κ} (h : Rel E R x y)
    (hf : ∀ a b, R a b → Rel E S (f a) (g b)) : Rel E S (x.bind f) (y.bind g) := by
  cases h with
  | error he => exact .error he
  | ok hab => exact hf _ _ hab

theorem Except.Rel.mapError {ε' δ' : Type} {E : ε → δ → Prop} {E' : ε' → δ' → Prop}
    {R : α → β → Prop} {x : Except ε α} {y : Except δ β} {f : ε → ε'} {g : δ → δ'}
    (h : Rel E R x y) (hf : ∀ e e', E e e' → E' (f e) (g e')) :
    Rel E' R (x.mapError f) (y.mapError g) := by
  cases h with
  | error he => exact .error (hf _ _ he)
  | ok hab => exact .ok hab

end ResourceSchema
