import ResourceSchema.Planning
import ResourceSchema.Proofs.Value.Step

/-!
# Planned results

What was noted along with a result is a list that later notes are appended to, so that sequencing
obeys the laws of a monad. A result is sound for a property if it has the property and only
well-formed paths were noted; sequences of sound results are sound. Its diagnostics are accounted
for if they are put together from pieces of a kind; so are those of sequences then. Of the paths
that were noted the outcome has one for each class of equal ones (`exists_mem_distinctPaths`).
-/

namespace ResourceSchema

namespace Planned

variable {α β : Type} {P : α → Prop} {Q : β → Prop}

instance : LawfulMonad Planned := LawfulMonad.mk' Planned
  (fun m => by
    show (⟨m.result, ⟨m.log.replaced ++ [], m.log.diagnostics ++ []⟩⟩ : Planned _) = m
    rw [List.append_nil, List.append_nil])
  (fun _ _ => rfl)
  (fun m f g => by
    show (⟨_, ⟨(_ ++ _) ++ _, (_ ++ _) ++ _⟩⟩ : Planned _) = ⟨_, ⟨_ ++ (_ ++ _), _ ++ (_ ++ _)⟩⟩
    rw [List.append_assoc, List.append_assoc]
    rfl)

@[simp] theorem result_pure (a : α) : (pure a : Planned α).result = a := rfl

@[simp] theorem log_pure (a : α) : (pure a : Planned α).log = ⟨[], []⟩ := rfl

@[simp] theorem result_bind (m : Planned α) (f : α → Planned β) :
    (m >>= f).result = (f m.result).result := rfl

@[simp] theorem result_map (f : α → β) (m : Planned α) : (f <$> m).result = f m.result := rfl

@[simp] theorem replaced_map (f : α → β) (m : Planned α) :
    (f <$> m).log.replaced = m.log.replaced :=
  List.append_nil _

@[simp] theorem result_mapM (f : α → Planned β) (xs : List α) :
    (xs.mapM f).result = xs.map fun x => (f x).result := by
  induction xs with
  | nil => rfl
  | cons x xs ih => simp [ih]

theorem forall_result_mapM {f : α → Planned β} {xs : List α} (h : ∀ x ∈ xs, Q (f x).result) :
    ∀ y ∈ (xs.mapM f).result, Q y := by
  rw [result_mapM, List.forall_mem_map]
  exact h

theorem bind_congr_result {x : Planned α} {f g : α → Planned β}
    (h : f x.result = g x.result) : x >>= f = x >>= g := by
  show (⟨(f x.result).result, _, _⟩ : Planned β) = ⟨(g x.result).result, _, _⟩
  rw [h]

theorem mapM_congr {f g : α → Planned β} {xs : List α}
    (h : ∀ x ∈ xs, f x = g x) : xs.mapM f = xs.mapM g := by
  induction xs with
  | nil => rfl
  | cons x xs ih =>
    obtain ⟨hx, hxs⟩ := List.forall_mem_cons.1 h
    rw [List.mapM_cons, List.mapM_cons, hx, ih hxs]

theorem mapM_eq_pure {f : α → Planned β} {g : α → β} {xs : List α}
    (h : ∀ x ∈ xs, f x = pure (g x)) : xs.mapM f = pure (xs.map g) := by
  induction xs with
  | nil => rfl
  | cons x xs ih =>
    obtain ⟨hx, hxs⟩ := List.forall_mem_cons.1 h
    rw [List.mapM_cons, hx, ih hxs, pure_bind, pure_bind]
    rfl

@[simp] theorem replaced_bind (m : Planned α) (f : α → Planned β) :
    (m >>= f).log.replaced = m.log.replaced ++ (f m.result).log.replaced := rfl

@[simp] theorem replaced_mapM (f : α → Planned β) (xs : List α) :
    (xs.mapM f).log.replaced = xs.flatMap fun x => (f x).log.replaced := by
  induction xs with
  | nil => rfl
  | cons x xs ih => simp [ih]

/-- The result has a property, and the paths that were noted are well formed. -/
structure Sound (P : α → Prop) (m : Planned α) : Prop where
  result : P m.result
  replaced : ∀ p ∈ m.log.replaced, p.WellFormed

theorem Sound.pure {a : α} (h : P a) : Sound P (Pure.pure a) := ⟨h, fun _ hp => by cases hp⟩

theorem Sound.report (d : Diagnostic) : Sound (fun _ => True) (report d) :=
  ⟨trivial, fun _ hp => by cases hp⟩

theorem Sound.bind {m : Planned α} {f : α → Planned β} (hm : m.Sound P)
    (hf : ∀ a, P a → (f a).Sound Q) : (m >>= f).Sound Q := by
  have hnext := hf m.result hm.result
  refine ⟨hnext.result, ?_⟩
  intro p hp
  exact (List.mem_append.1 hp).elim (hm.replaced p) (hnext.replaced p)

theorem Sound.mapM {f : α → Planned β} {xs : List α} (h : ∀ x ∈ xs, (f x).Sound Q) :
    (xs.mapM f).Sound fun ys => ∀ y ∈ ys, Q y := by
  induction xs with
  | nil => exact .pure (by simp)
  | cons x xs ih =>
    obtain ⟨hx, hxs⟩ := List.forall_mem_cons.1 h
    rw [List.mapM_cons]
    refine hx.bind fun y hy => (ih hxs).bind fun ys hys => .pure ?_
    exact List.forall_mem_cons.2 ⟨hy, hys⟩

/-! ## Accounting for the diagnostics -/

/-- The diagnostics that were noted come in pieces, each of which is accounted for. -/
def Accounted (E : Diagnostics → Prop) (m : Planned α) : Prop :=
  ∃ pieces : List Diagnostics, (∀ ds ∈ pieces, E ds) ∧ m.log.diagnostics = pieces.flatten

variable {E : Diagnostics → Prop}

theorem Accounted.pure (a : α) : Accounted E (Pure.pure a) := ⟨[], by simp, rfl⟩

theorem Accounted.note {ds : Diagnostics} (h : E ds) (replaced : List Path) :
    Accounted E (note ds replaced) := ⟨[ds], by simpa using h, by simp [Planned.note]⟩

theorem Accounted.bind {m : Planned α} {f : α → Planned β} (hm : m.Accounted E)
    (hf : (f m.result).Accounted E) : (m >>= f).Accounted E := by
  obtain ⟨pieces, hpieces, hlog⟩ := hm
  obtain ⟨others, hothers, hnext⟩ := hf
  refine ⟨pieces ++ others, List.forall_mem_append.2 ⟨hpieces, hothers⟩, ?_⟩
  rw [List.flatten_append, ← hlog, ← hnext]
  rfl

theorem Accounted.mapM {f : α → Planned β} {xs : List α} (h : ∀ x ∈ xs, (f x).Accounted E) :
    (xs.mapM f).Accounted E := by
  induction xs with
  | nil => exact .pure []
  | cons x xs ih =>
    obtain ⟨hx, hxs⟩ := List.forall_mem_cons.1 h
    rw [List.mapM_cons]
    exact hx.bind ((ih hxs).bind (.pure _))

end Planned

/-! ## Each path once -/

theorem mem_of_mem_distinctPaths {paths : List Path} {p : Path} (h : p ∈ distinctPaths paths) :
    p ∈ paths := by
  suffices hs : ∀ acc : List Path, p ∈ paths.foldl
      (fun acc q => if acc.any fun r => r.same q then acc else acc ++ [q]) acc →
        p ∈ acc ∨ p ∈ paths from (hs [] h).resolve_left List.not_mem_nil
  clear h
  induction paths with
  | nil => exact fun acc h => .inl h
  | cons q rest ih =>
    intro acc h
    rw [List.foldl_cons] at h
    rcases ih _ h with h | h
    · split at h
      · exact .inl h
      · rcases List.mem_append.1 h with h | h
        · exact .inl h
        · exact .inr (List.mem_singleton.1 h ▸ List.mem_cons_self)
    · exact .inr (List.mem_cons_of_mem _ h)

/-- No two of the paths that are left are equal. -/
theorem pairwise_distinctPaths (paths : List Path) :
    (distinctPaths paths).Pairwise fun p q => Path.same p q = false := by
  suffices hs : ∀ acc : List Path, acc.Pairwise (fun p q => Path.same p q = false) →
      (paths.foldl (fun acc q => if acc.any fun r => r.same q then acc else acc ++ [q])
        acc).Pairwise fun p q => Path.same p q = false from hs [] .nil
  induction paths with
  | nil => exact fun acc h => h
  | cons q rest ih =>
    intro acc h
    rw [List.foldl_cons]
    refine ih _ ?_
    split
    · exact h
    · next hnew =>
      refine List.pairwise_append.2 ⟨h, List.pairwise_singleton _ _, fun r hr p hp => ?_⟩
      rw [List.mem_singleton.1 hp]
      exact Bool.eq_false_iff.2 fun hsame => hnew (List.any_eq_true.2 ⟨r, hr, hsame⟩)

/-- A path that equals each is left. -/
theorem exists_mem_distinctPaths {paths : List Path} {p : Path} (h : p ∈ paths) :
    ∃ q ∈ distinctPaths paths, Path.same q p = true := by
  suffices hs : ∀ acc : List Path, (∃ q ∈ acc, Path.same q p = true) ∨ p ∈ paths →
      ∃ q ∈ paths.foldl (fun acc q => if acc.any fun r => r.same q then acc else acc ++ [q]) acc,
        Path.same q p = true from hs [] (.inr h)
  clear h
  induction paths with
  | nil => exact fun acc h => h.resolve_right List.not_mem_nil
  | cons q rest ih =>
    intro acc h
    rw [List.foldl_cons]
    refine ih _ ?_
    rcases h with ⟨r, hr, hsame⟩ | hp
    · refine .inl ⟨r, ?_, hsame⟩
      split
      · exact hr
      · exact List.mem_append_left _ hr
    rcases List.mem_cons.1 hp with rfl | hp
    · refine .inl ?_
      split
      · next hold => exact List.any_eq_true.1 hold
      · exact ⟨p, List.mem_append_right _ List.mem_cons_self, Path.same_refl p⟩
    · exact .inr hp

/-- All modifiers but custom ones answer as they do in any program. -/
def PlanContext.Standard (context : PlanContext) : Prop :=
  ∃ custom, context.answer = PlanModifier.respond custom

end ResourceSchema
