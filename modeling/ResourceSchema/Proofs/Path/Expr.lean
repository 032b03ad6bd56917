import ResourceSchema.Path.Expr
import ResourceSchema.Proofs.Value.Step

/-!
# Paths that an expression describes

An expression accepts the paths whose steps fit its own one by one, and passes through the initial
parts of those. Its own steps are what is left when each step back has taken off the one before it
(`PathExpr.accepts_reduced`).
-/

namespace ResourceSchema

theorem ExprStep.fits_congr {e : ExprStep} {s s' : PathStep} (hs : s.same s' = true)
    (h : e.fits s = true) : e.fits s' = true := by
  cases e with
  | exact expected => exact PathStep.same_trans h hs
  | _ => cases s <;> cases s' <;> first | exact h | cases hs

namespace PathExpr

variable {e : PathExpr} {steps : List ExprStep} {p q : Path}

/-! ## Fitting steps -/

@[simp] theorem allFit_cons {x : ExprStep} {s : PathStep} :
    allFit (x :: steps) (s :: p) = true ↔ x.fits s = true ∧ allFit steps p = true := by
  rw [allFit, List.zip_cons_cons, List.all_cons, Bool.and_eq_true]
  rfl

theorem allFit_of_append (h : allFit steps (p ++ q) = true) : allFit steps p = true := by
  induction steps generalizing p with
  | nil => cases p <;> rfl
  | cons x steps ih =>
    cases p with
    | nil => rfl
    | cons s p =>
      obtain ⟨hs, hp⟩ := allFit_cons.1 h
      exact allFit_cons.2 ⟨hs, ih hp⟩

theorem allFit_congr (hp : Path.same p q = true) (h : allFit steps p = true) :
    allFit steps q = true := by
  rw [Path.same_iff] at hp
  induction hp generalizing steps with
  | nil => exact h
  | cons hs _ ih =>
    cases steps with
    | nil => rfl
    | cons x steps =>
      obtain ⟨hfits, h⟩ := allFit_cons.1 h
      exact allFit_cons.2 ⟨ExprStep.fits_congr hs hfits, ih h⟩

/-- The path has as many steps, and each fits the step of its place. -/
def Fits (steps : List ExprStep) (p : Path) : Prop :=
  List.Forall₂ (fun x s => x.fits s = true) steps p

/-- The path fits a part of the steps that others follow. -/
def FitsPart (steps : List ExprStep) (p : Path) : Prop :=
  ∃ first last, steps = first ++ last ∧ last ≠ [] ∧ Fits first p

theorem fits_iff : Fits steps p ↔ steps.length = p.length ∧ allFit steps p = true := by
  rw [Fits, List.forall₂_iff_zip, allFit, List.all_eq_true]
  exact and_congr_right fun _ => ⟨fun h pair => @h pair.1 pair.2, fun h _ _ => h (_, _)⟩

theorem Fits.fits {n : Nat} {x : ExprStep} {s : PathStep} (h : Fits steps p)
    (hx : steps[n]? = some x) (hs : p[n]? = some s) : x.fits s = true := by
  obtain ⟨hn, rfl⟩ := List.getElem?_eq_some_iff.1 hx
  obtain ⟨hn', rfl⟩ := List.getElem?_eq_some_iff.1 hs
  exact List.Forall₂.get h hn hn'

theorem allFit_append_iff {first last : List ExprStep} (hl : first.length = p.length) :
    allFit (first ++ last) p = true ↔ allFit first p = true := by
  have hzip : (first ++ last).zip p = first.zip p := by
    have h : (first ++ last).zip (p ++ []) = first.zip p ++ last.zip [] := List.zip_append hl
    rwa [List.append_nil, List.zip_nil_right, List.append_nil] at h
  rw [allFit, allFit, hzip]

theorem fitsPart_iff : FitsPart steps p ↔ p.length < steps.length ∧ allFit steps p = true := by
  constructor
  · rintro ⟨first, last, rfl, hlast, h⟩
    obtain ⟨hl, hfit⟩ := fits_iff.1 h
    refine ⟨?_, (allFit_append_iff hl).2 hfit⟩
    have := List.length_pos_iff.2 hlast
    rw [List.length_append]
    omega
  · rintro ⟨hlt, hfit⟩
    have hl : (steps.take p.length).length = p.length := by
      rw [List.length_take]
      omega
    have hsplit := List.take_append_drop p.length steps
    refine ⟨steps.take p.length, steps.drop p.length, hsplit.symm, ?_, fits_iff.2 ⟨hl, ?_⟩⟩
    · apply List.length_pos_iff.1
      rw [List.length_drop]
      omega
    · rwa [← hsplit, allFit_append_iff hl] at hfit

/-! ## Accepted paths -/

theorem accepts_iff : e.accepts p = true ↔
    e.resolve.allSteps.length = p.length ∧ allFit e.resolve.allSteps p = true := by
  rw [accepts, Bool.and_eq_true, beq_iff_eq]

theorem passesThrough_iff : e.passesThrough p = true ↔
    p.length < e.resolve.allSteps.length ∧ allFit e.resolve.allSteps p = true := by
  rw [passesThrough, Bool.and_eq_true, decide_eq_true_iff]

theorem accepts_iff_fits : e.accepts p = true ↔ Fits e.resolve.allSteps p :=
  accepts_iff.trans fits_iff.symm

theorem passesThrough_iff_fitsPart : e.passesThrough p = true ↔ FitsPart e.resolve.allSteps p :=
  passesThrough_iff.trans fitsPart_iff.symm

theorem accepts_congr (hp : Path.same p q = true) (h : e.accepts p = true) :
    e.accepts q = true := by
  obtain ⟨hl, hfit⟩ := accepts_iff.1 h
  exact accepts_iff.2 ⟨hl.trans (Path.length_eq_of_same hp), allFit_congr hp hfit⟩

theorem passesThrough_congr (hp : Path.same p q = true) (h : e.passesThrough p = true) :
    e.passesThrough q = true := by
  obtain ⟨hl, hfit⟩ := passesThrough_iff.1 h
  exact passesThrough_iff.2 ⟨Path.length_eq_of_same hp ▸ hl, allFit_congr hp hfit⟩

/-- An expression passes through what is above a path that it accepts or passes through. -/
theorem passesThrough_of_append (hq : q ≠ [])
    (h : e.accepts (p ++ q) = true ∨ e.passesThrough (p ++ q) = true) :
    e.passesThrough p = true := by
  have hlength : p.length < (p ++ q).length := by
    have := List.length_pos_iff.2 hq
    rw [List.length_append]
    omega
  rw [passesThrough_iff]
  obtain h | h := h
  · obtain ⟨hl, hfit⟩ := accepts_iff.1 h
    exact ⟨by omega, allFit_of_append hfit⟩
  · obtain ⟨hl, hfit⟩ := passesThrough_iff.1 h
    exact ⟨by omega, allFit_of_append hfit⟩

theorem not_accepts_of_passesThrough (h : e.passesThrough p = true) : ¬e.accepts p = true := by
  intro ha
  have hlt := (passesThrough_iff.1 h).1
  have heq := (accepts_iff.1 ha).1
  omega

/-! ## Resolved expressions -/

/-- No step leads back. -/
def IsResolved (e : PathExpr) : Prop := .parent ∉ e.steps

theorem isResolved_resolve (e : PathExpr) : e.resolve.IsResolved := by
  have hfold : ∀ (steps : List ExprStep) (acc : Path × List ExprStep), .parent ∉ acc.2 →
      .parent ∉ (steps.foldl resolveStep acc).2 := by
    intro steps
    induction steps with
    | nil => exact fun _ h => h
    | cons x steps ih =>
      intro acc h
      refine ih _ ?_
      cases x with
      | parent =>
        rw [resolveStep]
        split
        · exact List.not_mem_nil
        · exact fun hmem => h (List.dropLast_subset acc.2 hmem)
      | _ => simpa [resolveStep] using h
  exact hfold e.steps (e.anchor, []) List.not_mem_nil

theorem IsResolved.resolve_eq (h : e.IsResolved) : e.resolve = e := by
  have hfold : ∀ (steps : List ExprStep) (anchor : Path) (acc : List ExprStep),
      .parent ∉ steps → steps.foldl resolveStep (anchor, acc) = (anchor, acc ++ steps) := by
    intro steps anchor
    induction steps with
    | nil => simp
    | cons x steps ih =>
      intro acc hsteps
      have hx : x ≠ .parent := fun hx => hsteps (hx ▸ List.mem_cons_self)
      have hstep : resolveStep (anchor, acc) x = (anchor, acc ++ [x]) := by
        cases x <;> first | rfl | exact absurd rfl hx
      rw [List.foldl_cons, hstep, ih _ fun hmem => hsteps (List.mem_cons_of_mem x hmem),
        List.append_assoc, List.singleton_append]
  rw [resolve, hfold e.steps e.anchor [] h, List.nil_append]

@[simp] theorem relative_merge (e : PathExpr) (base : Path) : (e.merge base).relative = false := by
  unfold merge
  split
  · rfl
  · next h => exact Bool.eq_false_iff.2 h

/-- The expression as it stands at the root: not relative and without steps back. -/
def atRoot (e : PathExpr) : PathExpr := (e.merge []).resolve

@[simp] theorem resolve_atRoot (e : PathExpr) : e.atRoot.resolve = e.atRoot :=
  (isResolved_resolve (e.merge [])).resolve_eq

@[simp] theorem merge_atRoot (e : PathExpr) : e.atRoot.merge [] = e.atRoot := by
  have hrelative : e.atRoot.relative = false := relative_merge e []
  rw [merge, hrelative, if_neg Bool.false_ne_true]

@[simp] theorem atRoot_atRoot (e : PathExpr) : e.atRoot.atRoot = e.atRoot := by
  rw [atRoot]
  simp

/-! ## Steps back

Reading the steps of the anchor and then those of the expression, each is put on one stack and a
step back takes the last one off. It does not matter where the anchor ends. -/

/-- One more step is read. -/
def push (stack : List ExprStep) : ExprStep → List ExprStep
  | .parent => stack.dropLast
  | x => stack ++ [x]

/-- What is left on the stack when all steps are read. -/
def reduced (steps : List ExprStep) : List ExprStep := steps.foldl push []

theorem foldl_push_of_not_mem (h : .parent ∉ steps) (stack : List ExprStep) :
    steps.foldl push stack = stack ++ steps := by
  induction steps generalizing stack with
  | nil => rw [List.foldl_nil, List.append_nil]
  | cons x steps ih =>
    obtain ⟨hx, hsteps⟩ := List.ne_and_not_mem_of_not_mem_cons h
    have hpush : push stack x = stack ++ [x] := by
      cases x <;> first | rfl | exact absurd rfl hx
    rw [List.foldl_cons, hpush, ih hsteps, List.append_assoc, List.singleton_append]

theorem parent_not_mem_exact (p : Path) : ExprStep.parent ∉ p.map .exact := by simp

/-- Steps back are taken off the steps read before them as they are off one stack with the anchor
below. -/
theorem foldl_resolveStep (steps : List ExprStep) (acc : Path × List ExprStep) :
    (steps.foldl resolveStep acc).1.map .exact ++ (steps.foldl resolveStep acc).2 =
      steps.foldl push (acc.1.map .exact ++ acc.2) := by
  induction steps generalizing acc with
  | nil => rfl
  | cons x steps ih =>
    have hstep : (resolveStep acc x).1.map .exact ++ (resolveStep acc x).2 =
        push (acc.1.map .exact ++ acc.2) x := by
      obtain ⟨anchor, kept⟩ := acc
      cases x with
      | parent =>
        by_cases hkept : kept = []
        · simp [resolveStep, push, hkept]
        · simp [resolveStep, push, hkept, List.dropLast_append_of_ne_nil]
      | _ => simp [resolveStep, push]
    rw [List.foldl_cons, List.foldl_cons, ih, hstep]

/-- The steps of a resolved expression are those left on the stack. -/
@[simp] theorem allSteps_resolve (e : PathExpr) : e.resolve.allSteps = reduced e.allSteps := by
  have hanchor : (e.anchor.map ExprStep.exact).foldl push [] = e.anchor.map .exact :=
    foldl_push_of_not_mem (parent_not_mem_exact e.anchor) []
  calc e.resolve.allSteps
      = e.steps.foldl push (e.anchor.map ExprStep.exact ++ []) :=
        foldl_resolveStep e.steps (e.anchor, [])
    _ = e.steps.foldl push ((e.anchor.map ExprStep.exact).foldl push []) := by
        rw [hanchor, List.append_nil]
    _ = reduced e.allSteps := List.foldl_append.symm

@[simp] theorem resolve_resolve (e : PathExpr) : e.resolve.resolve = e.resolve :=
  (isResolved_resolve e).resolve_eq

theorem allSteps_merge (h : e.relative = true) (base : Path) :
    (e.merge base).allSteps = base.map .exact ++ e.allSteps := by
  rw [merge, if_pos h, allSteps, List.map_append, List.append_assoc, allSteps]

@[simp] theorem allSteps_atRoot (e : PathExpr) : e.atRoot.allSteps = e.resolve.allSteps := by
  have hmerge : (e.merge []).allSteps = e.allSteps := by
    by_cases h : e.relative = true
    · exact allSteps_merge h []
    · rw [merge, if_neg h]
  simp [atRoot, hmerge]

theorem parent_not_mem_allSteps (e : PathExpr) : .parent ∉ e.resolve.allSteps := by
  rw [allSteps, List.mem_append]
  exact not_or.2 ⟨parent_not_mem_exact e.resolve.anchor, isResolved_resolve e⟩

/-- An expression accepts the paths that fit what is left on the stack when its steps are read,
those of the anchor first, and passes through those that fit a part of that. Resolving leaves no
step back, so that a second time changes nothing, and the same paths are accepted and passed
through. A relative expression is read behind the steps of the path that it is merged with. -/
theorem accepts_reduced (e : PathExpr) :
    (∀ p, (e.accepts p = true ↔ Fits (reduced e.allSteps) p) ∧
      (e.passesThrough p = true ↔ FitsPart (reduced e.allSteps) p)) ∧
    .parent ∉ e.resolve.steps ∧ e.resolve.resolve = e.resolve ∧
    (∀ p, e.resolve.accepts p = e.accepts p ∧ e.resolve.passesThrough p = e.passesThrough p) ∧
    (e.relative = true → ∀ base p, (e.merge base).resolve.accepts p = true ↔
      Fits (reduced (base.map .exact ++ e.allSteps)) p) := by
  have hkept : ∀ f : PathExpr, ∀ p, f.resolve.accepts p = f.accepts p ∧
      f.resolve.passesThrough p = f.passesThrough p := by
    intro f p
    simp [accepts, passesThrough]
  refine ⟨fun p => ?_, isResolved_resolve e, resolve_resolve e, hkept e, ?_⟩
  · rw [← allSteps_resolve]
    exact ⟨accepts_iff_fits, passesThrough_iff_fitsPart⟩
  · intro hrelative base p
    rw [(hkept (e.merge base) p).1, accepts_iff_fits, allSteps_resolve, allSteps_merge hrelative]

/-- Of three steps back the first takes off the step before it, the second the path that the
expression is relative to, and the third nothing. -/
theorem accepts_reduced_past_root :
    let e : PathExpr := ⟨[], [.anyKey, .parent, .parent, .parent, .exact (.name "name")], true⟩
    e.relative = true ∧ (e.merge [.name "tags"]).resolve.accepts [.name "name"] = true := by
  intro e
  obtain ⟨-, -, -, -, hmerge⟩ := accepts_reduced e
  refine ⟨rfl, (hmerge rfl [.name "tags"] [.name "name"]).2 ?_⟩
  exact .cons rfl .nil

end PathExpr
end ResourceSchema
