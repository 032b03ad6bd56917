import ResourceSchema.Proofs.Path.Expr
import ResourceSchema.Proofs.Value.Position

/-!
# Walks that an expression prunes

Each step of a resolved expression is fitted by some step of a path, an exact one by itself, so
that a path which fits a part of the steps can be led on to one that fits them all. So an
expression passes through exactly what is above the paths that it accepts, and a walk that turns
back where it does not pass through misses nothing (`PathExpr.passesThrough_spec`).
-/

namespace ResourceSchema

/-- A path is above another one if the other one starts with equal steps and goes on. -/
theorem Path.isAncestorOf_iff {p q : Path} : p.isAncestorOf q = true ↔
    ∃ above s rest, q = above ++ s :: rest ∧ Path.same p above = true := by
  simp only [isAncestorOf, isInitialOf, Bool.and_eq_true, decide_eq_true_eq]
  constructor
  · rintro ⟨hlt, -, hsame⟩
    refine ⟨q.take p.length, q[p.length], q.drop (p.length + 1), ?_, hsame⟩
    rw [← List.drop_eq_getElem_cons hlt, List.take_append_drop]
  · rintro ⟨above, s, rest, rfl, hsame⟩
    have hlength := length_eq_of_same hsame
    rw [hlength, List.take_left, List.length_append, List.length_cons]
    exact ⟨by omega, by omega, hsame⟩

theorem ExprStep.exists_fits {x : ExprStep} (hx : x ≠ .parent) :
    ∃ s : PathStep, x.fits s = true := by
  cases x with
  | exact s => exact ⟨s, s.same_refl⟩
  | anyIndex => exact ⟨.index 0, rfl⟩
  | anyKey => exact ⟨.key "", rfl⟩
  | anyElement => exact ⟨.element (.null .string), rfl⟩
  | anyChild => exact ⟨.index 0, rfl⟩
  | parent => exact absurd rfl hx

namespace PathExpr

variable {e : PathExpr} {steps : List ExprStep} {p path : Path} {v : Value}

/-- Steps among which none leads back are those of some path. -/
theorem exists_fits (h : .parent ∉ steps) : ∃ p, Fits steps p := by
  induction steps with
  | nil => exact ⟨[], .nil⟩
  | cons x steps ih =>
    obtain ⟨hx, hsteps⟩ := List.ne_and_not_mem_of_not_mem_cons h
    obtain ⟨s, hs⟩ := ExprStep.exists_fits (Ne.symm hx)
    obtain ⟨p, hp⟩ := ih hsteps
    exact ⟨s :: p, .cons hs hp⟩

/-- What an expression passes through is what it accepts without some steps at the end. -/
theorem passesThrough_iff_exists_accepts :
    e.passesThrough p = true ↔ ∃ s rest, e.accepts (p ++ s :: rest) = true := by
  constructor
  · intro h
    obtain ⟨first, last, hsplit, hlast, hfirst⟩ := passesThrough_iff_fitsPart.1 h
    have hparent : .parent ∉ last := fun hmem =>
      parent_not_mem_allSteps e (hsplit ▸ List.mem_append_right first hmem)
    obtain ⟨r, hr⟩ := exists_fits hparent
    have haccepts : e.accepts (p ++ r) = true := by
      rw [accepts_iff_fits, hsplit]
      exact List.rel_append hfirst hr
    -- As many steps are left as the expression has after the part that fits, so at least one.
    cases hr with
    | nil => exact absurd rfl hlast
    | cons _ _ => exact ⟨_, _, haccepts⟩
  · rintro ⟨s, rest, h⟩
    exact passesThrough_of_append (List.cons_ne_nil s rest) (.inl h)

theorem passesThrough_iff_isAncestorOf :
    e.passesThrough p = true ↔ ∃ q, p.isAncestorOf q = true ∧ e.accepts q = true := by
  constructor
  · intro h
    obtain ⟨s, rest, haccepts⟩ := passesThrough_iff_exists_accepts.1 h
    exact ⟨_, Path.isAncestorOf_iff.2 ⟨p, s, rest, rfl, Path.same_refl p⟩, haccepts⟩
  · rintro ⟨q, hq, haccepts⟩
    obtain ⟨above, s, rest, rfl, hsame⟩ := Path.isAncestorOf_iff.1 hq
    exact passesThrough_congr (Path.same_symm hsame)
      (passesThrough_iff_exists_accepts.2 ⟨s, rest, haccepts⟩)

/-! ## Walks -/

theorem exists_append_of_mem_walkFrom {descend : Path → Value → Bool} {n : Path × Value}
    (h : n ∈ Value.walkFrom descend path v) : ∃ r, n.1 = path ++ r := by
  induction v using Value.induct_parts generalizing path with
  | h v ih =>
    rw [Value.walkFrom_eq, List.mem_cons] at h
    rcases h with rfl | h
    · exact ⟨[], (List.append_nil path).symm⟩
    · split at h
      · obtain ⟨c, hc, hn⟩ := List.mem_flatMap.1 h
        obtain ⟨r, hr⟩ := ih c hc hn
        exact ⟨c.1.step c.2 :: r, by rw [hr, List.append_assoc, List.singleton_append]⟩
      · cases h

/-- A walk that turns back where an expression does not pass through finds all that the expression
accepts, in the same order. -/
theorem filter_walkFrom (e : PathExpr) (v : Value) (path : Path) :
    (v.walkFrom (fun p _ => e.passesThrough p) path).filter (fun n => e.accepts n.1) =
      (v.walkFrom (fun _ _ => true) path).filter fun n => e.accepts n.1 := by
  induction v using Value.induct_parts generalizing path with
  | h v ih =>
    have hbelow : (if e.passesThrough path = true then v.parts.flatMap fun c =>
          c.2.walkFrom (fun p _ => e.passesThrough p) (path ++ [c.1.step c.2]) else []).filter
            (fun n => e.accepts n.1) =
        (v.parts.flatMap fun c => c.2.walkFrom (fun _ _ => true) (path ++ [c.1.step c.2])).filter
          fun n => e.accepts n.1 := by
      by_cases hpasses : e.passesThrough path = true
      · rw [if_pos hpasses, List.filter_flatMap, List.filter_flatMap]
        exact List.flatMap_congr fun c hc => ih c hc _
      · rw [if_neg hpasses, List.filter_nil]
        symm
        rw [List.filter_eq_nil_iff]
        intro n hn haccepts
        obtain ⟨c, -, hn⟩ := List.mem_flatMap.1 hn
        obtain ⟨r, hr⟩ := exists_append_of_mem_walkFrom hn
        rw [hr, List.append_assoc, List.singleton_append] at haccepts
        exact hpasses (passesThrough_iff_exists_accepts.2 ⟨_, r, haccepts⟩)
    rw [Value.walkFrom_eq, Value.walkFrom_eq (fun _ _ => true), if_pos rfl, List.filter_cons,
      List.filter_cons, hbelow]

/-- An expression passes through the paths above those that it accepts and through no others,
whether paths are compared step by step or one is put together from the other. A walk that turns
back where the expression does not pass through loses nothing that it accepts. -/
theorem passesThrough_spec (e : PathExpr) :
    (∀ p, e.passesThrough p = true ↔ ∃ q, p.isAncestorOf q = true ∧ e.accepts q = true) ∧
      (∀ p, e.passesThrough p = true ↔ ∃ s rest, e.accepts (p ++ s :: rest) = true) ∧
      ∀ v : Value, (v.walk fun p _ => e.passesThrough p).filter (fun n => e.accepts n.1) =
        (v.walk fun _ _ => true).filter fun n => e.accepts n.1 :=
  ⟨fun _ => passesThrough_iff_isAncestorOf, fun _ => passesThrough_iff_exists_accepts,
    fun v => filter_walkFrom e v []⟩

end PathExpr
end ResourceSchema
