import ResourceSchema.Proofs.Path.Expr
import ResourceSchema.Proofs.Schema.Kind

/-!
# Types of path expressions

The type of an expression is found by taking one step for each wildcard. As nodes take steps by
their kind, that step leads where each step leads that fits the wildcard, and so the expression has
a type exactly if a path that it accepts has one (`Schema.typeAtExpr_spec`). The other paths that it
accepts have no type at all: they have a negative index, or a step of another kind than the others,
where the expression has a wildcard.
-/

namespace ResourceSchema

/-- All steps of some kinds fit. -/
def ExprStep.IsWildcard : ExprStep → Prop
  | .anyIndex | .anyKey | .anyElement | .anyChild => True
  | .exact _ | .parent => False

variable {t : Ty} {s : PathStep} {p : Path} {x : ExprStep} {steps : List ExprStep}

theorem ExprStep.kind_ne_name (h : ExprStep.anyChild.fits s = true) : s.kind ≠ .name := by
  cases s <;> cases h <;> exact nofun

/-- No index at the place of a wildcard is negative. -/
def PathExpr.NonnegAtWildcards (steps : List ExprStep) (p : Path) : Prop :=
  ∀ (n : Nat) (x : ExprStep) (i : Int), steps[n]? = some x → x.IsWildcard →
    p[n]? = some (.index i) → 0 ≤ i

namespace SchemaNode

variable {node next : SchemaNode} {consumed consumed' : Path}

/-- At the place of a wildcard for any child, the step is of the kind that the node before it
takes. -/
def TakesChildren (node : SchemaNode) (steps : List ExprStep) (p : Path) : Prop :=
  ∀ (n : Nat) (s : PathStep) (mid : SchemaNode), steps[n]? = some .anyChild → p[n]? = some s →
    resolveFrom [] node (p.take n) = .ok mid → mid.stepKind? = some s.kind

/-! ## One step -/

theorem kind_representative {k : StepKind} (hk : k ≠ .name) :
    (Schema.representative node k).kind = k := by
  cases k <;> first | rfl | exact absurd rfl hk

theorem nonneg_representative {k : StepKind} {i : Int}
    (h : Schema.representative node k = .index i) : 0 ≤ i := by
  cases k <;> cases h <;> exact Int.le_refl 0

/-- The step that stands for a step of an expression fits it. -/
theorem fits_concrete (node : SchemaNode) (hx : x ≠ .parent) :
    x.fits (Schema.concrete node x) = true := by
  cases x with
  | exact s => exact s.same_refl
  | anyIndex => rfl
  | anyKey => rfl
  | anyElement => rfl
  | anyChild =>
    rw [Schema.concrete]
    cases node.stepKind?.getD .index <;> rfl
  | parent => exact absurd rfl hx

/-- If a step that fits is taken, so is the one that stands for all that fit. -/
theorem step_concrete (hfits : x.fits s = true) (h : node.step s = .ok next) :
    node.step (Schema.concrete node x) = .ok next := by
  have hstands : s.kind ≠ .name →
      node.step (Schema.representative node s.kind) = .ok next := by
    intro hname
    exact step_of_kind h (kind_representative hname) hname fun _ => nonneg_representative
  cases x with
  | exact expected => exact step_alike (PathStep.Alike.of_same hfits).symm h
  | anyIndex => cases s <;> cases hfits; exact hstands nofun
  | anyKey => cases s <;> cases hfits; exact hstands nofun
  | anyElement => cases s <;> cases hfits; exact hstands nofun
  | anyChild =>
    have hname := ExprStep.kind_ne_name hfits
    rw [Schema.concrete, ((step_eq_ok_iff hname).1 h).1]
    exact hstands hname
  | parent => cases hfits

/-- If the step that stands for all that fit is taken, so is a step that fits and suits. -/
theorem step_of_concrete (hfits : x.fits s = true)
    (h : node.step (Schema.concrete node x) = .ok next)
    (hnonneg : x.IsWildcard → ∀ i, s = .index i → 0 ≤ i)
    (hkind : x = .anyChild → node.stepKind? = some s.kind) : node.step s = .ok next := by
  cases x with
  | exact expected => exact step_alike (PathStep.Alike.of_same hfits) h
  | anyIndex => cases s <;> cases hfits; exact step_of_kind h rfl nofun (hnonneg trivial)
  | anyKey => cases s <;> cases hfits; exact step_of_kind h rfl nofun nofun
  | anyElement => cases s <;> cases hfits; exact step_of_kind h rfl nofun nofun
  | anyChild =>
    have hname := ExprStep.kind_ne_name hfits
    have hk : (Schema.representative node s.kind).kind = s.kind := kind_representative hname
    rw [Schema.concrete, hkind rfl] at h
    exact step_of_kind h hk.symm (fun hrep => hname (hk.symm.trans hrep)) (hnonneg trivial)
  | parent => cases hfits

/-! ## Whole expressions -/

/-- A path that fits the steps of an expression leads to the type that they lead to. -/
theorem typeAtSteps_of_fits (hfits : PathExpr.Fits steps p)
    (hp : resolveFrom consumed node p = .ok next) :
    Schema.typeAtSteps consumed' node steps = .ok next.ty := by
  induction hfits generalizing node consumed consumed' with
  | nil =>
    cases hp
    rfl
  | cons hx _ ih =>
    obtain ⟨child, hchild, hp⟩ := resolveFrom_cons_eq_ok.1 hp
    rw [Schema.typeAtSteps, step_concrete hx hchild]
    exact ih hp

/-- The steps that stand for the steps of an expression are a path that fits. -/
theorem exists_fits_of_typeAtSteps (hsteps : .parent ∉ steps)
    (ht : Schema.typeAtSteps consumed node steps = .ok t) :
    ∃ p next, PathExpr.Fits steps p ∧ resolveFrom [] node p = .ok next ∧ next.ty = t := by
  induction steps generalizing node consumed with
  | nil =>
    cases ht
    exact ⟨[], node, .nil, rfl, rfl⟩
  | cons x steps ih =>
    obtain ⟨hx, hsteps⟩ := List.ne_and_not_mem_of_not_mem_cons hsteps
    rw [Schema.typeAtSteps] at ht
    split at ht
    · next child hchild =>
      obtain ⟨p, next, hfits, hp, hty⟩ := ih hsteps ht
      exact ⟨_, next, .cons (fits_concrete node hx.symm) hfits,
        resolveFrom_cons_eq_ok.2 ⟨child, hchild, hp⟩, hty⟩
    · cases ht

theorem TakesChildren.tail (h : node.TakesChildren (x :: steps) (s :: p))
    (hs : node.step s = .ok next) : next.TakesChildren steps p := by
  intro n s' mid hx hs' hmid
  exact h (n + 1) s' mid hx hs' (resolveFrom_cons_eq_ok.2 ⟨next, hs, hmid⟩)

theorem exists_of_typeAtSteps (hfits : PathExpr.Fits steps p)
    (ht : Schema.typeAtSteps consumed node steps = .ok t)
    (hnonneg : PathExpr.NonnegAtWildcards steps p) (hkinds : node.TakesChildren steps p) :
    ∃ next, resolveFrom [] node p = .ok next ∧ next.ty = t := by
  induction hfits generalizing node consumed with
  | nil =>
    cases ht
    exact ⟨node, rfl, rfl⟩
  | @cons x s steps p hx hfits ih =>
    rw [Schema.typeAtSteps] at ht
    split at ht
    · next child hchild =>
      have hs : node.step s = .ok child := by
        refine step_of_concrete hx hchild (fun hwild i hi => ?_) fun hany => ?_
        · exact hnonneg 0 x i rfl hwild (congrArg some hi)
        · exact hkinds 0 s node (congrArg some hany) rfl rfl
      obtain ⟨next, hp, hty⟩ := ih ht (fun n => hnonneg (n + 1)) (hkinds.tail hs)
      exact ⟨next, resolveFrom_cons_eq_ok.2 ⟨child, hs, hp⟩, hty⟩
    · cases ht

/-- Each step of a path that resolves is taken by the node before it. -/
theorem exists_step_of_resolveFrom {n : Nat} (hp : resolveFrom [] node p = .ok next)
    (hs : p[n]? = some s) :
    ∃ mid child, resolveFrom [] node (p.take n) = .ok mid ∧ mid.step s = .ok child := by
  obtain ⟨hn, rfl⟩ := List.getElem?_eq_some_iff.1 hs
  have hsplit : p.take n ++ p[n] :: p.drop (n + 1) = p := by
    rw [← List.drop_eq_getElem_cons hn, List.take_append_drop]
  rw [← hsplit] at hp
  obtain ⟨mid, hmid, hrest⟩ := resolveFrom_append_eq_ok.1 hp
  obtain ⟨child, hchild, -⟩ := resolveFrom_cons_eq_ok.1 hrest
  exact ⟨mid, child, hmid, hchild⟩

theorem nonnegAtWildcards_of_resolveFrom (hp : resolveFrom [] node p = .ok next) :
    PathExpr.NonnegAtWildcards steps p := by
  intro n x i _ _ hi
  obtain ⟨mid, child, -, hchild⟩ := exists_step_of_resolveFrom hp hi
  exact ((step_eq_ok_iff (s := .index i) nofun).1 hchild).2.1 i rfl

theorem takesChildren_of_resolveFrom (hfits : PathExpr.Fits steps p)
    (hp : resolveFrom [] node p = .ok next) : node.TakesChildren steps p := by
  intro n s mid hx hs hmid
  obtain ⟨mid', child, hmid', hchild⟩ := exists_step_of_resolveFrom hp hs
  obtain rfl := Except.ok.inj (hmid.symm.trans hmid')
  have hname := ExprStep.kind_ne_name (hfits.fits hx hs)
  exact ((step_eq_ok_iff hname).1 hchild).1

end SchemaNode

/-- The labels of the disks of a server, however they are collected. -/
def Server.labels : PathExpr :=
  ⟨[], [.exact (.name "disks"), .anyChild, .exact (.name "label")], false⟩

namespace Schema

variable {schema : Schema}

theorem typeAt_eq_ok_iff_exists : schema.typeAt p = .ok t ↔
    ∃ node, SchemaNode.resolveFrom [] (.root schema) p = .ok node ∧ node.ty = t := by
  refine Except.bind_eq_ok.trans (exists_congr fun node => and_congr_right fun _ => ?_)
  exact ⟨fun h => Except.ok.inj h, fun h => congrArg Except.ok h⟩

theorem typeAtExpr_eq (schema : Schema) (e : PathExpr) :
    schema.typeAtExpr e = typeAtSteps [] (.root schema) e.resolve.allSteps :=
  congrArg (typeAtSteps [] (.root schema)) (PathExpr.allSteps_atRoot e)

/-- An expression has a type exactly if one of the paths that it accepts has that type. Then all
paths that it accepts have the type, except for those with a negative index at a wildcard or with a
step that is not of the kind of the others at a wildcard for any child. -/
theorem typeAtExpr_spec (schema : Schema) (e : PathExpr) (t : Ty) :
    (schema.typeAtExpr e = .ok t ↔ ∃ p, e.accepts p = true ∧ schema.typeAt p = .ok t) ∧
      (schema.typeAtExpr e = .ok t → ∀ p, e.accepts p = true →
        (schema.typeAt p = .ok t ↔ PathExpr.NonnegAtWildcards e.resolve.allSteps p ∧
          (SchemaNode.root schema).TakesChildren e.resolve.allSteps p)) := by
  simp only [typeAtExpr_eq, PathExpr.accepts_iff_fits, typeAt_eq_ok_iff_exists]
  refine ⟨⟨fun h => ?_, ?_⟩, fun h p hfits => ⟨?_, ?_⟩⟩
  · obtain ⟨p, next, hfits, hp, hty⟩ :=
      SchemaNode.exists_fits_of_typeAtSteps (PathExpr.parent_not_mem_allSteps e) h
    exact ⟨p, hfits, next, hp, hty⟩
  · rintro ⟨p, hfits, next, hp, rfl⟩
    exact SchemaNode.typeAtSteps_of_fits hfits hp
  · rintro ⟨next, hp, -⟩
    exact ⟨SchemaNode.nonnegAtWildcards_of_resolveFrom hp,
      SchemaNode.takesChildren_of_resolveFrom hfits hp⟩
  · rintro ⟨hnonneg, hkinds⟩
    exact SchemaNode.exists_of_typeAtSteps hfits h hnonneg hkinds

/-- The eighth disk of a server has a label of the type that all labels have. -/
theorem typeAtExpr_spec_disk_label :
    let p : Path := [.name "disks", .index 7, .name "label"]
    Server.schema.typeAtExpr Server.labels = .ok .string ∧ Server.labels.accepts p = true ∧
      Server.schema.typeAt p = .ok .string := by
  intro p
  refine ⟨rfl, rfl, ((typeAtExpr_spec Server.schema Server.labels .string).2 rfl p rfl).2 ⟨?_, ?_⟩⟩
  · intro n x i _ _ hi
    have hmem : PathStep.index i ∈ p := List.mem_of_getElem? hi
    obtain rfl : i = 7 := by simpa [p] using hmem
    decide
  · intro n s mid hx hs hmid
    match n with
    | 0 => cases hx
    | 1 =>
      cases hs
      cases hmid
      rfl
    | 2 => cases hx
    | n + 3 => cases hx

/-- A path of a key for a disk fits as well, without any index, but disks are in a list. -/
theorem typeAtExpr_disk_key :
    let p : Path := [.name "disks", .key "a", .name "label"]
    Server.schema.Built ∧ Server.schema.typeAtExpr Server.labels = .ok .string ∧
      Server.labels.accepts p = true ∧
      PathExpr.NonnegAtWildcards Server.labels.resolve.allSteps p ∧
      Server.schema.typeAt p ≠ .ok .string := by
  intro p
  refine ⟨Server.schema_built, rfl, rfl, fun n x i _ _ hi => ?_, fun h => ?_⟩
  · have hmem : PathStep.index i ∈ p := List.mem_of_getElem? hi
    simp [p] at hmem
  · cases h

end Schema
end ResourceSchema
