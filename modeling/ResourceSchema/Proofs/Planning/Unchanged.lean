import ResourceSchema.Proofs.Data.Reads
import ResourceSchema.Proofs.Planning.Configured
import ResourceSchema.Proofs.Planning.Inert

/-!
# Plans that change nothing

Replacing on a change and keeping the state have nothing to do at a value that equals the one of the
state. From a plan that equals the state all lookups on the way find equal values, in sets whatever
the order of the elements, so that the plan stays as a whole (`Data.modifyPlan_of_same`).
-/

namespace ResourceSchema

variable {context : PlanContext} {path : Path} {nodes : PlanNodes} {v w : Value} {t : Ty}
  {attributes : List (String × Attribute)} {blocks : List (String × Block)}

/-! ## Modifiers at a value that the state has -/

/-- The unknown that stands for an equal value of the state is that value. -/
theorem Value.eq_of_same_unknown (h : v.same w = true) (hv : v.isUnknown = true) : w = v := by
  cases v <;> cases hv
  cases w <;> simp only [same, Bool.false_eq_true, beq_iff_eq] at h
  rw [h]

theorem PlanModifier.respond_of_same {custom : CustomModifiers} {m : PlanModifier}
    {r : PlanRequest} (hm : m = .requiresReplace ∨ m = .useStateForUnknown)
    (h : r.planValue.same r.stateValue = true) : m.respond custom r = .keep r.planValue := by
  rcases hm with rfl | rfl
  · rw [respond, h, Bool.not_true, Bool.and_false]
    rfl
  · rw [respond]
    split
    · rfl
    · next hkept =>
      have hunknown : r.planValue.isUnknown = true := by
        simp only [Bool.or_eq_true, not_or] at hkept
        simpa using hkept.1.2
      rw [Value.eq_of_same_unknown h hunknown]

/-! ## Positions where plan and state are equal -/

/-- A well-formed planned value that equals the value of the state. -/
structure PlanNodes.Unchanged (nodes : PlanNodes) : Prop where
  plan : nodes.plan.WellFormed
  same : nodes.plan.same nodes.state = true

/-- A step to a child finds an equal value in the state: in a set one that equals the element. -/
theorem PlanNodes.Unchanged.child {s : Slot} (h : nodes.Unchanged)
    (hv : nodes.plan.inSlot? s = some v) :
    PlanNodes.Unchanged { nodes.descend (s.step v) t with plan := v } := by
  obtain ⟨u, hu, huv⟩ := Value.step_of_inSlot? hv
  obtain ⟨x, hx, hux⟩ := Value.step_congr h.same (PathStep.same_refl _) hu
  refine ⟨h.plan.inSlot? hv, ?_⟩
  show v.same (nodes.state.descend (s.step v) t) = true
  rw [Value.descend_of_step hx]
  exact Value.same_trans (Value.same_symm huv) hux

/-- Replacing on a change and keeping the state leave what equals the state. -/
theorem inert_unchanged (hcontext : context.Standard) :
    Inert context (fun m => m = .requiresReplace ∨ m = .useStateForUnknown)
      PlanNodes.Unchanged where
  wellFormed h := h.plan
  child _ h hv := h.child hv
  modifiers h hm := by
    obtain ⟨custom, hanswer⟩ := hcontext
    refine runModifiers_of_keep fun m hmem => ?_
    rw [hanswer]
    exact PlanModifier.respond_of_same (hm m hmem) h.same

/-- A plan that equals the state comes out as it is, with nothing to replace and no diagnostics,
when all modifiers replace on a change or keep the state. -/
theorem Data.modifyPlan_of_same {custom : CustomModifiers} {config state plan : Data}
    (hplan : plan.Invariant) (hrole : plan.role = .plan)
    (hruns : ∀ modifier, plan.schema.Runs modifier →
      modifier = .requiresReplace ∨ modifier = .useStateForUnknown)
    (h : plan.raw.same state.raw = true) :
    modifyPlan custom config state plan = ⟨plan, [], []⟩ :=
  modifyPlanWith_of_pure hplan.ty hrole
    ((inert_unchanged ⟨custom, rfl⟩).planResource hplan.schema hruns ⟨hplan.raw, h⟩ hplan.ty)

/-! ## An example

Two rules that the state has in the other order. -/

namespace Reordered

def note : AttributeDraft := Ruled.text ⟨false, true, false, false⟩ .requiresReplace

def rules : AttributeTraits :=
  ⟨⟨false, true, true, false⟩, .empty, ⟨[], [.useStateForUnknown, .requiresReplace]⟩⟩

def schema : Schema :=
  ⟨1, [("rules", .group .set [("note", Ruled.leaf note), ("id", Ruled.leaf Ruled.id)] rules)], [],
    .empty⟩

def data (role : Role) (items : List Value) : Data :=
  { Ruled.data role items with schema := schema }

def first : Value := Ruled.rule (.string "1") "a"

def second : Value := Ruled.rule (.string "2") "b"

theorem schema_wellFormed : schema.WellFormed :=
  Ruled.wellFormed_schema (.leaf trivial ⟨rfl, rfl⟩) (.leaf trivial ⟨rfl, rfl⟩) ⟨rfl, rfl⟩

theorem runs {modifier : PlanModifier} (h : schema.Runs modifier) :
    modifier = .requiresReplace ∨ modifier = .useStateForUnknown := by
  rcases Ruled.runs_group (Ruled.runs_schema h) with h | h | h
  · rcases List.mem_cons.1 h with rfl | h
    · exact .inr rfl
    · exact .inl (List.mem_singleton.1 h)
  · exact .inl (List.mem_singleton.1 (Ruled.runs_leaf h))
  · exact .inr (List.mem_singleton.1 (Ruled.runs_leaf h))

theorem invariant_plan : (data .plan [second, first]).Invariant := by
  refine ⟨schema_wellFormed, rfl, Ruled.wellFormed_data .plan ?_ ?_⟩
  · simp only [List.forall_mem_cons]
    exact ⟨Ruled.rule_spec "b" rfl trivial, Ruled.rule_spec "a" rfl trivial, by simp⟩
  · exact List.pairwise_pair.2 fun _ => by decide +kernel

end Reordered

/-- Neither the set nor a note in it is seen as changed. -/
theorem Data.modifyPlan_of_same_reordered :
    let config := Reordered.data .config []
    let state := Reordered.data .state [Reordered.first, Reordered.second]
    let plan := Reordered.data .plan [Reordered.second, Reordered.first]
    plan.Invariant ∧ plan.raw.same state.raw = true ∧
      modifyPlan (fun _ r => .keep r.planValue) config state plan = ⟨plan, [], []⟩ := by
  have hsame : (Reordered.data .plan [Reordered.second, Reordered.first]).raw.same
      (Reordered.data .state [Reordered.first, Reordered.second]).raw = true := by decide +kernel
  exact ⟨Reordered.invariant_plan, hsame,
    modifyPlan_of_same Reordered.invariant_plan rfl (fun _ => Reordered.runs) hsame⟩

end ResourceSchema
