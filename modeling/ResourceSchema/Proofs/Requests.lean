import ResourceSchema.Proofs.Planning.Requests
import ResourceSchema.Proofs.Validation.Visits
import ResourceSchema.Validation

/-!
# What validators and plan modifiers are asked

Every validator and every plan modifier is asked about a path of the attribute or the block that it
belongs to, with the values that the data has there when it is read at that path
(`Data.Invariant.requests_consistent`). Validating goes through the value itself, where an element
of a set may stand behind another one that is equal to it, so that its values are equal to those
that are read.
-/

namespace ResourceSchema

variable {config : Data} {validator : Validator}

/-- The requests that validating a configuration makes of validators: one of each at each visit. -/
def Data.Asks (config : Data) (validator : Validator) (r : ValidateRequest) : Prop :=
  ∃ visit ∈ config.schema.visits config.raw,
    validator ∈ visit.member.behaviour.validators ∧ r = ⟨visit.path, visit.value, config⟩

/-- The request is about a member that has the validator, with what is read at its path. -/
structure ValidateRequest.Consistent (config : Data) (validator : Validator)
    (r : ValidateRequest) : Prop where
  owner : ∃ m, config.schema.LeadsTo r.path m ∧ validator ∈ m.behaviour.validators
  configValue : ∃ w, config.get r.path = .ok w ∧ w.same r.configValue = true
  config : r.config = config

namespace Data

/-- What is visited is what is read at the path of the visit. -/
theorem Invariant.reads_visit (hd : config.Invariant) {visit : Visit}
    (hv : visit ∈ config.schema.visits config.raw) :
    config.schema.nodeAt visit.path = .ok visit.member.node ∧
      ∃ w, config.get visit.path = .ok w ∧ w.same visit.value = true := by
  obtain ⟨places, _, _, hat⟩ := hd.schema.enumerates_visits hd.raw hd.ty
  obtain ⟨q, _, hmember, hvalue, hpath⟩ := Value.forall₂_exists_left hat hv
  obtain ⟨w, hw, hsame⟩ := Value.atPath_pathTo hvalue
  rw [List.nil_append] at hpath
  rw [← hpath] at hmember hw
  exact ⟨hmember, w, get_of_atPath (Except.bind_eq_ok.2 ⟨_, hmember, rfl⟩) hw, hsame⟩

theorem Asks.consistent {r : ValidateRequest} (hd : config.Invariant)
    (h : config.Asks validator r) : r.Consistent config validator := by
  obtain ⟨visit, hvisit, hvalidator, rfl⟩ := h
  obtain ⟨hnode, hread⟩ := hd.reads_visit hvisit
  exact ⟨⟨visit.member, Schema.leadsTo_iff.2 hnode, hvalidator⟩, hread, rfl⟩

/-- Validators that answer the requests of a validation alike find the same. -/
theorem validateWith_congr {answer other : Validator → ValidateRequest → Diagnostics}
    (h : ∀ validator r, config.Asks validator r → other validator r = answer validator r) :
    config.validateWith other = config.validateWith answer := by
  refine congrArg (_ ++ ·) (List.flatMap_congr fun visit hvisit => ?_)
  refine congrArg (_ ++ ·) (List.flatMap_congr fun validator hvalidator => ?_)
  exact h validator _ ⟨visit, hvisit, hvalidator, rfl⟩

/-- Every request that a run makes of a validator or a plan modifier is about a path that leads to
a member that has it, with what the configuration and the state have at the path when they are
read. These are all requests that a run makes: whatever the validators and the modifiers answer, a
run depends on their answers to these only. -/
theorem Invariant.requests_consistent (hconfig : config.Invariant) :
    (∀ validator r, config.Asks validator r → r.Consistent config validator) ∧
      (∀ answer other : Validator → ValidateRequest → Diagnostics,
        (∀ validator r, config.Asks validator r → other validator r = answer validator r) →
          config.validateWith other = config.validateWith answer) ∧
      (∀ custom, config.validate custom = config.validateWith (Validator.check custom)) ∧
      ∀ (answer : PlanModifier → PlanRequest → PlanResponse) (state plan : Data),
        PlanContext.OneSchema ⟨answer, config, state, plan⟩ →
          (∀ modifier r, PlanContext.Asks ⟨answer, config, state, plan⟩ modifier r →
            r.Consistent ⟨answer, config, state, plan⟩ modifier) ∧
          (∀ other : PlanModifier → PlanRequest → PlanResponse,
            (∀ modifier r, PlanContext.Asks ⟨answer, config, state, plan⟩ modifier r →
              other modifier r = answer modifier r) →
            modifyPlanWith other config state plan = modifyPlanWith answer config state plan) ∧
          ∀ custom, modifyPlan custom config state plan =
            modifyPlanWith (PlanModifier.respond custom) config state plan := by
  refine ⟨fun _ _ h => h.consistent hconfig, fun _ _ => validateWith_congr, fun _ => rfl, ?_⟩
  intro answer state plan hc
  exact ⟨fun _ _ h => h.consistent hc, fun _ => modifyPlanWith_of_agrees hc.schema, fun _ => rfl⟩

/-- The default for a note is asked about a null, as the rule with the id that is planned for it is
not configured: a read at the path of the note gives the null as well. -/
theorem Invariant.requests_consistent_twin_rules :
    Ruled.config.Invariant ∧ Ruled.twinsContext.OneSchema ∧
      ∃ r, Ruled.twinsContext.Asks (.default (.string "none")) r ∧
        r.configValue.isNull = true ∧ Ruled.config.get r.path = .ok r.configValue := by
  have hconfig := Ruled.oneSchema_twinsContext.configData
  obtain ⟨_, _, _, hplan⟩ := Invariant.requests_consistent hconfig
  obtain ⟨hasks, _⟩ := hplan _ _ _ Ruled.oneSchema_twinsContext
  obtain ⟨r, hr, hnull⟩ := Ruled.exists_asks_twinsContext
  exact ⟨hconfig, Ruled.oneSchema_twinsContext, r, hr, hnull, (hasks _ r hr).configValue⟩

end Data
end ResourceSchema
