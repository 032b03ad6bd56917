import ResourceSchema.Proofs.Planning.Kept

/-!
# Planning and the configuration

A plan is proposed as the configuration with unknowns for some nulls. Planning looks up what is
configured along the planned values, in a set by the planned element, which the configuration need
not have: what was null in it may be unknown in the plan. A configured primitive stays where the
lookups find the elements that it is in, or no default could take its place
(`Data.keeps_configured`). Otherwise a default may replace it (`Data.overwrites_configured_rule`).
-/

namespace ResourceSchema

variable {c p v x : Value} {s : Slot} {q : List Slot}

/-! ## Configured places -/

/-- No member that a place leads through has a default. -/
def NoDefaults (D : List String → Prop) (q : List Slot) : Prop :=
  ∀ before name after, q = before ++ .field name :: after → ¬D (Slot.names before ++ [name])

/-- For each set element of the plan on a place, the configured set has an element that equals it,
or no member from there on has a default. -/
def Traceable (D : List String → Prop) (c p : Value) (q : List Slot) : Prop :=
  ∀ before i after, q = before ++ .element i :: after →
    (∃ set element found, c.atPlace? before = some set ∧
      p.atPlace? (before ++ [.element i]) = some element ∧
      set.step (.element element) = .ok found) ∨
    NoDefaults (fun names => D (Slot.names before ++ names)) after

theorem NoDefaults.guarded {D : List String → Prop} (h : NoDefaults D q) : Guarded D c p q := by
  induction q generalizing D c p with
  | nil => trivial
  | cons s q ih =>
    intro t v _
    refine ⟨fun name hs hd => absurd hd (h [] name q (by rw [hs]; rfl)), ih ?_⟩
    intro before name after hq
    show ¬D (Slot.names [s] ++ (Slot.names before ++ [name]))
    rw [← List.append_assoc, ← Slot.names_append]
    exact h (s :: before) name after (by rw [hq]; rfl)

namespace Traceable

variable {D : List String → Prop} {d e : Value}

theorem tail (hd : d.inSlot? s = some e) (hp : p.inSlot? s = some v)
    (h : Traceable D d p (s :: q)) :
    Traceable (fun names => D (Slot.names [s] ++ names)) e v q := by
  intro before i after hq
  rcases h (s :: before) i after (by rw [hq]; rfl) with hfound | hnone
  · obtain ⟨set, element, found, hset, helement, hstep⟩ := hfound
    obtain ⟨e', he, hset⟩ := Value.atPlace?_cons_eq_some.1 hset
    obtain ⟨v', hv, helement⟩ := Value.atPlace?_cons_eq_some.1 helement
    obtain rfl : e = e' := Option.some.inj (hd.symm.trans he)
    obtain rfl : v = v' := Option.some.inj (hp.symm.trans hv)
    exact .inl ⟨set, element, found, hset, helement, hstep⟩
  · refine .inr fun mid name rest hafter => ?_
    show ¬D (Slot.names [s] ++ (Slot.names before ++ (Slot.names mid ++ [name])))
    rw [← List.append_assoc, ← Slot.names_cons]
    exact hnone mid name rest hafter

/-- The step to a child of the plan leads in the configuration to what is configured there, or to
what equals the child. -/
theorem exists_step (hd : d.inSlot? s = some e) (hp : p.inSlot? s = some v)
    (hc : c.same d = true ∨ c.same p = true) (h : Traceable D d p (s :: q)) :
    (∃ y, c.step (s.step v) = .ok y ∧ (y.same e = true ∨ y.same v = true)) ∨
      NoDefaults D (s :: q) := by
  have hsame : ∀ {r : Value} {s : PathStep} {u : Value}, c.same r = true → r.step s = .ok u →
      ∃ y, c.step s = .ok y ∧ y.same u = true := by
    intro r s u hr hu
    obtain ⟨y, hy, huy⟩ := Value.step_congr (Value.same_symm hr) s.same_refl hu
    exact ⟨y, hy, Value.same_symm huy⟩
  rcases hc with hc | hc
  swap
  -- The plan has all of its own set elements, so from an equal value every step goes on.
  · obtain ⟨u, hu, huv⟩ := Value.step_of_inSlot? hp
    obtain ⟨y, hy, hyu⟩ := hsame hc hu
    exact .inl ⟨y, hy, .inr (Value.same_trans hyu huv)⟩
  by_cases hs : ∃ i, s = .element i
  · obtain ⟨i, rfl⟩ := hs
    rcases h [] i q rfl with hfound | hnone
    · obtain ⟨set, element, found, hset, helement, hstep⟩ := hfound
      obtain rfl : d = set := Option.some.inj hset
      obtain ⟨v', hv, helement⟩ := Value.atPlace?_cons_eq_some.1 helement
      obtain rfl : v' = element := Option.some.inj helement
      obtain rfl : v = v' := Option.some.inj (hp.symm.trans hv)
      obtain ⟨y, hy, hyf⟩ := hsame hc hstep
      exact .inl ⟨y, hy, .inr (Value.same_trans hyf (Value.same_of_step_element hstep))⟩
    · refine .inr fun before name after hq => ?_
      rcases before with _ | ⟨s, before⟩
      · cases hq
      · obtain ⟨rfl, htail⟩ := List.cons.inj hq
        exact hnone before name after htail
  · have hstep : s.step v = s.step e := by
      cases s <;> first | rfl | exact absurd ⟨_, rfl⟩ hs
    obtain ⟨u, hu, hue⟩ := Value.step_of_inSlot? hd
    obtain ⟨y, hy, hyu⟩ := hsame hc hu
    exact .inl ⟨y, hstep ▸ hy, .inl (Value.same_trans hyu hue)⟩

/-- Planning starts at what is configured at a place and looks up what equals it, or the plan. -/
theorem guarded (hp : d.ProposedAs p) (hx : x.IsKnownPrimitive) (hq : d.atPlace? q = some x)
    (hc : c.same d = true ∨ c.same p = true) (h : Traceable D d p q) : Guarded D c p q := by
  induction q generalizing D c d p with
  | nil => trivial
  | cons s q ih =>
    obtain ⟨e, he, hrest⟩ := Value.atPlace?_cons_eq_some.1 hq
    obtain ⟨v, hv, hev⟩ := hp.inSlot? he
    rcases h.exists_step he hv hc with ⟨y, hy, hsame⟩ | hnone
    swap
    · exact hnone.guarded
    intro t v' hv'
    obtain rfl : v = v' := Option.some.inj (hv.symm.trans hv')
    rw [Value.descend_of_step hy]
    refine ⟨?_, ih hev hrest hsame (h.tail he hv)⟩
    rintro name rfl -
    have hdescend : c.descend (.name name) t = y := Value.descend_of_step hy
    rw [hdescend]
    have hknown : ∀ {u : Value}, u.atPlace? q = some x → u.isNull = false := fun hu =>
      Value.isNull_of_isKnown (Value.isKnown_of_atPlace? hx hu)
    rcases hsame with hsame | hsame
    · rw [Value.isNull_eq_of_same hsame, hknown hrest]
    · rw [Value.isNull_eq_of_same hsame, hknown (hev.atPlace? hx hrest)]

end Traceable

/-- Planning keeps the primitives that are configured, as long as it finds the set elements that
they are in or there is no default to put in their places. -/
theorem Data.keeps_configured {custom : CustomModifiers} {config state plan : Data}
    (hs : plan.schema.Built)
    (hm : ∀ name description, ¬plan.schema.Runs (.custom name description))
    (hwf : plan.raw.WellFormed) (hp : config.raw.ProposedAs plan.raw)
    (hx : x.IsKnownPrimitive) (hq : config.raw.atPlace? q = some x)
    (h : Traceable plan.schema.HasDefault config.raw plan.raw q) :
    (modifyPlan custom config state plan).plan.raw.atPlace? q = some x := by
  have hplan := hp.atPlace? hx hq
  have hguarded := h.guarded hp hx hq (.inl (Value.same_refl config.raw))
  unfold modifyPlan modifyPlanWith
  split
  · exact hplan
  · dsimp only
    split
    · next modified hmodified =>
      obtain ⟨_, _, rfl⟩ := ofValue_eq_ok hmodified
      exact Schema.keeps ⟨custom, rfl⟩ hs.wellFormed hm ⟨hwf, hx, hplan, hguarded⟩
    · exact hplan

/-! ## An example

A set of rules, each with a note that has a default and with an id. -/

namespace Ruled

def text (flags : Flags) (m : PlanModifier) : AttributeDraft :=
  ⟨some .string, none, ⟨flags, .empty, ⟨[], [m]⟩⟩⟩

def note : AttributeDraft := text ⟨false, true, true, false⟩ (.default (.string "none"))

def id : AttributeDraft := text ⟨false, false, true, false⟩ .useStateForUnknown

def rules : AttributeDraft :=
  ⟨none, some (.set, [("note", note.build), ("id", id.build)]),
    ⟨⟨false, true, false, false⟩, .empty, .none⟩⟩

def leaf (d : AttributeDraft) : Attribute := .leaf .string d.traits

def schema : Schema :=
  ⟨1, [("rules", .group .set [("note", leaf note), ("id", leaf id)] rules.traits)], [], .empty⟩

theorem built_text {flags : Flags} {m : PlanModifier} {a : Attribute}
    (h : (text flags m).build = .ok a) : a.Built :=
  .build (d := text flags m) (fun t ht => by cases ht; trivial) (fun _ _ hm => by cases hm) h

/-- Rules with other notes. -/
def rulesWith (note : AttributeDraft) : AttributeDraft :=
  { rules with nested := some (.set, [("note", note.build), ("id", id.build)]) }

/-- The schema with another modifier of the notes. -/
def schemaWith (m : PlanModifier) : Schema :=
  ⟨1, [("rules", .group .set [("note", leaf (text ⟨false, true, true, false⟩ m)), ("id", leaf id)]
    rules.traits)], [], .empty⟩

theorem schemaWith_built (m : PlanModifier) : (schemaWith m).Built := by
  refine ⟨⟨1, [("rules", (rulesWith (text ⟨false, true, true, false⟩ m)).build)], [], .empty⟩,
    fun name a ha => ?_, fun name b hb => (by cases hb), rfl⟩
  simp only [List.mem_singleton, Prod.mk.injEq] at ha
  refine .build (d := rulesWith (text ⟨false, true, true, false⟩ m)) (fun t ht => by cases ht)
    (fun mode members hm name b hb => ?_) ha.2.symm
  cases hm
  simp only [List.mem_cons, Prod.mk.injEq, List.not_mem_nil, or_false] at hb
  rcases hb with ⟨_, hb⟩ | ⟨_, hb⟩ <;> exact built_text hb.symm

theorem schema_built : schema.Built := schemaWith_built _

theorem wellFormed_group {mode : NestingMode} {traits : AttributeTraits} {note id : Attribute}
    (hnote : note.WellFormed) (hid : id.WellFormed) (hf : traits.flags.Valid) :
    (Attribute.group mode [("note", note), ("id", id)] traits).WellFormed := by
  have hnames : MemberNames ["note", "id"] := ⟨by decide, by decide⟩
  refine .group hnames ?_ hf
  simp only [List.forall_mem_cons]
  exact ⟨hnote, hid, by simp⟩

theorem wellFormed_schema {note id : Attribute} {traits : AttributeTraits}
    (hnote : note.WellFormed) (hid : id.WellFormed) (hf : traits.flags.Valid) :
    Schema.WellFormed ⟨1, [("rules", .group .set [("note", note), ("id", id)] traits)], [],
      .empty⟩ := by
  have hnames : MemberNames ["rules"] := ⟨by decide, by decide⟩
  exact ⟨hnames, List.forall_mem_singleton.2 (wellFormed_group hnote hid hf), by simp⟩

theorem runs_leaf {t : Ty} {traits : AttributeTraits} {m : PlanModifier}
    (h : (Attribute.leaf t traits).Runs m) : m ∈ traits.behaviour.modifiers := by
  cases h with | own h => exact h

theorem runs_group {mode : NestingMode} {first second : String} {a b : Attribute}
    {traits : AttributeTraits} {m : PlanModifier}
    (h : (Attribute.group mode [(first, a), (second, b)] traits).Runs m) :
    m ∈ traits.behaviour.modifiers ∨ a.Runs m ∨ b.Runs m := by
  cases h with
  | own h => exact .inl h
  | member he h =>
    simp only [List.mem_cons, List.not_mem_nil, or_false] at he
    rcases he with rfl | rfl
    · exact .inr (.inl h)
    · exact .inr (.inr h)

theorem runs_schema {name : String} {a : Attribute} {m : PlanModifier}
    (h : Schema.Runs ⟨1, [(name, a)], [], .empty⟩ m) : a.Runs m := by
  rcases h with ⟨e, he, h⟩ | ⟨e, he, _⟩
  · rwa [List.mem_singleton.1 he] at h
  · cases he

theorem runs_schemaWith {m modifier : PlanModifier} (h : (schemaWith m).Runs modifier) :
    modifier = m ∨ modifier = .useStateForUnknown := by
  rcases runs_group (runs_schema h) with h | h | h
  · cases h
  · exact .inl (List.mem_singleton.1 (runs_leaf h))
  · exact .inr (List.mem_singleton.1 (runs_leaf h))

theorem not_runs_custom (name description : String) :
    ¬schema.Runs (.custom name description) := fun h => by
  rcases runs_schemaWith h with h | h <;> cases h

def rule (id : Value) (note : String) : Value := .object [("id", id), ("note", .string note)]

def data (role : Role) (items : List Value) : Data :=
  ⟨role, schema, .object [("rules", .set (rule (.null .string) "").ty items)]⟩

/-- Two rules without an id. -/
def config : Data := data .config [rule (.null .string) "a", rule (.null .string) "b"]

/-- The same rules, the second of which will have an id. -/
def plan : Data := data .plan [rule (.null .string) "a", rule (.unknown .string) "b"]

theorem rule_spec {id : Value} (note : String) (hty : id.ty = .string) (hid : id.WellFormed) :
    (rule id note).ty = (rule (.null .string) "").ty ∧ (rule id note).WellFormed := by
  refine ⟨by simp only [rule, Value.ty, Value.fieldTypes, hty], ?_⟩
  show (Value.objectOf [("id", id), ("note", .string note)]).WellFormed
  refine Value.wellFormed_objectOf ?_
  simp only [List.forall_mem_cons]
  exact ⟨hid, trivial, by simp⟩

theorem wellFormed_data (role : Role) {items : List Value}
    (hi : ∀ x ∈ items, x.ty = (rule (.null .string) "").ty ∧ x.WellFormed)
    (hd : items.Pairwise Value.Apart) : (data role items).raw.WellFormed := by
  have hnull : (rule (.null .string) "").ty = _ ∧ (rule (.null .string) "").WellFormed :=
    rule_spec "" rfl trivial
  show (Value.objectOf [("rules", .set (rule (.null .string) "").ty items)]).WellFormed
  exact Value.wellFormed_objectOf (by simpa using Value.wellFormed_set_iff.2 ⟨hnull.2.ty, hi, hd⟩)

theorem wellFormed_plan : plan.raw.WellFormed := by
  refine wellFormed_data .plan ?_ (List.pairwise_pair.2 fun _ => by decide +kernel)
  simp only [List.forall_mem_cons]
  exact ⟨rule_spec "a" rfl trivial, rule_spec "b" rfl trivial, by simp⟩

/-- An id that is not there yet is proposed. -/
theorem proposedAs_rule (note : String) :
    (rule (.null .string) note).ProposedAs (rule (.unknown .string) note) := by
  refine .object rfl fun name v w hv hw => ?_
  have hname := Keyed.mem_keys_of_mem (Keyed.mem_of_lookup hv)
  simp only [Keyed.keys_cons, Keyed.keys_nil, List.mem_cons, List.not_mem_nil, or_false] at hname
  rcases hname with rfl | rfl
  · cases hv
    cases hw
    exact .unknown .string
  · cases hv
    cases hw
    exact .same _

theorem proposedAs_plan : config.raw.ProposedAs plan.raw := by
  refine .object rfl fun name v w hv hw => ?_
  have hname := Keyed.mem_keys_of_mem (Keyed.mem_of_lookup hv)
  obtain rfl : name = "rules" := List.mem_singleton.1 hname
  cases hv
  cases hw
  refine .set rfl fun i v w hv hw => ?_
  rcases i with _ | _ | i
  · cases hv
    cases hw
    exact .same _
  · cases hv
    cases hw
    exact proposedAs_rule "b"
  · cases hv

def outcome : PlanOutcome :=
  Data.modifyPlan (fun _ r => .keep r.planValue) config (.absent .state schema) plan

/-- The place of the note of a rule. -/
def noteAt (i : Nat) : List Slot := [.field "rules", .element i, .field "note"]

theorem traceable_noteAt_zero : Traceable schema.HasDefault config.raw plan.raw (noteAt 0) := by
  intro before i after hq
  rcases before with _ | ⟨s, _ | ⟨s', _ | ⟨s'', before⟩⟩⟩
  · cases hq
  · cases hq
    obtain ⟨found, hfound, _⟩ := Value.step_of_inSlot? (s := .element 0)
      (v := .set (rule (.null .string) "").ty [rule (.null .string) "a", rule (.null .string) "b"])
      rfl
    exact .inl ⟨_, _, found, rfl, rfl, hfound⟩
  · cases hq
  · simp [noteAt] at hq

end Ruled

/-- The note of a rule that is planned as it is configured stays. -/
theorem Data.keeps_configured_rule :
    Ruled.config.raw.ProposedAs Ruled.plan.raw ∧
      Ruled.config.raw.atPlace? (Ruled.noteAt 0) = some (.string "a") ∧
      Ruled.outcome.plan.raw.atPlace? (Ruled.noteAt 0) = some (.string "a") :=
  ⟨Ruled.proposedAs_plan, rfl, keeps_configured Ruled.schema_built Ruled.not_runs_custom
    Ruled.wellFormed_plan Ruled.proposedAs_plan ⟨rfl, rfl⟩ rfl Ruled.traceable_noteAt_zero⟩

/-- The note of a rule that is planned with an id gives way to the default. -/
theorem Data.overwrites_configured_rule :
    Ruled.schema.Built ∧
      (∀ name description, ¬Ruled.schema.Runs (.custom name description)) ∧
      Data.ofValue .config Ruled.schema Ruled.config.raw = .ok Ruled.config ∧
      Data.ofValue .plan Ruled.schema Ruled.plan.raw = .ok Ruled.plan ∧
      Ruled.plan.raw.WellFormed ∧ Ruled.config.raw.ProposedAs Ruled.plan.raw ∧
      Ruled.config.raw.atPlace? (Ruled.noteAt 1) = some (.string "b") ∧
      ∃ v, Ruled.outcome.plan.raw.atPlace? (Ruled.noteAt 1) = some v ∧
        v.same (.string "none") = true := by
  refine ⟨Ruled.schema_built, Ruled.not_runs_custom, rfl, rfl, Ruled.wellFormed_plan,
    Ruled.proposedAs_plan, rfl, (Option.any_eq_true _ _).1 ?_⟩
  decide +kernel

end ResourceSchema
