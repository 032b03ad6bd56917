import ResourceSchema.Proofs.Planning.Inert
import ResourceSchema.Proofs.Planning.Places

/-!
# Where no modifier is

The modifiers of a node and of what is nested in it are those of the attributes and blocks that
paths from it lead to (`SchemaNode.WellFormed.runs_iff`). A position without modifiers on the way to
it, at it and below it has in the plan that comes out what it had before, down to the order of set
elements, whatever the modifiers do beside it (`Data.modifyPlan_untouched`): what planning takes
apart on the way it puts back in the same places, and at the position it finds nothing to do.
-/

namespace ResourceSchema

variable {context : PlanContext} {q : Path} {m : Member} {s : PathStep} {x : Value}
  {modifier : PlanModifier} {attributes : List (String × Attribute)}
  {blocks : List (String × Block)}

/-! ## Modifiers below a node -/

namespace SchemaNode

variable {node next : SchemaNode}

/-- The plan modifiers of a node and of what is nested in it. -/
def Runs (node : SchemaNode) (modifier : PlanModifier) : Prop :=
  (∃ m : Member, node = m.node ∧ modifier ∈ m.behaviour.modifiers) ∨
    ∃ e ∈ node.members, e.2.Runs modifier

theorem runs_node (hm : m.WellFormed) : m.node.Runs modifier ↔ m.Runs modifier := by
  constructor
  · rintro (⟨n, hn, h⟩ | ⟨e, he, h⟩)
    · obtain rfl : m = n := by cases m <;> cases n <;> cases hn <;> rfl
      exact Member.runs_own h
    · rcases hm.leaf_or_collects with ⟨t, traits, rfl⟩ | ⟨mode, element, attributes, blocks, hm⟩
      · cases he
      · exact hm.runs e (hm.members ▸ he) h
  · have hattr : ∀ {attributes : List (String × Attribute)} {blocks : List (String × Block)}
        {e : String × Attribute}, e ∈ attributes →
          (e.1, Member.attr e.2) ∈ levelMembers attributes blocks :=
      fun he => List.mem_append_left _ (List.mem_map_of_mem he)
    intro h
    cases m with
    | attr a =>
      cases h with
      | own h => exact .inl ⟨.attr a, rfl, h⟩
      | member he h => exact .inr ⟨_, hattr he, h⟩
    | block b =>
      cases h with
      | own h => exact .inl ⟨.block b, rfl, h⟩
      | attr he h => exact .inr ⟨_, hattr he, h⟩
      | block he h => exact .inr ⟨_, List.mem_append_right _ (List.mem_map_of_mem he), h⟩

/-- What a step leads to from a well-formed node. -/
theorem WellFormed.step_cases (hw : node.WellFormed) (h : node.step s = .ok next) :
    (∃ e ∈ node.members, next = e.2.node) ∨
      next.members = node.members ∧ (∀ m : Member, next ≠ m.node) ∨ ∃ t, next = .type t := by
  have hlevel : ∀ {attributes : List (String × Attribute)} {blocks : List (String × Block)},
      member attributes blocks s = .ok next →
        ∃ e ∈ levelMembers attributes blocks, next = e.2.node := by
    intro attributes blocks h
    obtain ⟨name, m, -, hl, rfl⟩ := member_eq_ok_iff.1 h
    exact ⟨(name, m), Keyed.mem_of_lookup hl, rfl⟩
  have hmember : ∀ {m : Member}, m.WellFormed → m.node.step s = .ok next →
      (∃ e ∈ m.node.members, next = e.2.node) ∨
        next.members = m.node.members ∧ (∀ n : Member, next ≠ n.node) ∨ ∃ t, next = .type t := by
    intro m hm h
    rcases hm.leaf_or_collects with ⟨t, traits, rfl⟩ | ⟨mode, element, attributes, blocks, hm⟩
    · obtain ⟨u, -, rfl⟩ := Except.map_eq_ok.1 h
      exact .inr (.inr ⟨u, rfl⟩)
    rw [hm.step] at h
    by_cases hname : s.kind = .name
    · rw [hm.members]
      cases s <;> cases hname
      cases mode <;> first | exact .inl (hlevel h) | cases h
    · obtain ⟨_, _, ⟨⟩⟩ := (collected_eq_ok_iff hname).1 h
      exact .inr (.inl ⟨hm.members_element.trans hm.members.symm, hm.element_ne_node⟩)
  cases node with
  | root schema => exact .inl (hlevel h)
  | attr a => exact hmember (m := .attr a) hw h
  | groupElement members => exact .inl (hlevel h)
  | block b => exact hmember (m := .block b) hw h
  | blockElement b => exact .inl (hlevel h)
  | type t =>
    obtain ⟨u, -, rfl⟩ := Except.map_eq_ok.1 h
    exact .inr (.inr ⟨u, rfl⟩)

/-- The modifiers below what a step leads to are below the node. -/
theorem Runs.of_step (hw : node.WellFormed) (hs : node.step s = .ok next)
    (h : next.Runs modifier) : node.Runs modifier := by
  rcases hw.step_cases hs with ⟨e, he, rfl⟩ | ⟨hmembers, hnone⟩ | ⟨t, rfl⟩
  · exact .inr ⟨e, he, (runs_node (hw.members e he)).1 h⟩
  · rcases h with ⟨m, hm, _⟩ | ⟨e, he, h⟩
    · exact absurd hm (hnone m)
    · exact .inr ⟨e, hmembers ▸ he, h⟩
  · rcases h with ⟨m, hm, _⟩ | ⟨e, he, _⟩
    · cases m <;> cases hm
    · cases he

/-- A step leads into every collection of objects. -/
theorem exists_step_element {mode : NestingMode} {element : SchemaNode}
    (hm : m.Collects mode element attributes blocks) (hmode : mode ≠ .single) :
    ∃ s, m.node.step s = .ok element := by
  simp only [hm.step]
  cases mode with
  | list => exact ⟨.index 0, rfl⟩
  | set => exact ⟨.element (.null .string), rfl⟩
  | map => exact ⟨.key "", rfl⟩
  | single => exact absurd rfl hmode

/-- A path leads to each member of what a node collects. -/
theorem WellFormed.exists_path (hw : node.WellFormed) {e : String × Member}
    (he : e ∈ node.members) : ∃ rest, resolveFrom [] node rest = .ok e.2.node := by
  have hlevel : ∀ {node : SchemaNode}, node.step (.name e.1) = .ok e.2.node →
      ∃ rest, resolveFrom [] node rest = .ok e.2.node :=
    fun h => ⟨[.name e.1], resolveFrom_cons_eq_ok.2 ⟨_, h, rfl⟩⟩
  have hmember : ∀ {m : Member}, m.WellFormed → e ∈ m.node.members →
      ∃ rest, resolveFrom [] m.node rest = .ok e.2.node := by
    intro m hm he
    rcases hm.leaf_or_collects with ⟨t, traits, rfl⟩ | ⟨mode, element, attributes, blocks, hm⟩
    · cases he
    have hname := member_name hm.names (hm.members ▸ he)
    by_cases hmode : mode = .single
    · subst hmode
      exact hlevel ((hm.step _).trans hname)
    · obtain ⟨s, hs⟩ := exists_step_element hm hmode
      obtain ⟨rest, hrest⟩ := hlevel ((hm.step_element _).trans hname)
      exact ⟨s :: rest, resolveFrom_cons_eq_ok.2 ⟨element, hs, hrest⟩⟩
  cases node with
  | root schema => exact hlevel (member_name hw.names he)
  | attr a => exact hmember (m := .attr a) hw he
  | groupElement members => exact hlevel (member_name (by simpa using hw.1) he)
  | block b => exact hmember (m := .block b) hw he
  | blockElement b => cases hw with | mk hn _ _ _ => exact hlevel (member_name hn he)
  | type t => cases he

/-- The modifiers of a node and of what is nested in it are those that its paths lead to. -/
theorem WellFormed.runs_iff (hw : node.WellFormed) : node.Runs modifier ↔
    ∃ rest m, resolveFrom [] node rest = .ok (Member.node m) ∧
      modifier ∈ m.behaviour.modifiers := by
  constructor
  · -- By depth: each member has a path, and what runs in it a path from there.
    have hmember : ∀ m : Member, m.WellFormed → m.Runs modifier → ∃ rest n,
        resolveFrom [] m.node rest = .ok (Member.node n) ∧ modifier ∈ n.behaviour.modifiers := by
      intro m hm
      refine hm.induct (P := fun m => m.Runs modifier → ∃ rest n,
        resolveFrom [] m.node rest = .ok (Member.node n) ∧ modifier ∈ n.behaviour.modifiers) ?_
      intro m hm ih h
      rcases (runs_node hm).2 h with ⟨n, hn, h⟩ | ⟨e, he, h⟩
      · exact ⟨[], n, congrArg _ hn, h⟩
      · obtain ⟨above, habove⟩ := WellFormed.exists_path (m.wellFormed_node.2 hm) he
        obtain ⟨below, n, hbelow, h⟩ := ih e he h
        exact ⟨above ++ below, n, resolveFrom_append_eq_ok.2 ⟨_, habove, hbelow⟩, h⟩
    rintro (⟨n, rfl, h⟩ | ⟨e, he, h⟩)
    · exact ⟨[], n, rfl, h⟩
    · obtain ⟨above, habove⟩ := hw.exists_path he
      obtain ⟨below, n, hbelow, h⟩ := hmember e.2 (hw.members e he) h
      exact ⟨above ++ below, n, resolveFrom_append_eq_ok.2 ⟨_, habove, hbelow⟩, h⟩
  · rintro ⟨rest, m, hrest, h⟩
    induction rest generalizing node with
    | nil =>
      cases hrest
      exact .inl ⟨m, rfl, h⟩
    | cons s rest ih =>
      obtain ⟨child, hs, hrest⟩ := resolveFrom_cons_eq_ok.1 hrest
      exact .of_step hw hs (ih (hw.step hs) hrest)

end SchemaNode

/-! ## Positions without modifiers -/

/-- No attribute or block on the way of the path, at it or below it has a plan modifier. -/
def Schema.Unmodified (schema : Schema) (q : Path) : Prop :=
  ∀ p m, schema.LeadsTo p m → p <+: q ∨ q <+: p → m.behaviour.modifiers = []

namespace Schema

variable {schema : Schema} {node : SchemaNode}

/-- Nothing on the way to a node has a modifier, and nothing runs in the node. -/
theorem unmodified_iff (hs : schema.WellFormed) (hnode : schema.nodeAt q = .ok node) :
    schema.Unmodified q ↔
      (∀ p m, schema.LeadsTo p m → p <+: q → m.behaviour.modifiers = []) ∧
        ∀ modifier, ¬node.Runs modifier := by
  have hw := (hs.nodeAt hnode).2
  constructor
  · refine fun h => ⟨fun p m hm hp => h p m hm (.inl hp), fun modifier hruns => ?_⟩
    obtain ⟨rest, m, hrest, hmem⟩ := hw.runs_iff.1 hruns
    have hm : schema.LeadsTo (q ++ rest) m :=
      leadsTo_iff.2 (SchemaNode.resolveFrom_append_eq_ok.2 ⟨node, hnode, hrest⟩)
    rw [h _ m hm (.inr (List.prefix_append q rest))] at hmem
    cases hmem
  · rintro ⟨habove, hbelow⟩ p m hm (hp | ⟨rest, rfl⟩)
    · exact habove p m hm hp
    · refine List.eq_nil_iff_forall_not_mem.2 fun modifier hmem => hbelow modifier ?_
      obtain ⟨mid, hmid, hrest⟩ := SchemaNode.resolveFrom_append_eq_ok.1 (leadsTo_iff.1 hm)
      obtain rfl := Except.ok.inj (hnode.symm.trans hmid)
      exact hw.runs_iff.2 ⟨rest, m, hrest, hmem⟩

end Schema

/-- Where there are no modifiers, all values stay. -/
theorem inert_of_none (context : PlanContext) :
    Inert context (fun _ => False) fun nodes => nodes.plan.WellFormed where
  wellFormed h := h
  child _ h hv := h.inSlot? hv
  modifiers _ hm := by
    rw [List.eq_nil_iff_forall_not_mem.2 hm]
    rfl

/-- What a planned resource has where there are no modifiers is what the plan has. -/
theorem PlanContext.Valid.atPath_of_unmodified (hc : context.Valid) (hq : Path.AvoidsSets q)
    (h : context.plan.schema.Unmodified q) (hx : context.plan.raw.atPath q = .ok x) :
    (context.plan.schema.planResource context context.rootNodes).result.atPath q = .ok x := by
  have hleft : ∀ path m nodes, PlannedAt context path m nodes → path <+: q →
      nodes.plan.isUnknown = false →
        nodes.left context path m.behaviour.modifiers = nodes.plan := by
    intro path m nodes hplanned hpath _
    rw [h path m (Schema.leadsTo_iff.2 (hplanned.invariant hc).nodeAt) (.inl hpath)]
    rfl
  obtain ⟨node, hnode, hplaced⟩ := hc.exists_placed hq hleft hx
  obtain ⟨_, hruns⟩ := (Schema.unmodified_iff hc.schema hnode).1 h
  obtain ⟨_, hwf⟩ := Value.atPath_spec hc.plan hx
  refine hplaced.atPath_planResource hc hq hleft ?_ ?_
  · rintro attributes blocks path nodes hlevel rfl hty
    refine (inert_of_none context).planLevel hwf hlevel.names hty fun e he => ?_
    exact (inert_of_none context).plan (hlevel.wellFormed e he) fun modifier h =>
      hruns modifier (.inr ⟨e, hlevel.members ▸ he, h⟩)
  · rintro m nodes rfl hplanned rfl
    have hinvariant := hplanned.invariant hc
    have hm := hinvariant.wellFormed hc
    exact (inert_of_none context).plan hm
      (fun modifier h => hruns modifier ((SchemaNode.runs_node hm).2 h)) q nodes hwf hinvariant.ty

/-- What the plan has on a path without set elements stays if no attribute or block on the way to
it, at it or below it has a modifier, whatever the modifiers of others answer. With no modifiers at
all the plan stays as a whole, with nothing to replace and no diagnostics. -/
theorem Data.modifyPlan_untouched {custom : CustomModifiers} {config state plan : Data}
    (hc : PlanContext.Valid ⟨PlanModifier.respond custom, config, state, plan⟩)
    (hrole : plan.role = .plan) :
    (∀ q w, Path.AvoidsSets q → plan.raw.atPath q = .ok w → plan.schema.Unmodified q →
        (modifyPlan custom config state plan).plan.raw.atPath q = .ok w) ∧
      ((∀ modifier, ¬plan.schema.Runs modifier) →
        modifyPlan custom config state plan = ⟨plan, [], []⟩) := by
  unfold modifyPlan
  constructor
  · intro q w hq hw h
    cases hnull : plan.raw.isNull with
    | true =>
      rw [modifyPlanWith_of_isNull hnull]
      exact hw
    | false =>
      rw [hc.modifyPlanWith hnull]
      exact hc.atPath_of_unmodified hq h hw
  · intro h
    exact modifyPlanWith_of_pure hc.ty hrole
      ((inert_of_none _).planResource hc.schema h hc.plan hc.ty)

/-! ## An example

An owner with modifiers, beside two rules without any that are planned alike. -/

namespace Owned

variable {ms : List PlanModifier}

def owner (ms : List PlanModifier) : Attribute :=
  .leaf .string ⟨⟨false, true, true, false⟩, .empty, ⟨[], ms⟩⟩

def rules : Attribute :=
  .group .set [("note", Server.leaf .string), ("id", Server.leaf .string)] Ruled.rules.traits

def schema (ms : List PlanModifier) : Schema :=
  ⟨1, [("owner", owner ms), ("rules", rules)], [], .empty⟩

def twin : Value := Ruled.rule (.unknown .string) "b"

def twins : Value := .set (Ruled.rule (.null .string) "").ty [twin, twin]

def plan (ms : List PlanModifier) : Data :=
  ⟨.plan, schema ms, .object [("owner", .string "me"), ("rules", twins)]⟩

def assign : PlanModifier := .custom "assign" ""

/-- A custom modifier finds another owner. -/
def assigned : CustomModifiers := fun _ _ => ⟨.string "team", true, []⟩

def created (ms : List PlanModifier) : PlanContext :=
  ⟨PlanModifier.respond assigned, .absent .config (schema ms), .absent .state (schema ms), plan ms⟩

theorem schema_wellFormed (ms : List PlanModifier) : (schema ms).WellFormed := by
  have hnames : MemberNames ["owner", "rules"] := ⟨by decide, by decide⟩
  refine ⟨hnames, ?_, by simp [schema]⟩
  simp only [schema, List.forall_mem_cons]
  exact ⟨.leaf trivial ⟨rfl, rfl⟩, Ruled.wellFormed_group (.leaf trivial ⟨rfl, rfl⟩)
    (.leaf trivial ⟨rfl, rfl⟩) ⟨rfl, rfl⟩, by simp⟩

theorem wellFormed_twins : twins.WellFormed := by
  have hnull : (Ruled.rule (.null .string) "").ty = _ ∧
      (Ruled.rule (.null .string) "").WellFormed := Ruled.rule_spec "" rfl trivial
  refine Value.wellFormed_set_iff.2 ⟨hnull.2.ty, ?_, List.pairwise_pair.2 fun h => by cases h⟩
  simp only [List.forall_mem_cons]
  exact ⟨Ruled.rule_spec "b" rfl trivial, Ruled.rule_spec "b" rfl trivial, by simp⟩

theorem not_runs_rules (modifier : PlanModifier) : ¬rules.Runs modifier := by
  intro h
  rcases Ruled.runs_group h with h | h | h
  · cases h
  · cases Ruled.runs_leaf h
  · cases Ruled.runs_leaf h

theorem runs {modifier : PlanModifier} (h : (schema ms).Runs modifier) : modifier ∈ ms := by
  rcases h with ⟨e, he, h⟩ | ⟨e, he, _⟩
  · simp only [schema, List.mem_cons, List.not_mem_nil, or_false] at he
    rcases he with rfl | rfl
    · exact Ruled.runs_leaf h
    · exact absurd h (not_runs_rules modifier)
  · cases he

theorem valid_created (ms : List PlanModifier) (h : ∀ w, .default w ∉ ms) :
    (created ms).Valid where
  config := (schema_wellFormed ms).ty
  state := (schema_wellFormed ms).ty
  plan := by
    show (Value.objectOf [("owner", .string "me"), ("rules", twins)]).WellFormed
    refine Value.wellFormed_objectOf ?_
    simp only [List.forall_mem_cons]
    exact ⟨trivial, wellFormed_twins, by simp⟩
  answers m r hm hr := PlanModifier.wellFormed_respond (fun _ _ _ => trivial)
    (fun w hw => absurd (runs (hw ▸ hm)) (h w)) hr
  schema := schema_wellFormed ms
  ty := rfl

theorem unmodified_rules : (schema ms).Unmodified [.name "rules"] := by
  have hrules : Member.WellFormed (.attr rules) :=
    (schema_wellFormed ms).attributes _ (List.mem_cons_of_mem _ List.mem_cons_self)
  have hnode : (schema ms).nodeAt [.name "rules"] = .ok (.attr rules) := rfl
  refine (Schema.unmodified_iff (schema_wellFormed ms) hnode).2 ⟨fun p m hm hp => ?_, ?_⟩
  · rcases List.prefix_cons_iff.1 hp with rfl | ⟨rest, rfl, hrest⟩
    · cases m <;> cases hm
    · obtain rfl := List.prefix_nil.1 hrest
      cases m <;> cases hm
      rfl
  · exact fun modifier h => not_runs_rules modifier ((SchemaNode.runs_node hrules).1 h)

end Owned

/-- The owner is another one after that, and the rules are the same ones. -/
theorem Data.modifyPlan_untouched_twin_rules :
    (Owned.created [Owned.assign]).Valid ∧ (Owned.created []).Valid ∧
      Path.AvoidsSets [.name "rules"] ∧ (Owned.schema [Owned.assign]).Unmodified [.name "rules"] ∧
      (∀ modifier, ¬(Owned.schema []).Runs modifier) ∧
      let outcome (ms : List PlanModifier) := modifyPlan Owned.assigned
        (Owned.created ms).config (Owned.created ms).state (Owned.plan ms)
      (outcome [Owned.assign]).plan.raw.atPath [.name "rules"] = .ok Owned.twins ∧
        (outcome [Owned.assign]).plan.raw.atPath [.name "owner"] = .ok (.string "team") ∧
        outcome [] = ⟨Owned.plan [], [], []⟩ := by
  have hvalid := Owned.valid_created [Owned.assign] (by simp [Owned.assign])
  have hnone := Owned.valid_created [] (by simp)
  have hruns : ∀ modifier, ¬(Owned.schema []).Runs modifier := fun _ h => by cases Owned.runs h
  have havoids : Path.AvoidsSets [.name "rules"] := by simp [Path.AvoidsSets, PathStep.kind]
  obtain ⟨hstays, _⟩ := modifyPlan_untouched hvalid rfl
  obtain ⟨_, hwhole⟩ := modifyPlan_untouched hnone rfl
  exact ⟨hvalid, hnone, havoids, Owned.unmodified_rules, hruns,
    hstays _ _ havoids rfl Owned.unmodified_rules, rfl, hwhole hruns⟩

end ResourceSchema
