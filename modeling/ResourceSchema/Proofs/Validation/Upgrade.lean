import ResourceSchema.Proofs.Data.Reads
import ResourceSchema.Proofs.Schema.Upgrade
import ResourceSchema.Proofs.Validation.Basic

/-!
# Configurations of an upgraded schema

A configuration without errors has none under a schema whose changes are not breaking, provided that
every attribute that had to be set still may be (`Schema.Built.validates_config`). The configuration
is the same document: what the new schema adds is null in it, so that nothing below the additions is
visited, and every other node of the new schema stands for a node of the old one.
-/

namespace ResourceSchema

open Value

variable {name : String} {v x : Value} {p q : Path}

/-! ## Widened objects -/

@[simp] theorem isNull_widen (u : Ty) (v : Value) : (v.widen u).isNull = v.isNull := by
  cases v <;> cases u <;> rfl

@[simp] theorem isUnknown_widen (u : Ty) (v : Value) : (v.widen u).isUnknown = v.isUnknown := by
  cases v <;> cases u <;> rfl

@[simp] theorem elementCount?_widen (u : Ty) (v : Value) :
    (v.widen u).elementCount? = v.elementCount? := by
  cases v <;> cases u <;> simp [widen, elementCount?]

/-- The objects collected in a value, without their paths. -/
theorem collectedObjects_values (p : Path) (v : Value) :
    (collectedObjects p v).map Prod.snd =
      match v with
      | .object fields => [.object fields]
      | .list _ items | .set _ items => items
      | .map _ entries => entries.map Prod.snd
      | _ => [] := by
  cases v <;> simp [collectedObjects, children, Function.comp_def]

/-- The objects collected in a widened value are those of the value, widened. -/
theorem exists_collected_of_widen {mode : NestingMode} {old new : List (String × Ty)}
    (hd : (Keyed.keys new).Nodup) (hv : HasType (mode.wrap (.object old)) v)
    {o : Path × Value} (ho : o ∈ collectedObjects q (v.widen (mode.wrap (.object new))))
    (p : Path) :
    ∃ o' ∈ collectedObjects p v, HasType (.object old) o'.2 ∧ o.2 = o'.2.widen (.object new) := by
  -- Paths aside, an object is collected from the widened value exactly if its origin is.
  suffices hs : ∃ x ∈ (collectedObjects p v).map Prod.snd, HasType (.object old) x ∧
      o.2 = x.widen (.object new) by
    obtain ⟨x, hx, htype, heq⟩ := hs
    obtain ⟨o', ho', rfl⟩ := List.mem_map.1 hx
    exact ⟨o', ho', htype, heq⟩
  have ho := List.mem_map_of_mem (f := Prod.snd) ho
  rw [collectedObjects_values] at ho ⊢
  cases mode with
  | list =>
    cases hv with
    | null => cases ho
    | unknown => cases ho
    | list _ hi =>
      rw [NestingMode.wrap, widen_list] at ho
      obtain ⟨x, hx, heq⟩ := List.mem_map.1 ho
      exact ⟨x, hx, hi x hx, heq.symm⟩
  | set =>
    cases hv with
    | null => cases ho
    | unknown => cases ho
    | set _ hi =>
      rw [NestingMode.wrap, widen_set] at ho
      obtain ⟨x, hx, heq⟩ := List.mem_map.1 ho
      exact ⟨x, hx, hi x hx, heq.symm⟩
  | map =>
    cases hv with
    | null => cases ho
    | unknown => cases ho
    | map _ _ he =>
      rw [NestingMode.wrap, widen_map] at ho
      dsimp only at ho
      rw [List.map_map] at ho
      obtain ⟨e, hmem, heq⟩ := List.mem_map.1 ho
      exact ⟨e.2, List.mem_map_of_mem hmem, he e hmem, heq.symm⟩
  | single =>
    have hobject : HasType (.object old) v := hv
    cases hv with
    | null => cases ho
    | unknown => cases ho
    | object =>
      rw [NestingMode.wrap, widen_object hd] at ho
      refine ⟨_, List.mem_singleton_self _, hobject, ?_⟩
      rw [widen_object hd]
      exact List.mem_singleton.1 ho

/-- A field of a widened object is a widened field, or null where the attribute was added. -/
theorem field_of_widen {old new : List (String × Ty)} {u : Ty} (hd : (Keyed.keys new).Nodup)
    (hv : HasType (.object old) v) (hl : new.lookup name = some u)
    (hx : (objectFields (v.widen (.object new))).lookup name = some x) :
    (∃ t y, old.lookup name = some t ∧ (objectFields v).lookup name = some y ∧ HasType t y ∧
      x = y.widen u) ∨ old.lookup name = none ∧ x = .null u := by
  cases hv with
  | null => cases hx
  | unknown => cases hx
  | @object _ fields hk hn hf =>
    rw [widen_object hd, objectFields, Keyed.lookup_mapWithKey (widenField fields), hl] at hx
    obtain rfl : widenField fields name u = x := Option.some.inj hx
    cases ht : old.lookup name with
    | none =>
      refine .inr ⟨rfl, ?_⟩
      have hnone : fields.lookup name = none := by
        rwa [Keyed.lookup_eq_none, hn, ← Keyed.lookup_eq_none]
      rw [widenField, hnone]
      rfl
    | some t =>
      have hmem := Keyed.mem_of_lookup ht
      obtain ⟨y, hy⟩ := Keyed.exists_lookup (hn ▸ Keyed.mem_keys_of_mem hmem)
      exact .inl ⟨t, y, rfl, hy, hf name t y hmem (Keyed.mem_of_lookup hy),
        widenField_of_lookup hy u⟩

/-! ## Attributes that may still be set -/

/-- What is required at or below the old node is required or optional at the new one. -/
def SchemaNode.StaysSettable (old new : SchemaNode) : Prop :=
  ∀ p a b, resolveFrom [] old p = .ok (.attr a) → resolveFrom [] new p = .ok (.attr b) →
    a.flags.required = true → b.flags.required = true ∨ b.flags.optional = true

theorem SchemaNode.StaysSettable.step {old new old' new' : SchemaNode} {s : PathStep}
    (h : old.StaysSettable new) (hold : old.step s = .ok old') (hnew : new.step s = .ok new') :
    old'.StaysSettable new' := by
  intro p a b ha hb
  refine h (s :: p) a b ?_ ?_
  · rw [resolveFrom, hold]
    exact resolveFrom_any ha _
  · rw [resolveFrom, hnew]
    exact resolveFrom_any hb _

/-! ## Nodes one by one -/

theorem Attribute.Admits.upgrade {a b : Attribute} {w : Value} (h : a.Admits v)
    (hf : a.flags.Upgrade b.flags)
    (hs : a.flags.required = true → b.flags.required = true ∨ b.flags.optional = true)
    (ha : a.flags.Valid) (hnull : w.isNull = v.isNull) : b.Admits w := by
  constructor
  · intro hb
    rw [hnull]
    exact h.required (hf.required hb)
  · intro _ hoptional hrequired
    have har : a.flags.required = false := Bool.eq_false_iff.2 fun har => by
      rcases hs har with hb | hb
      · rw [hb] at hrequired; cases hrequired
      · rw [hb] at hoptional; cases hoptional
    have hao : a.flags.optional = false := Bool.eq_false_iff.2 fun hao => by
      rw [hf.optional hao] at hoptional
      cases hoptional
    have hset := ha.2
    rw [har, hao] at hset
    rw [hnull]
    exact h.readOnly hset hao har

theorem Block.Admits.upgrade {b c : Block} {w : Value} (h : b.Admits v)
    (ht : b.traits.Upgrade c.traits) (hunknown : w.isUnknown = v.isUnknown)
    (hcount : c.itemCount w = b.itemCount v) : c.Admits w := by
  constructor
  · intro hw
    rw [hcount]
    exact Nat.le_trans (UInt64.le_iff_toNat_le.1 ht.min) (h.min (hunknown ▸ hw))
  · intro hw
    rw [hcount]
    rcases ht.max with hmax | ⟨hne, hle⟩
    · exact .inl hmax
    · have hbound := (h.max (hunknown ▸ hw)).resolve_left hne
      exact .inr (Nat.le_trans hbound (UInt64.le_iff_toNat_le.1 hle))

/-! ## Levels of members -/

section Level

variable {M : Type} {ty : M → Ty} {visits : Path → Value → M → List Visit}
  {old new : List (String × M)}

/-- Where the old member finds nothing wrong, the new one finds nothing wrong with the widened
value. -/
def Carries (ty : M → Ty) (visits : Path → Value → M → List Visit) (a b : M) : Prop :=
  ∀ v p, HasType (ty a) v → (∀ visit ∈ visits p v a, visit.Passes) →
    ∀ q, ∀ visit ∈ visits q (v.widen (ty b)) b, visit.Passes

/-- The members of one level pass in the fields of an object. -/
def MembersPass (visits : Path → Value → M → List Visit) (p : Path)
    (fields : List (String × Value)) (members : List (String × M)) : Prop :=
  ∀ e ∈ members, ∀ v, fields.lookup e.1 = some v →
    ∀ visit ∈ visits (p ++ [.name e.1]) v e.2, visit.Passes

theorem MembersPass.widen {P : M → Prop} (oldTypes newTypes : List (String × Ty))
    (hgrown : Grown (Carries ty visits) P old new)
    (hadded : ∀ b, P b → ∀ q t, ∀ visit ∈ visits q (.null t) b, visit.Passes)
    (hd : (Keyed.keys newTypes).Nodup)
    (hold : ∀ name a, old.lookup name = some a → oldTypes.lookup name = some (ty a))
    (hnone : ∀ e ∈ new, old.lookup e.1 = none → oldTypes.lookup e.1 = none)
    (hnew : ∀ e ∈ new, new.lookup e.1 = some e.2 ∧ newTypes.lookup e.1 = some (ty e.2))
    (hv : HasType (.object oldTypes) v)
    (hpass : MembersPass visits p (objectFields v) old) (q : Path) :
    MembersPass visits q (objectFields (v.widen (.object newTypes))) new := by
  intro e he x hx visit hvisit
  obtain ⟨hlookup, htype⟩ := hnew e he
  rcases field_of_widen hd hv htype hx with ⟨t, y, ht, hy, hty, rfl⟩ | ⟨ht, rfl⟩
  · cases ha : old.lookup e.1 with
    | none => rw [hnone e he ha] at ht; cases ht
    | some a =>
      rw [hold _ a ha] at ht
      cases ht
      obtain ⟨b, hb, hab⟩ := hgrown.kept _ a ha
      rw [hlookup] at hb
      cases hb
      have hpast := hpass _ (Keyed.mem_of_lookup ha) y hy
      exact hab y _ hty hpast _ visit hvisit
  · cases ha : old.lookup e.1 with
    | none => exact hadded _ (hgrown.added _ _ hlookup ha) _ _ visit hvisit
    | some a => rw [hold _ a ha] at ht; cases ht

theorem membersPass_iff {fields : List (String × Value)} {members : List (String × M)} :
    MembersPass visits p fields members ↔
      ∀ visit ∈ members.flatMap (presentVisits visits p fields), visit.Passes := by
  constructor
  · intro h visit hvisit
    obtain ⟨e, he, v, hv, hmem⟩ := mem_presentVisits.1 hvisit
    exact h e he v hv visit hmem
  · intro h e he v hv visit hmem
    exact h visit (mem_presentVisits.2 ⟨e, he, v, hv, hmem⟩)

end Level

/-- An attribute that is not required passes where there is nothing. -/
theorem Attribute.passes_null {b : Attribute} (hb : b.flags.required = false) (q : Path) (t : Ty) :
    ∀ visit ∈ b.visits q (.null t), visit.Passes := by
  intro visit hvisit
  have hadmits : b.Admits (.null t) := by
    refine ⟨fun h => ?_, fun _ _ _ => rfl⟩
    rw [hb] at h
    cases h
  cases b with
  | leaf u traits =>
    rw [visits, List.mem_singleton] at hvisit
    rw [hvisit]
    exact hadmits
  | group mode members traits =>
    rcases mem_visits_group.1 hvisit with rfl | ⟨o, ho, _⟩
    · exact hadmits
    · cases ho

theorem Block.passes_null {b : Block} (hb : b.traits.minItems = 0) (q : Path) (t : Ty) :
    ∀ visit ∈ b.visits q (.null t), visit.Passes := by
  intro visit hvisit
  rcases mem_visits.1 hvisit with rfl | ⟨o, ho, _⟩
  · have hcount : b.itemCount (.null t) = 0 := by
      unfold itemCount
      split <;> rfl
    refine ⟨fun _ => ?_, fun _ => .inr ?_⟩
    · rw [hb]
      exact Nat.zero_le _
    · show b.itemCount (.null t) ≤ _
      rw [hcount]
      exact Nat.zero_le _
  · cases ho

section Members

variable {oldAttributes newAttributes : List (String × Attribute)}
  {oldBlocks newBlocks : List (String × Block)}

theorem MemberNames.lookup_attribute {attributes : List (String × Attribute)}
    {blocks : List (String × Block)} {a : Attribute}
    (hn : MemberNames (Keyed.keys attributes ++ Keyed.keys blocks))
    (ha : attributes.lookup name = some a) :
    (Keyed.sorted (levelTypes attributes blocks)).lookup name = some a.ty := by
  rw [lookup_levelTypes hn, ha]
  rfl

theorem MemberNames.lookup_block {attributes : List (String × Attribute)}
    {blocks : List (String × Block)} {b : Block}
    (hn : MemberNames (Keyed.keys attributes ++ Keyed.keys blocks))
    (hb : blocks.lookup name = some b) :
    (Keyed.sorted (levelTypes attributes blocks)).lookup name = some b.ty := by
  rw [lookup_levelTypes hn, hn.lookup_eq_none hb, hb]
  rfl

theorem MemberNames.lookup_none {attributes : List (String × Attribute)}
    {blocks : List (String × Block)}
    (hn : MemberNames (Keyed.keys attributes ++ Keyed.keys blocks))
    (ha : attributes.lookup name = none) (hb : blocks.lookup name = none) :
    (Keyed.sorted (levelTypes attributes blocks)).lookup name = none := by
  rw [lookup_levelTypes hn, ha, hb]
  rfl

/-- The members of a level pass on a widened object if the old ones pass on the object. -/
theorem passes_level
    (hold : MemberNames (Keyed.keys oldAttributes ++ Keyed.keys oldBlocks))
    (hnew : MemberNames (Keyed.keys newAttributes ++ Keyed.keys newBlocks))
    (ha : Grown (Carries Attribute.ty Attribute.visits) (fun b => b.flags.required = false)
      oldAttributes newAttributes)
    (hb : Grown (Carries Block.ty Block.visits) (fun c => c.traits.minItems = 0)
      oldBlocks newBlocks)
    (hv : HasType (Block.objectTyOf oldAttributes oldBlocks) v)
    (hpa : ∀ visit ∈ Attribute.memberVisits p (objectFields v) oldAttributes, visit.Passes)
    (hpb : ∀ visit ∈ Block.memberVisits p (objectFields v) oldBlocks, visit.Passes) (q : Path) :
    (∀ visit ∈ Attribute.memberVisits q
        (objectFields (v.widen (Block.objectTyOf newAttributes newBlocks))) newAttributes,
        visit.Passes) ∧
      ∀ visit ∈ Block.memberVisits q
        (objectFields (v.widen (Block.objectTyOf newAttributes newBlocks))) newBlocks,
        visit.Passes := by
  have hnames := List.nodup_append'.1 hnew.1
  have hd : (Keyed.keys (Keyed.sorted (levelTypes newAttributes newBlocks))).Nodup :=
    (Keyed.increasing_sorted _).nodup
  rw [Attribute.memberVisits_eq_flatMap, ← membersPass_iff] at hpa ⊢
  rw [Block.memberVisits_eq_flatMap, ← membersPass_iff] at hpb ⊢
  constructor
  · refine MembersPass.widen
      (Keyed.sorted (levelTypes oldAttributes oldBlocks)) _ ha
      (fun b hb q t => Attribute.passes_null hb q t) hd (fun _ _ h => hold.lookup_attribute h)
      (fun e he hnone => hold.lookup_none hnone ?_) (fun e he => ?_) hv
      hpa q
    · -- A block of the name would have been kept, beside the attribute.
      cases hc : oldBlocks.lookup e.1 with
      | none => rfl
      | some c =>
        obtain ⟨d, hd, _⟩ := hb.kept _ c hc
        have hnone := hnew.lookup_eq_none hd
        rw [Keyed.lookup_of_mem hnames.1 he] at hnone
        cases hnone
    · have hl := Keyed.lookup_of_mem hnames.1 he
      exact ⟨hl, hnew.lookup_attribute hl⟩
  · refine MembersPass.widen
      (Keyed.sorted (levelTypes oldAttributes oldBlocks)) _ hb
      (fun b hb q t => Block.passes_null hb q t) hd (fun _ _ h => hold.lookup_block h)
      (fun e he hnone => hold.lookup_none ?_ hnone) (fun e he => ?_) hv
      hpb q
    · cases hc : oldAttributes.lookup e.1 with
      | none => rfl
      | some a =>
        obtain ⟨b, hb, _⟩ := ha.kept _ a hc
        rw [hnew.lookup_eq_none (Keyed.lookup_of_mem hnames.2.1 he)] at hb
        cases hb
    · have hl := Keyed.lookup_of_mem hnames.2.1 he
      exact ⟨hl, hnew.lookup_block hl⟩

end Members

/-! ## Attributes, blocks and whole schemas -/

namespace SchemaNode

/-- Members of collected objects may still be set if those of the collections may. -/
theorem StaysSettable.member {old new oldElement newElement oldMember newMember : SchemaNode}
    {mode : NestingMode} {t u : Ty} {f g : PathStep → Except StepError SchemaNode}
    (h : old.StaysSettable new) (hold : ∀ s, old.step s = collected mode t oldElement (f s) s)
    (hnew : ∀ s, new.step s = collected mode u newElement (g s) s)
    (hof : ∀ s, oldElement.step s = f s) (hng : ∀ s, newElement.step s = g s)
    (hf : f (.name name) = .ok oldMember) (hg : g (.name name) = .ok newMember) :
    oldMember.StaysSettable newMember := by
  have helement : ∀ s, collected mode t oldElement (f s) s = .ok oldElement →
      collected mode u newElement (g s) s = .ok newElement → oldMember.StaysSettable newMember := by
    intro s hs hs'
    exact (h.step ((hold s).trans hs) ((hnew s).trans hs')).step ((hof _).trans hf)
      ((hng _).trans hg)
  cases mode with
  | list => exact helement (.index 0) rfl rfl
  | set => exact helement (.element (.null .string)) rfl rfl
  | map => exact helement (.key "") rfl rfl
  | single => exact h.step ((hold (.name name)).trans hf) ((hnew (.name name)).trans hg)

theorem member_attribute {attributes : List (String × Attribute)}
    {blocks : List (String × Block)} {a : Attribute} (h : attributes.lookup name = some a) :
    member attributes blocks (.name name) = .ok (.attr a) := by
  rw [member, h]

theorem member_block {attributes : List (String × Attribute)} {blocks : List (String × Block)}
    {b : Block} (hn : MemberNames (Keyed.keys attributes ++ Keyed.keys blocks))
    (h : blocks.lookup name = some b) :
    member attributes blocks (.name name) = .ok (.block b) := by
  rw [member, hn.lookup_eq_none h, h]

end SchemaNode

theorem Attribute.Upgrade.carries {a b : Attribute} (h : a.Upgrade b) (ha : a.WellFormed)
    (hb : b.WellFormed) (hs : SchemaNode.StaysSettable (.attr a) (.attr b)) :
    Carries Attribute.ty Attribute.visits a b := by
  induction h with
  | @leaf t traits traits' hf =>
    intro v p _ hpass q visit hvisit
    rw [visits, List.mem_singleton] at hvisit
    rw [hvisit]
    have hown : (Attribute.leaf t traits).Admits v := hpass _ (List.mem_singleton_self _)
    exact hown.upgrade hf (hs [] _ _ rfl rfl) ha.flags (isNull_widen _ v)
  | @group mode old new traits traits' hk h hn hf ih =>
    have hold := fun s => (rfl : (SchemaNode.groupElement old).step s = SchemaNode.member old [] s)
    have hnew := fun s => (rfl : (SchemaNode.groupElement new).step s = SchemaNode.member new [] s)
    cases ha with
    | group hno ha hvalid =>
      cases hb with
      | group hnn hb _ =>
        have hmembers : Grown (Carries Attribute.ty Attribute.visits)
            (fun b => b.flags.required = false) old new := by
          refine ⟨fun name a hl => ?_, hn⟩
          obtain ⟨b, hl'⟩ := hk name a hl
          have hab := hs.member (fun _ => rfl) (fun _ => rfl) hold hnew
            (SchemaNode.member_attribute hl) (SchemaNode.member_attribute hl')
          exact ⟨b, hl', ih name a b hl hl' (ha _ (Keyed.mem_of_lookup hl))
            (hb _ (Keyed.mem_of_lookup hl')) hab⟩
        intro v p hv hpass q visit hvisit
        rcases mem_visits_group.1 hvisit with rfl | ⟨o, ho, hvisit⟩
        · have hown : (Attribute.group mode old traits).Admits v :=
            hpass ⟨p, .attr (.group mode old traits), v⟩ (mem_visits_group.2 (.inl rfl))
          exact hown.upgrade hf (hs [] _ _ rfl rfl) hvalid (isNull_widen _ v)
        · obtain ⟨o', ho', htype, heq⟩ := exists_collected_of_widen
            (Keyed.increasing_sorted _).nodup hv ho p
          have hpast := fun visit hvisit =>
            hpass visit (mem_visits_group.2 (.inr ⟨o', ho', hvisit⟩))
          -- A group is a level without blocks.
          have hno : MemberNames (Keyed.keys old ++ Keyed.keys ([] : List (String × Block))) := by
            simpa using hno
          have hnn : MemberNames (Keyed.keys new ++ Keyed.keys ([] : List (String × Block))) := by
            simpa using hnn
          have htype : HasType (Block.objectTyOf old []) o'.2 := by
            rw [← Attribute.objectTy_eq]
            exact htype
          have hlevel := passes_level hno hnn hmembers
            ⟨fun _ _ hl => (by cases hl), fun _ _ hl => (by cases hl)⟩ htype hpast
            (fun _ hnone => (by cases hnone)) o.1
          rw [← Attribute.objectTy_eq] at hlevel
          rw [heq] at hvisit
          exact hlevel.1 visit hvisit

theorem Attribute.MembersUpgrade.carries {old new : List (String × Attribute)}
    (h : MembersUpgrade old new) (hold : ∀ e ∈ old, e.2.WellFormed)
    (hnew : ∀ e ∈ new, e.2.WellFormed)
    (hs : ∀ name a b, old.lookup name = some a → new.lookup name = some b →
      SchemaNode.StaysSettable (.attr a) (.attr b)) :
    Grown (Carries Attribute.ty Attribute.visits) (fun b => b.flags.required = false) old new :=
  h.imp fun name a b ha hb hab => hab.carries (hold _ (Keyed.mem_of_lookup ha))
    (hnew _ (Keyed.mem_of_lookup hb)) (hs name a b ha hb)

theorem itemCount_widen {b c : Block} (hn : b.nesting = c.nesting) (u : Ty) (v : Value) :
    c.itemCount (v.widen u) = b.itemCount v := by
  unfold Block.itemCount
  rw [hn, isNull_widen, elementCount?_widen]

theorem Block.Upgrade.carries {b c : Block} (h : b.Upgrade c) (hb : b.WellFormed)
    (hc : c.WellFormed) (hs : SchemaNode.StaysSettable (.block b) (.block c)) :
    Carries Block.ty Block.visits b c := by
  induction h with
  | @mk nesting oldAttributes newAttributes oldBlocks newBlocks traits traits' hma hk h hn ht ih =>
    cases hb with
    | mk hno hoa hob _ =>
      cases hc with
      | mk hnn hna hnb _ =>
        have hold := fun s => (rfl : (SchemaNode.blockElement ⟨nesting, oldAttributes, oldBlocks,
          traits⟩).step s = SchemaNode.member oldAttributes oldBlocks s)
        have hnew := fun s => (rfl : (SchemaNode.blockElement ⟨nesting, newAttributes, newBlocks,
          traits'⟩).step s = SchemaNode.member newAttributes newBlocks s)
        have hattributes := Attribute.MembersUpgrade.carries hma hoa hna fun name a b ha hb =>
          hs.member (fun _ => rfl) (fun _ => rfl) hold hnew (SchemaNode.member_attribute ha)
            (SchemaNode.member_attribute hb)
        have hblocks : Grown (Carries Block.ty Block.visits)
            (fun c => c.traits.minItems = 0) oldBlocks newBlocks := by
          refine ⟨fun name b hl => ?_, hn⟩
          obtain ⟨c, hl'⟩ := hk name b hl
          have hbc := hs.member (fun _ => rfl) (fun _ => rfl) hold hnew
            (SchemaNode.member_block hno hl) (SchemaNode.member_block hnn hl')
          exact ⟨c, hl', ih name b c hl hl' (hob _ (Keyed.mem_of_lookup hl))
            (hnb _ (Keyed.mem_of_lookup hl')) hbc⟩
        intro v p hv hpass q visit hvisit
        rcases Block.mem_visits.1 hvisit with rfl | ⟨o, ho, hvisit⟩
        · have hown : Block.Admits ⟨nesting, oldAttributes, oldBlocks, traits⟩ v :=
            hpass ⟨p, .block ⟨nesting, oldAttributes, oldBlocks, traits⟩, v⟩
              (Block.mem_visits.2 (.inl rfl))
          exact hown.upgrade ht (isUnknown_widen _ v) (itemCount_widen rfl _ v)
        · rw [Block.ty_eq] at hv ho
          obtain ⟨o', ho', htype, heq⟩ := exists_collected_of_widen
            (Keyed.increasing_sorted _).nodup hv ho p
          have hpast := fun visit hvisit =>
            hpass visit (Block.mem_visits.2 (.inr ⟨o', ho', hvisit⟩))
          obtain ⟨hpa, hpb⟩ := passes_level hno hnn hattributes hblocks htype
            (fun visit hvisit => hpast visit (.inl hvisit))
            (fun visit hvisit => hpast visit (.inr hvisit)) o.1
          rw [heq] at hvisit
          exact hvisit.elim (hpa visit) (hpb visit)

theorem Schema.Upgrade.passes {old new : Schema} (h : old.Upgrade new) (hold : old.WellFormed)
    (hnew : new.WellFormed) (hs : SchemaNode.StaysSettable (.root old) (.root new))
    (hv : HasType old.ty v) (hpass : ∀ visit ∈ old.visits v, visit.Passes) :
    ∀ visit ∈ new.visits (v.widen new.ty), visit.Passes := by
  have hattributes := Attribute.MembersUpgrade.carries h.attributes hold.attributes
    hnew.attributes fun name a b ha hb =>
      hs.step (s := .name name) (SchemaNode.member_attribute ha) (SchemaNode.member_attribute hb)
  have hblocks : Grown (Carries Block.ty Block.visits) (fun c => c.traits.minItems = 0)
      old.blocks new.blocks :=
    h.blocks.imp fun name b c hb hc hbc => hbc.carries (hold.blocks _ (Keyed.mem_of_lookup hb))
      (hnew.blocks _ (Keyed.mem_of_lookup hc)) (hs.step (s := .name name)
        (SchemaNode.member_block hold.names hb) (SchemaNode.member_block hnew.names hc))
  obtain ⟨hpa, hpb⟩ := passes_level hold.names hnew.names hattributes hblocks hv
    (fun visit hvisit => hpass visit (Schema.mem_visits.2 (.inl hvisit)))
    (fun visit hvisit => hpass visit (Schema.mem_visits.2 (.inr hvisit))) []
  intro visit hvisit
  exact (Schema.mem_visits.1 hvisit).elim (hpa visit) (hpb visit)

/-! ## Configurations -/

theorem Schema.attributeAt_of_nodeAt {s : Schema} {a : Attribute} (h : s.nodeAt p = .ok (.attr a)) :
    s.attributeAt p = .ok a := by
  rw [attributeAt, h]
  rfl

/-- A configuration without errors has none under a schema without breaking changes, as long as
every attribute that had to be set may still be set. -/
theorem Schema.Built.validates_config {old new : Schema} (hold : old.Built) (hnew : new.Built)
    (h : ∀ c ∈ old.diff new, c.isBreaking = false)
    (hs : ∀ p a b, old.attributeAt p = .ok a → new.attributeAt p = .ok b →
      a.flags.required = true → b.flags.required = true ∨ b.flags.optional = true)
    (hc : ∀ c, ¬new.Checks c) {custom : CustomValidators} {j : Json} {d : Data}
    (hd : Data.ofJson .config old j = .ok d) (hvalid : (d.validate custom).hasError = false) :
    ∃ d', Data.ofJson .config new j = .ok d' ∧ (d'.validate custom).hasError = false := by
  have hupgrade := hold.wellFormed.upgrade h
  have hext := hupgrade.extendedBy hold.wellFormed hnew.wellFormed
  obtain ⟨raw, hread, hraw⟩ := Data.ofJson_eq_ok hd
  obtain ⟨_, _, rfl⟩ := Data.ofValue_eq_ok hraw
  have htype := hasType_iff.2 (wellFormed_ofJson hold.wellFormed.ty hread)
  have hwiden := ofJson_widen hext hold.wellFormed.ty hnew.wellFormed.ty hread
  refine ⟨⟨.config, new, raw.widen new.ty⟩, ?_, Data.hasError_validate_iff.2 fun visit hvisit =>
    ⟨?_, fun c hmem => absurd (hnew.wellFormed.checks_of_visit hvisit hmem) (hc c)⟩⟩
  · rw [Data.ofJson, hwiden]
    show Data.ofValue .config new _ = _
    rw [Data.ofValue, if_neg (not_not.2 (ty_widen hext hnew.wellFormed.ty htype)),
      if_neg fun hrole => by cases hrole.1]
  · refine hupgrade.passes hold.wellFormed hnew.wellFormed (fun p a b ha hb => ?_) htype
      (fun visit hvisit => (Data.hasError_validate_iff.1 hvalid visit hvisit).1) visit hvisit
    exact hs p a b (Schema.attributeAt_of_nodeAt ha) (Schema.attributeAt_of_nodeAt hb)

/-! ## An example

A schema of one name, and a configuration that sets it. -/

namespace Named

def draft (flags : Flags) : AttributeDraft := ⟨some .string, none, ⟨flags, .empty, .none⟩⟩

def schema (flags : Flags) : Schema :=
  ⟨1, [("name", .leaf .string ⟨flags, .empty, .none⟩)], [], .empty⟩

def required : Flags := ⟨true, false, false, false⟩

def optional : Flags := ⟨false, true, false, false⟩

def readOnly : Flags := ⟨false, false, true, false⟩

def document : Json := .object [("name", .string "web")]

theorem built {flags : Flags}
    (h : (draft flags).build = .ok (.leaf .string ⟨flags, .empty, .none⟩)) :
    (schema flags).Built := by
  refine ⟨⟨1, [("name", (draft flags).build)], [], .empty⟩, fun name a ha => ?_,
    fun name b hb => (by cases hb), by rw [SchemaDraft.build, h]; rfl⟩
  simp only [List.mem_singleton, Prod.mk.injEq] at ha
  exact .build (d := draft flags) (fun t ht => by cases ht; trivial) (fun _ _ hm => by cases hm)
    ha.2.symm

theorem not_checks (flags : Flags) (c : Validator) : ¬(schema flags).Checks c := by
  rintro (⟨e, he, h⟩ | ⟨e, he, h⟩)
  · rw [List.mem_singleton.1 he] at h
    cases h with
    | own h => cases h
  · cases he

theorem flags_of_attributeAt {flags : Flags} {a : Attribute}
    (h : (schema flags).attributeAt p = .ok a) : a.flags = flags := by
  rcases p with _ | ⟨s, rest⟩
  · cases h
  cases s with
  | name name =>
    by_cases hn : name = "name"
    · subst hn
      rcases rest with _ | ⟨s, rest⟩
      · cases h
        rfl
      · cases s <;> cases h
    · have hl : (schema flags).attributes.lookup name = none := by
        rw [Keyed.lookup_eq_none]
        simpa [schema] using hn
      rw [Schema.attributeAt, Schema.nodeAt, SchemaNode.resolveFrom, SchemaNode.step,
        SchemaNode.member, hl] at h
      cases h
  | index i => cases h
  | key k => cases h
  | element w => cases h

end Named

/-- A configuration that sets a name stays without errors when the name is no longer required. -/
theorem Schema.validates_config_optional :
    ∃ d d', Data.ofJson .config (Named.schema Named.required) Named.document = .ok d ∧
      (d.validate fun _ _ => []).hasError = false ∧
      Data.ofJson .config (Named.schema Named.optional) Named.document = .ok d' ∧
      (d'.validate fun _ _ => []).hasError = false := by
  have hchanges : ∀ c ∈ (Named.schema Named.required).diff (Named.schema Named.optional),
      c.isBreaking = false := by decide
  have hs : ∀ p a b, (Named.schema Named.required).attributeAt p = .ok a →
      (Named.schema Named.optional).attributeAt p = .ok b → a.flags.required = true →
        b.flags.required = true ∨ b.flags.optional = true := by
    intro p a b _ hb _
    exact .inr (Named.flags_of_attributeAt hb ▸ rfl)
  have hold : (Named.schema Named.required).Built := Named.built rfl
  have hnew : (Named.schema Named.optional).Built := Named.built rfl
  obtain ⟨d', hd', hvalid⟩ := hold.validates_config hnew hchanges hs (Named.not_checks _)
    (j := Named.document) rfl (show (Data.validate (fun _ _ => []) _).hasError = false by decide)
  exact ⟨_, d', rfl, by decide, hd', hvalid⟩

/-- A name that had to be set becomes read-only without a breaking change, and then a configuration
that sets it has an error. -/
theorem Schema.breaks_config_readOnly :
    (Named.schema Named.required).Built ∧ (Named.schema Named.readOnly).Built ∧
      (∀ c ∈ (Named.schema Named.required).diff (Named.schema Named.readOnly),
        c.isBreaking = false) ∧
      (∀ c, ¬(Named.schema Named.required).Checks c) ∧
      (∀ c, ¬(Named.schema Named.readOnly).Checks c) ∧
      ∃ d d', Data.ofJson .config (Named.schema Named.required) Named.document = .ok d ∧
        (d.validate fun _ _ => []).hasError = false ∧
        Data.ofJson .config (Named.schema Named.readOnly) Named.document = .ok d' ∧
        (d'.validate fun _ _ => []).hasError = true :=
  ⟨Named.built rfl, Named.built rfl, by decide, Named.not_checks _, Named.not_checks _, _, _, rfl,
    by decide, rfl, by decide⟩

end ResourceSchema
