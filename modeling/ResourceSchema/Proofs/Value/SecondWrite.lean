import ResourceSchema.Proofs.Value.Interchange

/-!
# A write after another

A write puts a new child in its place, where a later write finds it (`openAt_putAt`) and puts
another one (`putAt_putAt`). Beside that place the later write finds what was there before, and puts
its child there whether it is the later one or not (`openAt_putAt_of_ne`, `putAt_comm`). So of two
writes at one path the later one counts (`last_write_wins`), and writes at paths that part commute
(`writes_commute`). Set elements on the way are left out: what they are decides where they are.
-/

namespace ResourceSchema

namespace Pending

/-- Rules by host: one rule of one host, with its members. -/
def hosts (id tags : Value) : Value :=
  .map (.list ruleTy) [("web", .list ruleTy [.object [("id", id), ("tags", tags)]])]

/-- The place of a member of that rule. -/
def hostMember (name : String) : Path := [.key "web", .index 0, .name name]

end Pending

namespace Value

variable {t : Ty} {v w x child child' new new' : Value} {s s' : PathStep} {p q : Path}
  {items : List Value}

/-! ## Places that do not depend on what is there -/

/-- Where a write goes on from a value with data in it, other than into a set. -/
inductive Opens : Value → PathStep → Value → Prop
  | name {fields : List (String × Value)} {name : String} {c : Value}
      (h : fields.lookup name = some c) : Opens (.object fields) (.name name) c
  | item {t : Ty} {items : List Value} {i : Nat} {c : Value} (h : items[i]? = some c) :
      Opens (.list t items) (.index i) c
  | last (t : Ty) (items : List Value) : Opens (.list t items) (.index items.length) (.null t)
  | key {t : Ty} {entries : List (String × Value)} {key : String} {c : Value}
      (h : (entries.lookup key).getD (.null t) = c) : Opens (.map t entries) (.key key) c

@[simp]
theorem materialize_materialize (v : Value) : v.materialize.materialize = v.materialize := by
  cases v with
  | null t => cases t <;> rfl
  | unknown t => cases t <;> rfl
  | _ => rfl

@[simp] theorem putAt_materialize (v : Value) (s : PathStep) (c : Value) :
    v.materialize.putAt s c = v.putAt s c := by
  simp [putAt]

theorem opens_of_openAt (hs : ∀ e, s ≠ .element e) (h : v.openAt s = .ok child) :
    Opens v.materialize s child := by
  obtain ⟨t, fresh, ht, hf, rfl⟩ := openAt_eq_ok h
  have hknown := isKnown_materialize ht
  rw [← materialize_ty v] at ht
  have hchild := Ty.step_eq_ok_iff.1 ht
  unfold freshAt at hf
  generalize v.materialize = parent at *
  cases parent <;> simp only [ty] at hchild <;> cases hchild <;> try cases hknown
  case list.index items i hi =>
    obtain ⟨i, rfl⟩ := Int.eq_ofNat_of_zero_le hi
    dsimp only at hf
    split at hf
    · cases hf
    next hle =>
    cases hf
    rw [child?, itemAt?, if_neg (Int.not_lt.2 hi), Int.toNat_natCast]
    cases hget : items[i]? with
    | some c => exact .item hget
    | none =>
      have hge := List.getElem?_eq_none_iff.1 hget
      obtain rfl : i = items.length := by omega
      exact .last t items
  case set.element items w => exact absurd rfl (hs w)
  case map.key entries key =>
    cases hf
    exact .key rfl
  case object.name fields name hl =>
    cases hf
    rw [lookup_fieldTypes] at hl
    obtain ⟨c, hc, -⟩ := Option.map_eq_some_iff.1 hl
    rw [child?, hc]
    exact .name hc

/-- A list opens at the places that it has and at the one behind its last element. -/
theorem openAt_index {i : Nat} (h : i ≤ items.length) :
    (Value.list t items).openAt (.index i) = .ok (items[i]?.getD (.null t)) := by
  have hle : ¬(items.length : Int) < i := by omega
  rw [openAt, ty, Ty.step_eq_ok_iff.2 (.index (Int.natCast_nonneg i))]
  show Except.bind (if (items.length : Int) < i then _ else _) _ = _
  rw [if_neg hle]
  show Except.ok ((itemAt? items i).getD _) = _
  rw [itemAt?, if_neg (by omega), Int.toNat_natCast]

theorem Opens.openAt (h : Opens v s child) : v.openAt s = .ok child := by
  cases h with
  | @name fields name _ h =>
    have hty : (fieldTypes fields).lookup name = some child.ty := by
      simp [h]
    rw [Value.openAt, ty, Ty.step_eq_ok_iff.2 (.name hty)]
    show Except.ok (((Value.object fields).child? (.name name)).getD _) = _
    rw [child?, h, Option.getD_some]
  | @item t items i _ h =>
    rw [openAt_index (Nat.le_of_lt (List.getElem?_eq_some_iff.1 h).1), h, Option.getD_some]
  | last t items =>
    rw [openAt_index (Nat.le_refl _), List.getElem?_length, Option.getD_none]
  | key h => exact congrArg Except.ok h

/-! ## One step -/

theorem putAt_item {i : Nat} (h : i < items.length) (c : Value) :
    (Value.list t items).putAt (.index i) c = .list t (items.set i c) := by
  simp only [putAt, materialize, Int.toNat_natCast, if_pos h]

theorem putAt_last (t : Ty) (items : List Value) (c : Value) :
    (Value.list t items).putAt (.index items.length) c = .list t (items ++ [c]) := by
  simp only [putAt, materialize, Int.toNat_natCast, Nat.lt_irrefl, if_false]

/-- A write finds what an earlier one has put in its place. -/
theorem Opens.again (h : Opens v s child) (c : Value) : Opens (v.putAt s c) s c := by
  cases h with
  | @name fields name _ h => exact .name (Keyed.lookup_assign_self name c fields)
  | @item t items i _ h =>
    have hlt := (List.getElem?_eq_some_iff.1 h).1
    rw [putAt_item hlt]
    exact .item (List.getElem?_set_self hlt)
  | last t items =>
    rw [putAt_last]
    exact .item List.getElem?_concat_length
  | @key t entries key _ h =>
    have hfound := Keyed.lookup_insert_self key c entries
    exact .key (hfound ▸ rfl)

theorem Opens.putAt_putAt (h : Opens v s child) (c c' : Value) :
    (v.putAt s c).putAt s c' = v.putAt s c' := by
  cases h with
  | @name fields name _ h =>
    exact congrArg Value.object (Keyed.assign_assign name c' c fields)
  | @item t items i _ h =>
    have hlt := (List.getElem?_eq_some_iff.1 h).1
    have hlt' : i < (items.set i c).length := by rwa [List.length_set]
    rw [putAt_item hlt, putAt_item hlt, putAt_item hlt', List.set_set]
  | last t items =>
    have hlt : items.length < (items ++ [c]).length := by simp
    rw [putAt_last, putAt_last, putAt_item hlt, List.set_append_right _ _ (Nat.le_refl _),
      Nat.sub_self, List.set_cons_zero]
  | @key t entries key _ h =>
    exact congrArg (Value.map t) (Keyed.insert_insert key c' c entries)

/-- Beside the place of a write another one finds what it would have found before. -/
theorem Opens.beside (h : Opens v s child) (h' : Opens v s' child') (hne : s ≠ s') (c : Value) :
    Opens (v.putAt s c) s' child' := by
  cases h with
  | @name fields name _ h =>
    cases h' with
    | @name _ other _ h' =>
      have hother : other ≠ name := fun heq => hne (heq ▸ rfl)
      exact .name ((Keyed.lookup_assign_of_ne hother c fields).trans h')
  | @item t items i _ h =>
    rw [putAt_item (List.getElem?_eq_some_iff.1 h).1]
    cases h' with
    | @item _ _ j _ h' =>
      have hplace : i ≠ j := fun heq => hne (heq ▸ rfl)
      exact .item ((List.getElem?_set_ne hplace).trans h')
    | last =>
      have hlast := Opens.last t (items.set i c)
      rwa [List.length_set] at hlast
  | last t items =>
    rw [putAt_last]
    cases h' with
    | @item _ _ j _ h' =>
      have hlt := (List.getElem?_eq_some_iff.1 h').1
      exact .item ((List.getElem?_append_left hlt).trans h')
    | last => exact absurd rfl hne
  | @key t entries key _ h =>
    cases h' with
    | @key _ _ other _ h' =>
      have hother : other ≠ key := fun heq => hne (heq ▸ rfl)
      have hfound := Keyed.lookup_insert_of_ne hother c entries
      exact .key (hfound.symm ▸ h')

theorem putAt_item_last {i : Nat} (h : i < items.length) (c c' : Value) :
    ((Value.list t items).putAt (.index i) c).putAt (.index items.length) c' =
      ((Value.list t items).putAt (.index items.length) c').putAt (.index i) c := by
  have hlt : i < (items ++ [c']).length := by
    rw [List.length_append]
    omega
  have hlast := putAt_last t (items.set i c) c'
  rw [List.length_set] at hlast
  rw [putAt_item h, putAt_last, putAt_item hlt, hlast, List.set_append_left _ _ h]

theorem Opens.putAt_comm (h : Opens v s child) (h' : Opens v s' child') (hne : s ≠ s')
    (c c' : Value) : (v.putAt s c).putAt s' c' = (v.putAt s' c').putAt s c := by
  cases h with
  | @name fields name _ h =>
    cases h' with
    | @name _ other _ h' =>
      have hother : other ≠ name := fun heq => hne (heq ▸ rfl)
      have hkey : other ∈ Keyed.keys fields :=
        Keyed.mem_keys_of_mem (Keyed.mem_of_lookup h')
      exact congrArg Value.object (Keyed.assign_comm hother hkey c' c)
  | @item t items i _ h =>
    have hlt := (List.getElem?_eq_some_iff.1 h).1
    cases h' with
    | @item _ _ j _ h' =>
      have hlt' := (List.getElem?_eq_some_iff.1 h').1
      have hplace : i ≠ j := fun heq => hne (heq ▸ rfl)
      rw [putAt_item hlt, putAt_item hlt', putAt_item (by rwa [List.length_set]),
        putAt_item (by rwa [List.length_set]), List.set_comm _ _ hplace]
    | last => exact putAt_item_last hlt c c'
  | last t items =>
    cases h' with
    | @item _ _ j _ h' => exact (putAt_item_last (List.getElem?_eq_some_iff.1 h').1 c' c).symm
    | last => exact absurd rfl hne
  | @key t entries key _ h =>
    cases h' with
    | @key _ _ other _ h' =>
      have hother : other ≠ key := fun heq => hne (heq ▸ rfl)
      exact congrArg (Value.map t) (Keyed.insert_comm hother c' c entries)

/-- A write puts its child where a later write through the same step finds it. -/
theorem openAt_putAt (hs : ∀ e, s ≠ .element e) (h : v.openAt s = .ok child) (c : Value) :
    (v.putAt s c).openAt s = .ok c := by
  rw [← putAt_materialize]
  exact ((opens_of_openAt hs h).again c).openAt

/-- A child takes the place of one that was put there before. -/
theorem putAt_putAt (hs : ∀ e, s ≠ .element e) (h : v.openAt s = .ok child) (c c' : Value) :
    (v.putAt s c).putAt s c' = v.putAt s c' := by
  rw [← putAt_materialize v s c, ← putAt_materialize v s c']
  exact (opens_of_openAt hs h).putAt_putAt c c'

theorem openAt_putAt_of_ne (hs : ∀ e, s ≠ .element e) (hs' : ∀ e, s' ≠ .element e)
    (h : v.openAt s = .ok child) (h' : v.openAt s' = .ok child') (hne : s ≠ s') (c : Value) :
    (v.putAt s c).openAt s' = .ok child' := by
  rw [← putAt_materialize]
  exact ((opens_of_openAt hs h).beside (opens_of_openAt hs' h') hne c).openAt

theorem putAt_comm (hs : ∀ e, s ≠ .element e) (hs' : ∀ e, s' ≠ .element e)
    (h : v.openAt s = .ok child) (h' : v.openAt s' = .ok child') (hne : s ≠ s') (c c' : Value) :
    (v.putAt s c).putAt s' c' = (v.putAt s' c').putAt s c := by
  rw [← putAt_materialize v s c, ← putAt_materialize v s' c']
  exact (opens_of_openAt hs h).putAt_comm (opens_of_openAt hs' h') hne c c'

/-! ## Whole paths -/

theorem not_element_cons : (∀ e, .element e ∉ s :: p) ↔
    (∀ e, s ≠ .element e) ∧ ∀ e, .element e ∉ p := by
  simp only [List.mem_cons, not_or, forall_and, ne_comm]

/-- Writes that part at the first step do not meet. -/
theorem setAt_comm_of_ne (hs : ∀ e, s ≠ .element e) (hs' : ∀ e, s' ≠ .element e) (hne : s ≠ s')
    (hw : v.setAt (s :: p) new = .ok w) (hx : v.setAt (s' :: q) new' = .ok x) :
    ∃ y, w.setAt (s' :: q) new' = .ok y ∧ x.setAt (s :: p) new = .ok y := by
  obtain ⟨child, c, hopen, hset, rfl⟩ := setAt_cons_eq_ok.1 hw
  obtain ⟨child', c', hopen', hset', rfl⟩ := setAt_cons_eq_ok.1 hx
  refine ⟨(v.putAt s c).putAt s' c', setAt_cons_eq_ok.2 ⟨child', c', ?_, hset', rfl⟩,
    setAt_cons_eq_ok.2 ⟨child, c, ?_, hset, ?_⟩⟩
  · exact openAt_putAt_of_ne hs hs' hopen hopen' hne c
  · exact openAt_putAt_of_ne hs' hs hopen' hopen hne.symm c'
  · exact putAt_comm hs hs' hopen hopen' hne c c'

/-- The last of two writes at one path wins: the second one gives what it would have given without
the first, be it a value or an error. -/
theorem last_write_wins (hp : ∀ e, .element e ∉ p) (h : v.setAt p new = .ok w) (new' : Value) :
    w.setAt p new' = v.setAt p new' := by
  induction p generalizing v w with
  | nil =>
    rw [setAt] at h
    split at h
    · next hty =>
      cases h
      rw [setAt, setAt, hty]
    · cases h
  | cons s p ih =>
    obtain ⟨hs, hp⟩ := not_element_cons.1 hp
    obtain ⟨child, c, hopen, hset, rfl⟩ := setAt_cons_eq_ok.1 h
    have hput : (v.putAt s c).putAt s = v.putAt s := funext (putAt_putAt hs hopen c)
    calc (v.putAt s c).setAt (s :: p) new'
        = (c.setAt p new').map ((v.putAt s c).putAt s) :=
          setAt_of_openAt (openAt_putAt hs hopen c) p new'
      _ = (child.setAt p new').map (v.putAt s) := by
          rw [hput, ih hp hset]
      _ = v.setAt (s :: p) new' := (setAt_of_openAt hopen p new').symm

/-- The id of a rule that is not there yet, written twice. The first write makes the map, the list
and the rule, and the second one is refused as it would have been at first if its type is wrong. -/
theorem last_write_wins_new_rule :
    let v : Value := .unknown (.map (.list Pending.ruleTy))
    let p := Pending.hostMember "id"
    let w := Pending.hosts (.string "r") (.null (.set .string))
    (∀ e, .element e ∉ p) ∧ v.setAt p (.string "r") = .ok w ∧
      w.setAt p (.string "s") = v.setAt p (.string "s") ∧
      v.setAt p (.string "s") = .ok (Pending.hosts (.string "s") (.null (.set .string))) ∧
      w.setAt p (.bool true) = .error (.typeMismatch .string .bool) := by
  intro v p w
  have hp : ∀ e, .element e ∉ p := by simp [p, Pending.hostMember]
  have hw : v.setAt p (.string "r") = .ok w := by with_unfolding_all rfl
  have htwice := last_write_wins hp hw
  refine ⟨hp, hw, htwice _, by with_unfolding_all rfl, (htwice _).trans ?_⟩
  with_unfolding_all rfl

/-- Writes at paths that part at some step commute: when each succeeds on its own, so does the other
one after it, and both orders give one value. Up to that step no path goes into a set; where the
paths agree the second write goes through what the first has made there. -/
theorem writes_commute {k : Nat} (hs : p[k]? = some s) (hs' : q[k]? = some s') (hne : s ≠ s')
    (hp : ∀ e, .element e ∉ p.take (k + 1)) (hq : ∀ e, .element e ∉ q.take (k + 1))
    (hw : v.setAt p new = .ok w) (hx : v.setAt q new' = .ok x) :
    ∃ y, w.setAt q new' = .ok y ∧ x.setAt p new = .ok y := by
  induction p generalizing v w x q k with
  | nil => cases hs
  | cons a p ih =>
    rcases q with _ | ⟨b, q⟩
    · cases hs'
    rw [List.take_succ_cons, not_element_cons] at hp hq
    obtain ⟨ha, hp⟩ := hp
    obtain ⟨hb, hq⟩ := hq
    by_cases hab : a = b
    · subst hab
      cases k with
      | zero => exact absurd (Option.some.inj (hs.symm.trans hs')) hne
      | succ k =>
        obtain ⟨child, c, hopen, hset, rfl⟩ := setAt_cons_eq_ok.1 hw
        obtain ⟨child', c', hopen', hset', rfl⟩ := setAt_cons_eq_ok.1 hx
        obtain rfl : child = child' := Except.ok.inj (hopen.symm.trans hopen')
        obtain ⟨y, hy, hy'⟩ := ih hs hs' hp hq hset hset'
        -- Either way the second write goes on in the child that the first one has put there.
        exact ⟨v.putAt a y,
          setAt_cons_eq_ok.2 ⟨c, y, openAt_putAt ha hopen c, hy, (putAt_putAt ha hopen c y).symm⟩,
          setAt_cons_eq_ok.2
            ⟨c', y, openAt_putAt ha hopen c', hy', (putAt_putAt ha hopen c' y).symm⟩⟩
    · exact setAt_comm_of_ne ha hb hab hw hx

/-- Two members of a rule that is not there yet, one of them a set. Either write makes the map, the
list and the rule. -/
theorem writes_commute_new_rule :
    let v : Value := .unknown (.map (.list Pending.ruleTy))
    let p := Pending.hostMember "tags" ++ [.element (.string "a")]
    let q := Pending.hostMember "id"
    let tags : Value := .set .string [.string "a"]
    p[2]? = some (.name "tags") ∧ q[2]? = some (.name "id") ∧
      PathStep.name "tags" ≠ .name "id" ∧ (∀ e, .element e ∉ p.take 3) ∧
      (∀ e, .element e ∉ q.take 3) ∧
      v.setAt p (.string "a") = .ok (Pending.hosts (.null .string) tags) ∧
      v.setAt q (.string "r") = .ok (Pending.hosts (.string "r") (.null (.set .string))) ∧
      (Pending.hosts (.null .string) tags).setAt q (.string "r") =
        .ok (Pending.hosts (.string "r") tags) ∧
      (Pending.hosts (.string "r") (.null (.set .string))).setAt p (.string "a") =
        .ok (Pending.hosts (.string "r") tags) := by
  intro v p q tags
  have hne : PathStep.name "tags" ≠ .name "id" := by simp
  have hp : ∀ e, .element e ∉ p.take 3 := by simp [p, Pending.hostMember]
  have hq : ∀ e, .element e ∉ q.take 3 := by simp [q, Pending.hostMember]
  have hw : v.setAt p (.string "a") = .ok (Pending.hosts (.null .string) tags) := by
    with_unfolding_all rfl
  have hx : v.setAt q (.string "r") =
      .ok (Pending.hosts (.string "r") (.null (.set .string))) := by
    with_unfolding_all rfl
  obtain ⟨y, hy, hy'⟩ := writes_commute (k := 2) rfl rfl hne hp hq hw hx
  obtain rfl : y = Pending.hosts (.string "r") tags := by
    have hboth : (Pending.hosts (.null .string) tags).setAt q (.string "r") =
        .ok (Pending.hosts (.string "r") tags) := by with_unfolding_all rfl
    exact Except.ok.inj (hy.symm.trans hboth)
  exact ⟨rfl, rfl, hne, hp, hq, hw, hx, hy, hy'⟩

end Value
end ResourceSchema
