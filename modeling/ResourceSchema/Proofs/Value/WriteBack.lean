import ResourceSchema.Proofs.Value.Interchange
import ResourceSchema.Proofs.Value.ReadBack
import ResourceSchema.Proofs.Value.Writable

/-!
# Writing back what is there

To write back what a path leads to changes nothing, as long as each set element on the way is the
only one of its set that equals it (`setAt_atPath`). An element that another one equals, which takes
unknowns in them, is taken out of the set and not put in again beside that one: the set has lost it.
-/

namespace ResourceSchema

namespace Value

variable {v w x z c : Value} {s : PathStep} {p : Path} {items : List Value}

/-- A step into a set leads to its only element that equals the one searched for. -/
def Sole (v : Value) (s : PathStep) : Prop :=
  match v, s with
  | .set _ items, .element w => (items.countP fun x => x.same w) ≤ 1
  | _, _ => True

/-- On a path each element of a set is the only one of its set that equals it. -/
def SoleAlong (v : Value) (p : Path) : Prop :=
  ∀ before s after x, p = before ++ s :: after → v.atPath before = .ok x → x.Sole s

theorem soleAlong_nil (v : Value) : v.SoleAlong [] := by
  rintro (_ | ⟨_, _⟩) s after x hp _ <;> cases hp

theorem soleAlong_cons (h : v.step s = .ok z) :
    v.SoleAlong (s :: p) ↔ v.Sole s ∧ z.SoleAlong p := by
  have hpath : ∀ q, v.atPath (s :: q) = z.atPath q := fun q => by
    rw [atPath, h]
    rfl
  constructor
  · refine fun hall => ⟨hall [] s p v rfl rfl, ?_⟩
    rintro before s' after x rfl hx
    exact hall (s :: before) s' after x rfl ((hpath before).trans hx)
  · rintro ⟨hs, hp⟩ before s' after x heq hx
    rcases before with _ | ⟨s'', before⟩
    · cases heq
      cases hx
      exact hs
    · cases heq
      exact hp before s' after x rfl ((hpath before).symm.trans hx)

/-! ## One step -/

theorem count_classes (items : List Value) (w : Value) :
    (classes items).count w.classOf = items.countP fun x => x.same w := by
  have htest : (fun c => c == w.classOf) ∘ classOf = fun x : Value => x.same w := by
    funext x
    rw [Bool.eq_iff_iff, Function.comp, beq_iff_eq, classOf_eq_iff]
  rw [classes, Multiset.coe_count, List.count, List.countP_map, htest]

/-- To put a class in where one was taken out gives the classes back only if it is that class, and
was there once. -/
theorem eq_of_ndinsert_erase {α : Type} [DecidableEq α] {M : Multiset α} {a b : α} (ha : a ∈ M)
    (h : (M.erase a).ndinsert b = M) : b = a ∧ M.count a ≤ 1 := by
  by_cases hb : b ∈ M.erase a
  · rw [Multiset.ndinsert_of_mem hb] at h
    exact absurd (congrArg Multiset.card h) (Multiset.card_erase_lt_of_mem ha).ne
  · rw [Multiset.ndinsert_of_notMem hb] at h
    obtain rfl : b = a := (Multiset.cons_inj_left _).1 (h.trans (Multiset.cons_erase ha).symm)
    have hcount := Multiset.count_eq_zero.2 hb
    rw [Multiset.count_erase_self] at hcount
    exact ⟨rfl, by omega⟩

/-- Nothing stops a write where a read goes on. -/
theorem no_obstacle_of_step (hv : v.WellFormed) (h : v.step s = .ok z) (e : SetError) :
    ¬Obstacle v s e := by
  intro ho
  cases ho with
  | index hlt =>
    cases step_eq_ok_iff_child.1 h with
    | @index t items i z hi =>
      have hbound := (List.getElem?_eq_some_iff.1 hi).1
      simp only [listLength] at hlt
      omega
  | @element _ t ht hne =>
    have hty := (step_spec hv h).1
    rw [ht] at hty
    cases hty
    exact hne (ty_eq_of_same (same_of_step_element h)).symm

theorem openAt_of_step (hv : v.WellFormed) (h : v.step s = .ok z) : v.openAt s = .ok z := by
  obtain ⟨⟨t, ht⟩, _⟩ := step_eq_ok_iff.1 h
  rw [openAt_eq_meet ht (no_obstacle_of_step hv h), meet, h]

theorem putElement_self (hx : (items.find? fun v => v.same w) = some x)
    (hs : (items.countP fun v => v.same w) ≤ 1) :
    putElement items (items.findIdx? fun v => v.same w) x = items := by
  have hxw : x.same w = true := same_of_find? hx
  have hany : ¬(items.eraseP fun v => v.same w).any (fun v => v.same x) = true := by
    intro hany
    obtain ⟨y, hy, hyx⟩ := List.any_eq_true.1 hany
    have hmem := classOf_mem_classes.2 ⟨y, hy, same_trans hyx hxw⟩
    rw [classes_eraseP, ← Multiset.count_pos, Multiset.count_erase_self, count_classes] at hmem
    omega
  rw [List.find?_eq_bind_findIdx?_getElem?] at hx
  obtain ⟨i, hi, hget⟩ := Option.bind_eq_some_iff.1 hx
  obtain ⟨hlt, rfl⟩ := List.getElem?_eq_some_iff.1 hget
  rw [putElement_eq, if_neg hany, List.eraseP_eq_eraseIdx, hi]
  exact List.insertIdx_eraseIdx_getElem hlt

/-- A child put back where it was found leaves the value as it is. -/
theorem putAt_self (hv : v.WellFormed) (h : v.step s = .ok z) (hs : v.Sole s) :
    v.putAt s z = v := by
  cases step_eq_ok_iff_child.1 h with
  | name hz => exact congrArg Value.object (Keyed.assign_eq_self hz)
  | index hz =>
    obtain ⟨hlt, rfl⟩ := List.getElem?_eq_some_iff.1 hz
    simp only [putAt, materialize, Int.toNat_natCast, if_pos hlt, List.set_getElem_self]
  | element hz => exact congrArg (Value.set _) (putElement_self hz hs)
  | key hz =>
    exact congrArg (Value.map _) (Keyed.insert_eq_self (wellFormed_map_iff.1 hv).2.1 hz)

theorem same_of_putAt_same (hv : v.WellFormed) (h : v.step s = .ok z)
    (hsame : (v.putAt s c).same v = true) : c.same z = true ∧ v.Sole s := by
  cases s with
  | element w =>
    have hzw : z.same w = true := same_of_step_element h
    cases step_eq_ok_iff_child.1 h with
    | @element t items _ _ hz =>
      have hmem : w.classOf ∈ classes items :=
        classOf_mem_classes.2 ⟨z, List.mem_of_find?_eq_some hz, hzw⟩
      cases sameParts_of_same hsame with
      | set hp =>
        have hclasses := pairUp_iff_classes.1 hp
        rw [classes_putElement] at hclasses
        obtain ⟨hcw, hcount⟩ := eq_of_ndinsert_erase hmem hclasses
        rw [count_classes] at hcount
        exact ⟨same_trans (classOf_eq_iff.1 hcw) (same_symm hzw), hcount⟩
  | _ =>
    obtain ⟨x, hx, hxc⟩ := step_putAt (openAt_of_step hv h) c
    obtain ⟨x', hx', hxx'⟩ := step_congr hsame (PathStep.same_refl _) hx
    obtain rfl : z = x' := Except.ok.inj (h.symm.trans hx')
    refine ⟨same_trans (same_symm hxc) hxx', ?_⟩
    cases v <;> trivial

/-- A child put back for another leaves an equal value only if it equals that one, and is not lost
beside an equal element. -/
theorem same_putAt_iff (hv : v.WellFormed) (h : v.step s = .ok z) :
    (v.putAt s c).same v = true ↔ c.same z = true ∧ v.Sole s := by
  refine ⟨same_of_putAt_same hv h, fun ⟨hc, hs⟩ => ?_⟩
  have hput := putAt_congr (same_refl v) s.same_refl hc
  rwa [putAt_self hv h hs] at hput

/-! ## Elements without unknowns -/

/-- At most one element of a set equals a fully known value. -/
theorem countP_le_one (hd : items.Pairwise Apart) (hw : w.isFullyKnown = true) :
    (items.countP fun x => x.same w) ≤ 1 := by
  induction hd with
  | nil => exact Nat.zero_le 1
  | @cons x rest hx hrest ih =>
    rw [List.countP_cons]
    split
    · next hxw =>
      have hknown : x.isFullyKnown = true := by rw [isFullyKnown_eq_of_same hxw, hw]
      have hnone : (rest.countP fun y => y.same w) = 0 := by
        refine List.countP_eq_zero.2 fun y hy hyw => ?_
        have hne := hx y hy hknown
        rw [same_trans hxw (same_symm hyw)] at hne
        cases hne
      omega
    · exact ih

/-- A path whose set elements have no unknowns leads to elements that nothing else in their sets
equals. -/
theorem soleAlong_of_fullyKnown (hv : v.WellFormed)
    (hp : ∀ x, .element x ∈ p → x.isFullyKnown = true) : v.SoleAlong p := by
  rintro before s after x rfl hx
  cases x <;> cases s <;> try trivial
  next t items w =>
  have hd := (wellFormed_set_iff.1 (atPath_spec hv hx).2).2.2
  exact countP_le_one hd (hp w (List.mem_append_right before List.mem_cons_self))

/-! ## Whole paths -/

theorem setAt_atPath (hv : v.WellFormed) (h : v.atPath p = .ok w) :
    ∃ v', v.setAt p w = .ok v' ∧ (v'.same v = true ↔ v.SoleAlong p) ∧
      (v.SoleAlong p → v' = v) := by
  induction p generalizing v with
  | nil =>
    obtain rfl : v = w := Except.ok.inj h
    refine ⟨v, if_pos rfl, ?_, fun _ => rfl⟩
    exact iff_of_true (same_refl v) (soleAlong_nil v)
  | cons s p ih =>
    obtain ⟨z, hz, hw⟩ := Except.bind_eq_ok.1 h
    obtain ⟨z', hset, hsame, heq⟩ := ih (step_spec hv hz).2 hw
    refine ⟨v.putAt s z', ?_, ?_, fun hall => ?_⟩
    · exact setAt_cons_eq_ok.2 ⟨z, z', openAt_of_step hv hz, hset, rfl⟩
    · rw [same_putAt_iff hv hz, hsame, soleAlong_cons hz, and_comm]
    · obtain ⟨hs, hp⟩ := (soleAlong_cons hz).1 hall
      rw [heq hp, putAt_self hv hz hs]

end Value

/-! ## Sets with equal elements -/

namespace Pending

theorem increasing_rule : ["id", "tags"].Pairwise (· < ·) := by decide +kernel

theorem wellFormed_rule {tags : List String} (h : tags.Nodup) : (rule tags).WellFormed := by
  have htags : (Value.set .string (tags.map .string)).WellFormed := by
    refine Value.wellFormed_set_iff.2 ⟨trivial, ?_, ?_⟩
    · simp [Value.ty, Value.WellFormed]
    · exact List.pairwise_map.2 (h.imp fun hne _ => by simpa [Value.same] using hne)
  refine Value.wellFormed_object_iff.2 ⟨Keyed.increasing_iff_keys.2 increasing_rule, ?_⟩
  simpa [Value.WellFormed, Ty.WellFormed] using htags

/-- A set may hold rules that are equal so far, as none of them is fully known. -/
theorem wellFormed_rules {items : List (List String)} (h : ∀ tags ∈ items, tags.Nodup) :
    (rules items).WellFormed := by
  refine Value.wellFormed_set_iff.2 ⟨?_, ?_, List.pairwise_map.2 (List.pairwise_of_forall ?_)⟩
  · exact Ty.wellFormed_object_iff.2
      ⟨Keyed.increasing_iff_keys.2 increasing_rule, by simp [Ty.WellFormed]⟩
  · exact List.forall_mem_map.2 fun tags htags => ⟨rfl, wellFormed_rule (h tags htags)⟩
  · intro tags others hknown
    cases hknown

end Pending

namespace Value

/-- To write back what a path leads to succeeds, and changes nothing if every set element on the way
is the only one of its set that equals it, which holds for elements without unknowns. Otherwise the
value that results does not equal the one before. -/
theorem write_back {v w : Value} {p : Path} (hv : v.WellFormed) (h : v.atPath p = .ok w) :
    (∃ v', v.setAt p w = .ok v' ∧ (v'.same v = true ↔ v.SoleAlong p) ∧
      (v.SoleAlong p → v' = v)) ∧
    ((∀ x, .element x ∈ p → x.isFullyKnown = true) → v.SoleAlong p) :=
  ⟨setAt_atPath hv h, soleAlong_of_fullyKnown hv⟩

/-- A rule beside two others that are equal so far. -/
theorem write_back_beside_twins :
    let v := Pending.rules [["a"], ["a"], ["b", "c"]]
    let p := Pending.tagOf ["c", "b"] "c"
    v.WellFormed ∧ v.atPath p = .ok (.string "c") ∧ v.SoleAlong p ∧
      v.setAt p (.string "c") = .ok v := by
  intro v p
  have hv : v.WellFormed := Pending.wellFormed_rules (by decide)
  have hw : v.atPath p = .ok (.string "c") := by with_unfolding_all rfl
  obtain ⟨⟨v', hset, hsame, heq⟩, -⟩ := write_back hv hw
  have hback : (v.setAt p (.string "c")).toOption.any (fun x => x.same v) = true := by
    decide +kernel
  rw [hset] at hback
  have hsole : v.SoleAlong p := hsame.1 hback
  exact ⟨hv, hw, hsole, heq hsole ▸ hset⟩

/-- Of two rules that are equal so far one is lost when the id of the other is written back. -/
theorem write_back_loses_twin :
    let v := Pending.rules [["a"], ["a"]]
    let p : Path := [.element (Pending.rule ["a"]), .name "id"]
    v.WellFormed ∧ v.atPath p = .ok (.unknown .string) ∧
      v.setAt p (.unknown .string) = .ok (Pending.rules [["a"]]) ∧
      (Pending.rules [["a"]]).same v = false := by
  intro v p
  refine ⟨Pending.wellFormed_rules (by decide), ?_, ?_, by decide +kernel⟩
  · with_unfolding_all rfl
  · with_unfolding_all rfl

end Value
end ResourceSchema
