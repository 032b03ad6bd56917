import ResourceSchema.Proofs.Except
import ResourceSchema.Proofs.Value.Step

/-!
# Writing along paths

A write opens a value at the first step, writes into the child that it finds there and puts the new
child in its place (`setAt_cons`). What holds of opening and putting back holds of a whole write by
induction over the path: it keeps the type of the value and its well-formedness (`setAt_spec`).
-/

namespace ResourceSchema.Value

variable {t : Ty} {v w c new : Value} {s : PathStep} {p : Path} {items : List Value}

/-- The value with data in it: where it is null or unknown, no more than its type asks for. -/
def materialize : Value → Value
  | .null t => (emptyOf? t).getD (.null t)
  | .unknown t => (emptyOf? t).getD (.unknown t)
  | v => v

/-- The child that a write makes where there is none, or why there cannot be one. -/
def freshAt (v : Value) (s : PathStep) (childTy : Ty) : Except SetError Value :=
  match v.materialize, s with
  | .list _ items, .index i =>
    if items.length < i then .error (.indexOutOfRange i items.length) else .ok (.null childTy)
  | .set _ _, .element w =>
    if w.ty ≠ childTy then .error (.typeMismatch childTy w.ty) else .ok w
  | _, _ => .ok (.null childTy)

/-- The child that a write through a step goes on with: the one that is there, or a new one. -/
def openAt (v : Value) (s : PathStep) : Except SetError Value := do
  let childTy ← (v.ty.step s).mapError .step
  let fresh ← v.freshAt s childTy
  return (v.materialize.child? s).getD fresh

/-- The value with a child in the place a step leads to. -/
def putAt (v : Value) (s : PathStep) (c : Value) : Value :=
  match v.materialize, s with
  | .object fields, .name name => .object (Keyed.assign name c fields)
  | .list t items, .index i =>
    .list t (if i.toNat < items.length then items.set i.toNat c else items ++ [c])
  | .map t entries, .key key => .map t (Keyed.insert key c entries)
  | .set t items, .element w => .set t (putElement items (items.findIdx? fun v => v.same w) c)
  | parent, _ => parent

theorem ty_emptyOf? (h : emptyOf? t = some v) : v.ty = t := by
  cases t <;> cases h <;> try rfl
  next attributes => rw [ty, fieldTypes_nullFields]

@[simp] theorem materialize_ty (v : Value) : v.materialize.ty = v.ty := by
  have hempty : ∀ t w, w.ty = t → ((emptyOf? t).getD w).ty = t := by
    intro t w hw
    cases h : emptyOf? t with
    | none => exact hw
    | some parent => exact ty_emptyOf? h
  cases v <;> try rfl
  · exact hempty _ _ rfl
  · exact hempty _ _ rfl

/-- A value that takes a step has data in it once it is materialized. -/
theorem isKnown_materialize (ht : v.ty.step s = .ok t) : v.materialize.isKnown = true := by
  have hc := Ty.step_eq_ok_iff.1 ht
  cases v <;> simp only [ty] at hc <;> cases hc <;> rfl

/-- A write through a null or an unknown is one into the data that its type asks for. -/
theorem setAt_materialize (ht : v.ty.step s = .ok t) (p : Path) (new : Value) :
    v.setAt (s :: p) new = v.materialize.setAt (s :: p) new := by
  have hc := Ty.step_eq_ok_iff.1 ht
  rw [setAt, setAt, materialize_ty, ht]
  cases v <;> simp only [ty] at hc <;> cases hc <;> rfl

/-- A write goes one step at a time. -/
theorem setAt_cons (v : Value) (s : PathStep) (p : Path) (new : Value) :
    v.setAt (s :: p) new = (v.openAt s).bind fun child =>
      (child.setAt p new).bind fun c => .ok (v.putAt s c) := by
  rw [openAt]
  cases ht : v.ty.step s with
  | error e => rw [setAt, ht]; rfl
  | ok childTy =>
    have hknown := isKnown_materialize ht
    rw [setAt_materialize ht, setAt, materialize_ty, ht]
    rw [← materialize_ty] at ht
    have hc := Ty.step_eq_ok_iff.1 ht
    unfold putAt freshAt
    generalize v.materialize = parent at *
    cases parent <;> simp only [ty] at hc <;> cases hc <;> try cases hknown
    case ok.list.index.refl items i hi =>
      show (if i < 0 ∨ (items.length : Int) < i then _ else _) =
        Except.bind (Except.bind (if (items.length : Int) < i then _ else _) _) _
      simp only [child?, itemAt?, if_neg (Int.not_lt.2 hi)]
      by_cases hlen : (items.length : Int) < i
      · rw [if_pos (.inr hlen), if_pos hlen]
        rfl
      · rw [if_neg (by omega), if_neg hlen]
        cases hget : items[i.toNat]? with
        | some child =>
          have hlt : i.toNat < items.length := (List.getElem?_eq_some_iff.1 hget).1
          simp only [if_pos hlt]
          rfl
        | none =>
          have hge : ¬i.toNat < items.length := Nat.not_lt.2 (List.getElem?_eq_none_iff.1 hget)
          simp only [if_neg hge]
          rfl
    case ok.set.element.refl items w =>
      show (if w.ty ≠ childTy then _ else _) =
        Except.bind (Except.bind (if w.ty ≠ childTy then _ else _) _) _
      rw [child?, List.find?_eq_bind_findIdx?_getElem?]
      split <;> rfl
    all_goals rfl

theorem setAt_of_openAt (h : v.openAt s = .ok child) (p : Path) (new : Value) :
    v.setAt (s :: p) new = (child.setAt p new).map (v.putAt s) := by
  rw [setAt_cons, h]
  show (child.setAt p new).bind _ = _
  cases child.setAt p new <;> rfl

theorem setAt_cons_eq_ok : v.setAt (s :: p) new = .ok w ↔
    ∃ child c, v.openAt s = .ok child ∧ child.setAt p new = .ok c ∧ w = v.putAt s c := by
  rw [setAt_cons, Except.bind_eq_ok]
  constructor
  · rintro ⟨child, hopen, h⟩
    obtain ⟨c, hset, h⟩ := Except.bind_eq_ok.1 h
    cases h
    exact ⟨child, c, hopen, hset, rfl⟩
  · rintro ⟨child, c, hopen, hset, rfl⟩
    exact ⟨child, hopen, Except.bind_eq_ok.2 ⟨c, hset, rfl⟩⟩

theorem openAt_eq_ok (h : v.openAt s = .ok c) : ∃ t fresh, v.ty.step s = .ok t ∧
    v.freshAt s t = .ok fresh ∧ c = (v.materialize.child? s).getD fresh := by
  obtain ⟨t, ht, h⟩ := Except.bind_eq_ok.1 h
  obtain ⟨fresh, hf, h⟩ := Except.bind_eq_ok.1 h
  cases h
  exact ⟨t, fresh, Except.mapError_eq_ok.1 ht, hf, rfl⟩

/-! ## The type and the well-formedness of what is written -/

theorem wellFormed_nullFields {attributes : List (String × Ty)}
    (h : (Ty.object attributes).WellFormed) :
    (Value.object (nullFields attributes)).WellFormed := by
  obtain ⟨hinc, hattrs⟩ := Ty.wellFormed_object_iff.1 h
  refine wellFormed_object_iff.2 ⟨?_, fun e he => ?_⟩
  · rw [Keyed.increasing_iff_keys, keys_nullFields]
    exact Keyed.increasing_iff_keys.1 hinc
  · obtain ⟨a, ha, rfl⟩ := List.mem_map.1 he
    exact hattrs a ha

theorem wellFormed_emptyOf? (ht : t.WellFormed) (h : emptyOf? t = some v) : v.WellFormed := by
  cases t <;> cases h
  · exact wellFormed_list_iff.2 ⟨ht, by simp⟩
  · exact wellFormed_set_iff.2 ⟨ht, by simp, .nil⟩
  · exact wellFormed_map_iff.2 ⟨ht, .nil, by simp⟩
  · exact wellFormed_nullFields ht

theorem WellFormed.materialize (hv : v.WellFormed) : v.materialize.WellFormed := by
  have hempty : ∀ t w, w.WellFormed → t.WellFormed → ((emptyOf? t).getD w).WellFormed := by
    intro t w hw ht
    cases h : emptyOf? t with
    | none => exact hw
    | some parent => exact wellFormed_emptyOf? ht h
  cases v <;> try exact hv
  · exact hempty _ _ hv hv
  · exact hempty _ _ hv hv

theorem freshAt_spec (ht : t.WellFormed) (hs : s.WellFormed) (h : v.freshAt s t = .ok c) :
    c.ty = t ∧ c.WellFormed := by
  unfold freshAt at h
  split at h
  · split at h <;> cases h
    exact ⟨rfl, ht⟩
  · split at h
    · cases h
    · next hty => cases h; exact ⟨Classical.not_not.1 hty, hs⟩
  · cases h
    exact ⟨rfl, ht⟩

theorem openAt_spec (hv : v.WellFormed) (hs : s.WellFormed) (h : v.openAt s = .ok c) :
    v.ty.step s = .ok c.ty ∧ c.WellFormed := by
  obtain ⟨t, fresh, ht, hf, rfl⟩ := openAt_eq_ok h
  cases hc : v.materialize.child? s with
  | none =>
    obtain ⟨rfl, hw⟩ := freshAt_spec (hv.ty.step ht) hs hf
    exact ⟨ht, hw⟩
  | some child =>
    obtain ⟨rfl, hw⟩ := child?_spec hv.materialize (by rw [materialize_ty, ht]) hc
    exact ⟨ht, hw⟩

/-- An element that is put into a set joins the others, unless it equals one of them. -/
theorem putElement_cases {position : Option Nat}
    (hp : ∀ i, position = some i → i < items.length) (new : Value) :
    ∃ others, others.Sublist items ∧
      (((∃ x ∈ others, x.same new = true) ∧ putElement items position new = others) ∨
        ((∀ x ∈ others, x.same new = false) ∧
          (putElement items position new).Perm (new :: others))) := by
  unfold putElement
  have hlen : ∀ others : List Value, position.getD others.length ≤ others.length →
      ((∃ x ∈ others, x.same new = true) ∧ (if others.any fun v => v.same new then others
          else others.insertIdx (position.getD others.length) new) = others) ∨
        ((∀ x ∈ others, x.same new = false) ∧ (if others.any fun v => v.same new then others
          else others.insertIdx (position.getD others.length) new).Perm (new :: others)) := by
    intro others hle
    by_cases hany : (others.any fun v => v.same new) = true
    · rw [if_pos hany]
      exact .inl ⟨List.any_eq_true.1 hany, rfl⟩
    · rw [if_neg hany]
      refine .inr ⟨fun x hx => Bool.eq_false_iff.2 fun hs => ?_, List.perm_insertIdx new others hle⟩
      exact hany (List.any_eq_true.2 ⟨x, hx, hs⟩)
  cases position with
  | none => exact ⟨items, List.Sublist.refl _, hlen items (Nat.le_refl _)⟩
  | some i =>
    refine ⟨items.eraseIdx i, List.eraseIdx_sublist items i, hlen _ ?_⟩
    have := hp i rfl
    rw [Option.getD_some, List.length_eraseIdx]
    split <;> omega

theorem findIdx?_lt {i : Nat} (h : (items.findIdx? fun v => v.same w) = some i) :
    i < items.length :=
  (List.findIdx?_eq_some_iff_getElem.1 h).1

theorem wellFormed_putElement {position : Option Nat}
    (hp : ∀ i, position = some i → i < items.length) (hv : (Value.set t items).WellFormed)
    (hty : c.ty = t) (hc : c.WellFormed) :
    (Value.set t (putElement items position c)).WellFormed := by
  obtain ⟨ht, hitems, hapart⟩ := wellFormed_set_iff.1 hv
  obtain ⟨others, hsub, ⟨_, heq⟩ | ⟨hnew, hperm⟩⟩ := putElement_cases hp c
  · rw [heq]
    exact wellFormed_set_iff.2 ⟨ht, fun v hm => hitems v (hsub.subset hm), hapart.sublist hsub⟩
  · refine wellFormed_set_iff.2 ⟨ht, fun v hm => ?_, ?_⟩
    · rcases List.mem_cons.1 (hperm.mem_iff.1 hm) with rfl | hm
      · exact ⟨hty, hc⟩
      · exact hitems v (hsub.subset hm)
    · refine (hperm.pairwise_iff (R := Apart) Apart.symm).2 ?_
      refine List.pairwise_cons.2 ⟨fun v hm => ?_, hapart.sublist hsub⟩
      exact (apart_of_same_eq_false (hnew v hm)).symm

/-- A child of the type that the step leads to keeps the type of the value and its rules. -/
theorem putAt_spec (hv : v.WellFormed) (ht : v.ty.step s = .ok c.ty) (hc : c.WellFormed) :
    (v.putAt s c).ty = v.ty ∧ (v.putAt s c).WellFormed := by
  have hknown := isKnown_materialize ht
  have hm := hv.materialize
  rw [← materialize_ty v] at ht ⊢
  have hchild := Ty.step_eq_ok_iff.1 ht
  unfold putAt
  generalize v.materialize = parent at *
  cases parent <;> simp only [ty] at hchild <;> generalize hty : c.ty = u at hchild <;>
    cases hchild <;> try cases hknown
  case list.index.refl items i hi =>
    obtain ⟨hwf, hitems⟩ := wellFormed_list_iff.1 hm
    refine ⟨rfl, wellFormed_list_iff.2 ⟨hwf, ?_⟩⟩
    intro x hx
    split at hx
    · rcases List.mem_or_eq_of_mem_set hx with hx | rfl
      · exact hitems x hx
      · exact ⟨hty, hc⟩
    · rcases List.mem_append.1 hx with hx | hx
      · exact hitems x hx
      · obtain rfl := List.mem_singleton.1 hx
        exact ⟨hty, hc⟩
  case set.element.refl items w =>
    exact ⟨rfl, wellFormed_putElement (fun i hi => findIdx?_lt hi) hm hty hc⟩
  case map.key.refl entries key =>
    obtain ⟨hwf, hinc, hentries⟩ := wellFormed_map_iff.1 hm
    refine ⟨rfl, wellFormed_map_iff.2 ⟨hwf, Keyed.increasing_insert hinc, ?_⟩⟩
    intro e he
    rcases Keyed.mem_insert he with rfl | he
    · exact ⟨hty, hc⟩
    · exact hentries e he
  case object.name.refl fields name hl =>
    obtain ⟨hwf, hkept⟩ := wellFormed_assign hm (by rw [hl, hty]) hc
    exact ⟨congrArg Ty.object hkept, hwf⟩

/-- A write keeps the type of a value and leaves it well formed. -/
theorem setAt_spec (hv : v.WellFormed) (hp : p.WellFormed) (hnew : new.WellFormed)
    (h : v.setAt p new = .ok w) : w.ty = v.ty ∧ w.WellFormed := by
  induction p generalizing v w with
  | nil =>
    rw [setAt] at h
    split at h
    · next hty => cases h; exact ⟨hty, hnew⟩
    · cases h
  | cons s p ih =>
    obtain ⟨hs, hp⟩ := List.forall_mem_cons.1 hp
    obtain ⟨child, c, hopen, hset, rfl⟩ := setAt_cons_eq_ok.1 h
    obtain ⟨hstep, hchild⟩ := openAt_spec hv hs hopen
    obtain ⟨hty, hc⟩ := ih hchild hp hset
    exact putAt_spec hv (by rw [hstep, hty]) hc

end ResourceSchema.Value
