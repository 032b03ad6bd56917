import ResourceSchema.Proofs.Value.Write

/-!
# Reading back what was written

After a write its value is found at the same path, with each set element in the path as it stands
after the write (`atPath_setAt`). An element that a write has made equal to another one of its set
is merged with that, so that what is found is equal to the written value, not always the same.
-/

namespace ResourceSchema

/-! ## The path after a write -/

namespace PathStep

/-- The step to a child that has become `written`; other steps than set elements stay. -/
def after : PathStep → Except SetError Value → PathStep
  | .element _, .ok written => .element written
  | s, _ => s

/-- Steps that differ in the value of a set element at most. -/
inductive Alike : PathStep → PathStep → Prop
  | refl (s : PathStep) : Alike s s
  | element (v w : Value) : Alike (.element v) (.element w)

theorem alike_after (s : PathStep) (written : Except SetError Value) :
    Alike s (s.after written) := by
  cases s <;> cases written <;> first | exact .refl _ | exact .element _ _

theorem Alike.of_same {s s' : PathStep} (h : s.same s' = true) : Alike s s' := by
  rcases same_cases h with rfl | ⟨v, w, rfl, rfl, _⟩
  · exact .refl s
  · exact .element v w

theorem Alike.symm {s s' : PathStep} (h : Alike s s') : Alike s' s := by
  cases h with
  | refl => exact .refl _
  | element v w => exact .element w v

theorem Alike.trans {s s' s'' : PathStep} (h : Alike s s') (h' : Alike s' s'') : Alike s s'' := by
  cases h with
  | refl => exact h'
  | element v w =>
    cases h' with
    | refl => exact .element v w
    | element _ x => exact .element v x

end PathStep

/-- Paths that differ in the values of set elements at most. -/
abbrev Path.Alike (p q : Path) : Prop := List.Forall₂ PathStep.Alike p q

theorem Path.Alike.of_same {p q : Path} (h : Path.same p q = true) : Path.Alike p q :=
  (Path.same_iff.1 h).imp fun _ _ => .of_same

theorem Path.Alike.symm {p q : Path} (h : Path.Alike p q) : Path.Alike q p :=
  h.flip.imp fun _ _ => .symm

theorem Path.Alike.trans {p q r : Path} (h : Path.Alike p q) (h' : Path.Alike q r) :
    Path.Alike p r := by
  induction h generalizing r with
  | nil => exact h'
  | cons hs _ ih =>
    cases h' with
    | cons hs' h' => exact .cons (hs.trans hs') (ih h')

/-- Without set elements there is one path only. -/
theorem Path.Alike.eq {p q : Path} (h : Path.Alike p q) (hp : ∀ v, PathStep.element v ∉ p) :
    p = q := by
  induction h with
  | nil => rfl
  | cons hs _ ih =>
    cases hs with
    | refl => rw [ih fun v hv => hp v (List.mem_cons_of_mem _ hv)]
    | element v w => exact absurd List.mem_cons_self (hp v)

namespace Value

variable {v w c new child : Value} {s : PathStep} {p q : Path} {items : List Value}

/-- The path of a write with each set element as it stands after the write. -/
def pathAfter (v : Value) : Path → Value → Path
  | [], _ => []
  | s :: p, new =>
    match v.openAt s with
    | .ok child => s.after (child.setAt p new) :: child.pathAfter p new
    | .error _ => s :: p

theorem alike_pathAfter (v : Value) (p : Path) (new : Value) :
    Path.Alike p (v.pathAfter p new) := by
  induction p generalizing v with
  | nil => exact .nil
  | cons s p ih =>
    rw [pathAfter]
    cases v.openAt s with
    | ok child => exact .cons (PathStep.alike_after s _) (ih child)
    | error e => exact List.forall₂_same.2 fun s _ => .refl s

/-! ## One step -/

theorem exists_find?_putElement {position : Option Nat}
    (hp : ∀ i, position = some i → i < items.length) (c : Value) :
    ∃ x, (putElement items position c).find? (fun v => v.same c) = some x ∧ x.same c = true := by
  have hmem : ∃ x ∈ putElement items position c, x.same c = true := by
    obtain ⟨others, _, ⟨hx, heq⟩ | ⟨_, hperm⟩⟩ := putElement_cases hp c
    · rw [heq]
      exact hx
    · exact ⟨c, hperm.mem_iff.2 List.mem_cons_self, same_refl c⟩
  obtain ⟨x, hx, hxc⟩ := hmem
  obtain ⟨y, hy, _⟩ := find?_same hx hxc (same_refl c)
  exact ⟨y, hy, same_of_find? hy⟩

/-- The child that was put in a place is found there, or one that it was merged with. -/
theorem step_putAt (h : v.openAt s = .ok child) (c : Value) :
    ∃ x, (v.putAt s c).step (s.after (.ok c)) = .ok x ∧ x.same c = true := by
  obtain ⟨t, fresh, ht, hf, -⟩ := openAt_eq_ok h
  have hknown := isKnown_materialize ht
  rw [← materialize_ty v] at ht
  have hchild := Ty.step_eq_ok_iff.1 ht
  unfold putAt freshAt at *
  generalize v.materialize = parent at *
  cases parent <;> simp only [ty] at hchild <;> cases hchild <;> try cases hknown
  case list.index items i hi =>
    have hle : ¬(items.length : Int) < i := by
      intro hlt
      simp only [if_pos hlt] at hf
      cases hf
    obtain ⟨i, rfl⟩ := Int.eq_ofNat_of_zero_le hi
    refine ⟨c, step_eq_ok_iff_child.2 (.index ?_), same_refl c⟩
    simp only [Int.toNat_natCast]
    split
    · next hlt => rw [List.getElem?_set_self hlt]
    · next hge =>
      obtain rfl : i = items.length := by omega
      rw [List.getElem?_concat_length]
  case set.element items w =>
    obtain ⟨x, hx, hxc⟩ := exists_find?_putElement (fun i hi => findIdx?_lt hi) c
    exact ⟨x, step_eq_ok_iff_child.2 (.element hx), hxc⟩
  case map.key entries key =>
    have hfound := Keyed.lookup_insert_self key c entries
    exact ⟨c, step_eq_ok_iff_child.2 (.key hfound), same_refl c⟩
  case object.name fields name hl =>
    have hfound := Keyed.lookup_assign_self name c fields
    exact ⟨c, step_eq_ok_iff_child.2 (.name hfound), same_refl c⟩

/-! ## Whole paths -/

theorem atPath_setAt (h : v.setAt p new = .ok w) :
    ∃ x, w.atPath (v.pathAfter p new) = .ok x ∧ x.same new = true := by
  induction p generalizing v w with
  | nil =>
    rw [setAt] at h
    split at h
    · cases h; exact ⟨new, rfl, same_refl new⟩
    · cases h
  | cons s p ih =>
    obtain ⟨child, c, hopen, hset, rfl⟩ := setAt_cons_eq_ok.1 h
    obtain ⟨found, hstep, hfound⟩ := step_putAt hopen c
    obtain ⟨x, hx, hnew⟩ := ih hset
    -- What the step finds equals the written child, so the rest of the path reads the same in it.
    obtain ⟨y, hy, hxy⟩ := atPath_congr (same_symm hfound) (Path.same_refl _) hx
    rw [pathAfter, hopen]
    refine ⟨y, ?_, same_trans (same_symm hxy) hnew⟩
    simp only [hset]
    rw [atPath, hstep]
    exact hy

end Value
end ResourceSchema
