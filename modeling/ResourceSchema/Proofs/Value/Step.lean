import ResourceSchema.Proofs.Except
import ResourceSchema.Proofs.Value.Equality

/-!
# Steps through values

A step that fits the type of a value finds a child, or says what is missing (`step_eq`). Children of
a well-formed value are well formed and have the type that the step through its type leads to.
Equal values have equal children at equal steps (`child?_congr`), and so at equal paths.
-/

namespace ResourceSchema

/-! ## Equality of steps -/

namespace PathStep

variable {s s' s'' : PathStep}

@[simp] theorem same_refl (s : PathStep) : s.same s = true := by
  cases s <;> simp [same]

theorem same_symm (h : s.same s' = true) : s'.same s = true := by
  cases s <;> cases s' <;> simp_all [same, Value.same_symm]

theorem same_trans (h : s.same s' = true) (h' : s'.same s'' = true) : s.same s'' = true := by
  cases s <;> cases s' <;> cases s'' <;> simp only [same, Bool.false_eq_true, beq_iff_eq] at *
  · exact h.trans h'
  · exact h.trans h'
  · exact h.trans h'
  · exact Value.same_trans h h'

theorem same_cases (h : s.same s' = true) :
    s = s' ∨ ∃ v w, s = .element v ∧ s' = .element w ∧ v.same w = true := by
  cases s <;> cases s' <;> simp_all [same]

/-- A set element that a step carries is well formed. -/
def WellFormed : PathStep → Prop
  | .element v => v.WellFormed
  | _ => True

end PathStep

/-- All set elements on the path are well formed. -/
def Path.WellFormed (p : Path) : Prop := ∀ s ∈ p, s.WellFormed

theorem Ty.step_congr {t u : Ty} {s s' : PathStep} (hs : s.same s' = true)
    (h : t.step s = .ok u) : t.step s' = .ok u := by
  rcases PathStep.same_cases hs with rfl | ⟨v, w, rfl, rfl, _⟩
  · exact h
  · cases Ty.step_eq_ok_iff.1 h
    rfl

namespace Path

variable {p q : Path} {s s' : PathStep}

@[simp] theorem same_cons : Path.same (s :: p) (s' :: q) = true ↔
    s.same s' = true ∧ Path.same p q = true := by
  rw [Path.same, List.isEqv, Bool.and_eq_true]
  rfl

@[simp] theorem same_refl (p : Path) : Path.same p p = true := by
  induction p with
  | nil => rfl
  | cons s p ih => simp [ih]

/-- Paths are equal step by step. -/
theorem same_iff : Path.same p q = true ↔ List.Forall₂ (fun s s' => s.same s' = true) p q := by
  induction p generalizing q with
  | nil =>
    cases q with
    | nil => exact iff_of_true rfl .nil
    | cons s' q => exact iff_of_false Bool.false_ne_true nofun
  | cons s p ih =>
    cases q with
    | nil => exact iff_of_false Bool.false_ne_true nofun
    | cons s' q => simp [ih]

theorem same_append {p' q' : Path} (h : Path.same p q = true) (h' : Path.same p' q' = true) :
    Path.same (p ++ p') (q ++ q') = true :=
  same_iff.2 (List.rel_append (same_iff.1 h) (same_iff.1 h'))

theorem length_eq_of_same (h : Path.same p q = true) : p.length = q.length :=
  (same_iff.1 h).length_eq

theorem same_symm (h : Path.same p q = true) : Path.same q p = true :=
  same_iff.2 ((same_iff.1 h).flip.imp fun _ _ => PathStep.same_symm)

theorem same_trans {r : Path} (h : Path.same p q = true) (h' : Path.same q r = true) :
    Path.same p r = true := by
  rw [same_iff] at h
  induction h generalizing r with
  | nil => exact h'
  | cons hs _ ih =>
    cases r with
    | nil => cases h'
    | cons s r =>
      obtain ⟨hs', h'⟩ := same_cons.1 h'
      exact same_cons.2 ⟨PathStep.same_trans hs hs', ih h'⟩

end Path

/-! ## Children -/

namespace Value

theorem forall₂_exists_right {α β : Type} {R : α → β → Prop} {xs : List α} {ys : List β}
    (hm : List.Forall₂ R xs ys) {x : α} (hx : x ∈ xs) : ∃ y ∈ ys, R x y := by
  induction hm with
  | nil => cases hx
  | cons hxy _ ih =>
    rcases List.mem_cons.1 hx with rfl | hx
    · exact ⟨_, List.mem_cons_self, hxy⟩
    · obtain ⟨y, hy, hr⟩ := ih hx
      exact ⟨y, List.mem_cons_of_mem _ hy, hr⟩

theorem forall₂_exists_left {α β : Type} {R : α → β → Prop} {xs : List α} {ys : List β}
    (hm : List.Forall₂ R xs ys) {y : β} (hy : y ∈ ys) : ∃ x ∈ xs, R x y :=
  forall₂_exists_right hm.flip hy

theorem forall₂_imp_of_mem {α β : Type} {R S : α → β → Prop} {xs : List α} {ys : List β}
    (hm : List.Forall₂ R xs ys) (h : ∀ x ∈ xs, ∀ y ∈ ys, R x y → S x y) : List.Forall₂ S xs ys := by
  induction hm with
  | nil => exact .nil
  | cons hxy _ ih =>
    refine .cons (h _ List.mem_cons_self _ List.mem_cons_self hxy) (ih fun x hx y hy => ?_)
    exact h x (List.mem_cons_of_mem _ hx) y (List.mem_cons_of_mem _ hy)

/-- Where what is related to an element is its image, of an element that has a property, lists are
related when all elements have the property and the one list is the image of the other. -/
theorem forall₂_iff_map {α β : Type} {R : α → β → Prop} {P : α → Prop} {f : α → β} {xs : List α}
    {ys : List β} (h : ∀ x ∈ xs, ∀ y, R x y ↔ P x ∧ y = f x) :
    List.Forall₂ R xs ys ↔ (∀ x ∈ xs, P x) ∧ ys = xs.map f := by
  induction xs generalizing ys with
  | nil => simp
  | cons x xs ih =>
    obtain ⟨hx, hxs⟩ := List.forall_mem_cons.1 h
    rw [List.forall_mem_cons, List.map_cons]
    constructor
    · rintro (_ | ⟨hR, hrest⟩)
      obtain ⟨hP, rfl⟩ := (hx _).1 hR
      obtain ⟨hall, rfl⟩ := (ih hxs).1 hrest
      exact ⟨⟨hP, hall⟩, rfl⟩
    · rintro ⟨⟨hP, hall⟩, rfl⟩
      exact .cons ((hx _).2 ⟨hP, rfl⟩) ((ih hxs).2 ⟨hall, rfl⟩)

variable {t : Ty} {v w u : Value} {s s' : PathStep}

/-- The child a step leads to, if there is one. -/
def child? (v : Value) (s : PathStep) : Option Value :=
  match v, s with
  | .object fields, .name name => fields.lookup name
  | .list _ items, .index i => itemAt? items i
  | .set _ items, .element w => items.find? fun v => v.same w
  | .map _ entries, .key key => entries.lookup key
  | _, _ => none

/-- A step of the right kind gives the child, or says why there is none. -/
theorem step_eq (h : v.ty.step s = .ok t) :
    v.step s =
      if v.isNull then .error (.nullValue s)
      else if v.isUnknown then .error (.unknownValue s)
      else
        match v.child? s with
        | some w => .ok w
        | none => .error (.elementNotFound s) := by
  rw [step, h]
  have hc := Ty.step_eq_ok_iff.1 h
  cases v <;> simp only [ty] at hc <;> cases hc <;> rfl

theorem step_eq_ok_iff :
    v.step s = .ok w ↔ (∃ t, v.ty.step s = .ok t) ∧ v.child? s = some w := by
  constructor
  · intro h
    cases ht : v.ty.step s with
    | error e => rw [step, ht] at h; cases h
    | ok t =>
      refine ⟨⟨t, rfl⟩, ?_⟩
      rw [step_eq ht] at h
      split at h
      · cases h
      · split at h
        · cases h
        · split at h <;> cases h
          assumption
  · rintro ⟨⟨t, ht⟩, hc⟩
    rw [step_eq ht, hc]
    cases v <;> first | rfl | cases hc

/-- What a step leads to in each kind of value. -/
inductive Child : Value → PathStep → Value → Prop
  | name {fields : List (String × Value)} {name : String} {w : Value}
      (h : fields.lookup name = some w) : Child (.object fields) (.name name) w
  | index {t : Ty} {items : List Value} {i : Nat} {w : Value} (h : items[i]? = some w) :
      Child (.list t items) (.index i) w
  | element {t : Ty} {items : List Value} {x w : Value}
      (h : (items.find? fun v => v.same x) = some w) : Child (.set t items) (.element x) w
  | key {t : Ty} {entries : List (String × Value)} {key : String} {w : Value}
      (h : entries.lookup key = some w) : Child (.map t entries) (.key key) w

theorem step_eq_ok_iff_child : v.step s = .ok w ↔ Child v s w := by
  rw [step_eq_ok_iff]
  constructor
  · rintro ⟨⟨t, ht⟩, hc⟩
    have hchild := Ty.step_eq_ok_iff.1 ht
    cases v <;> simp only [ty] at hchild <;> cases hchild <;> try cases hc
    case list.index items i hi =>
      obtain ⟨i, rfl⟩ := Int.eq_ofNat_of_zero_le hi
      exact .index hc
    case set.element items x => exact .element hc
    case map.key entries key => exact .key hc
    case object.name fields name _ => exact .name hc
  · intro h
    cases h with
    | @name fields name w h =>
      refine ⟨⟨w.ty, Ty.step_eq_ok_iff.2 (.name ?_)⟩, h⟩
      rw [lookup_fieldTypes, h]
      rfl
    | @index t items i w h => exact ⟨⟨t, Ty.step_eq_ok_iff.2 (.index (Int.natCast_nonneg i))⟩, h⟩
    | @element t items x w h => exact ⟨⟨t, Ty.step_eq_ok_iff.2 .element⟩, h⟩
    | @key t entries key w h => exact ⟨⟨t, Ty.step_eq_ok_iff.2 .key⟩, h⟩

theorem exists_fields_of_step {name : String} (h : v.step (.name name) = .ok w) :
    ∃ fields, v = .object fields := by
  cases step_eq_ok_iff_child.1 h
  exact ⟨_, rfl⟩

theorem isUnknown_of_step (h : v.step s = .ok w) : v.isUnknown = false := by
  cases step_eq_ok_iff_child.1 h <;> rfl

theorem isNull_of_step (h : v.step s = .ok w) : v.isNull = false := by
  cases step_eq_ok_iff_child.1 h <;> rfl

/-- A child of a well-formed value is well formed, and the type says of what type it is. -/
theorem child?_spec (hv : v.WellFormed) (ht : v.ty.step s = .ok t) (hc : v.child? s = some w) :
    w.ty = t ∧ w.WellFormed := by
  have hchild := Ty.step_eq_ok_iff.1 ht
  cases v <;> simp only [ty] at hchild <;> cases hchild <;> try cases hc
  case list.index items i hi =>
    rw [child?, itemAt?, if_neg (Int.not_lt.2 hi)] at hc
    exact (wellFormed_list_iff.1 hv).2 w (List.mem_of_getElem? hc)
  case set.element items x =>
    exact (wellFormed_set_iff.1 hv).2.1 w (List.mem_of_find?_eq_some hc)
  case map.key entries key =>
    exact (wellFormed_map_iff.1 hv).2.2 _ (Keyed.mem_of_lookup hc)
  case object.name fields name hl =>
    rw [child?] at hc
    rw [lookup_fieldTypes, hc] at hl
    exact ⟨Option.some.inj hl, (wellFormed_object_iff.1 hv).2 _ (Keyed.mem_of_lookup hc)⟩

theorem step_spec (hv : v.WellFormed) (h : v.step s = .ok w) :
    v.ty.step s = .ok w.ty ∧ w.WellFormed := by
  obtain ⟨⟨t, ht⟩, hc⟩ := step_eq_ok_iff.1 h
  obtain ⟨rfl, hw⟩ := child?_spec hv ht hc
  exact ⟨ht, hw⟩

/-! ## Children of equal values -/

/-- Equal values, or none on both sides. -/
abbrev SameOption : Option Value → Option Value → Prop := Option.Rel fun v w => v.same w = true

theorem lookup_congr {entries others : List (String × Value)}
    (hm : List.Forall₂ (fun a b => a.1 = b.1 ∧ a.2.same b.2 = true) entries others)
    (key : String) : SameOption (entries.lookup key) (others.lookup key) := by
  induction hm with
  | nil => exact .none
  | @cons a b _ _ hab _ ih =>
    rw [List.lookup_cons, List.lookup_cons, ← hab.1]
    cases key == a.1
    · exact ih
    · exact .some hab.2

theorem getElem?_congr {items others : List Value}
    (hm : List.Forall₂ (fun v w => v.same w = true) items others) (i : Nat) :
    SameOption items[i]? others[i]? := by
  induction hm generalizing i with
  | nil => exact .none
  | cons hvw _ ih =>
    cases i with
    | zero => exact .some hvw
    | succ i => exact ih i

theorem itemAt?_congr {items others : List Value}
    (hm : List.Forall₂ (fun v w => v.same w = true) items others) (i : Int) :
    SameOption (itemAt? items i) (itemAt? others i) := by
  unfold itemAt?
  split
  · exact .none
  · exact getElem?_congr hm i.toNat

theorem same_of_find? {items : List Value} (h : items.find? (fun v => v.same w) = some u) :
    u.same w = true :=
  List.find?_some (p := fun v : Value => v.same w) h

theorem same_of_step_element (h : v.step (.element w) = .ok u) : u.same w = true := by
  cases step_eq_ok_iff_child.1 h with
  | element h => exact same_of_find? h

/-- What is found in a set is as good as any other element that equals the one searched for. -/
theorem find?_same {items : List Value} (hw : w ∈ items) {x : Value} (hwu : w.same u = true)
    (hux : u.same x = true) : ∃ y, items.find? (fun v => v.same x) = some y ∧ w.same y = true := by
  cases hf : items.find? (fun v => v.same x) with
  | none => exact absurd (same_trans hwu hux) (List.find?_eq_none.1 hf w hw)
  | some y =>
    have hy : y.same x = true := same_of_find? hf
    exact ⟨y, rfl, same_trans (same_trans hwu hux) (same_symm hy)⟩

theorem find?_congr {items others : List Value} (hp : pairUp items others = true) {x y : Value}
    (hxy : x.same y = true) : SameOption (items.find? fun v => v.same x)
      (others.find? fun v => v.same y) := by
  obtain ⟨matched, hperm, hm⟩ := exists_perm_of_pairUp hp
  cases hf : items.find? (fun v => v.same x) with
  | some w =>
    have hwx : w.same x = true := same_of_find? hf
    obtain ⟨w', hw', hww'⟩ := forall₂_exists_right hm (List.mem_of_find?_eq_some hf)
    obtain ⟨u, hu, hw'u⟩ := find?_same (hperm.mem_iff.1 hw')
      (same_trans (same_symm hww') hwx) hxy
    rw [hu]
    exact .some (same_trans hww' hw'u)
  | none =>
    cases hg : others.find? (fun v => v.same y) with
    | none => exact .none
    | some w =>
      have hwy : w.same y = true := same_of_find? hg
      obtain ⟨v, hv, hvw⟩ :=
        forall₂_exists_left hm (hperm.mem_iff.2 (List.mem_of_find?_eq_some hg))
      exact absurd (same_trans hvw (same_trans hwy (same_symm hxy)))
        (List.find?_eq_none.1 hf v hv)

/-- Equal steps lead from equal values to equal children. -/
theorem child?_congr (hv : v.same w = true) (hs : s.same s' = true) :
    SameOption (v.child? s) (w.child? s') := by
  rcases PathStep.same_cases hs with rfl | ⟨x, y, rfl, rfl, hxy⟩
  · cases sameParts_of_same hv with
    | list h =>
      cases s <;> try exact .none
      exact itemAt?_congr h _
    | set h =>
      cases s <;> try exact .none
      exact find?_congr h (same_refl _)
    | map h =>
      cases s <;> try exact .none
      exact lookup_congr h _
    | object h =>
      cases s <;> try exact .none
      exact lookup_congr h _
    | _ => exact .none
  · cases sameParts_of_same hv with
    | set h => exact find?_congr h hxy
    | _ => exact .none

/-- What a step leads to from a value without unknowns has none. -/
theorem isFullyKnown_of_step (hv : v.isFullyKnown = true) (h : v.step s = .ok w) :
    w.isFullyKnown = true := by
  cases step_eq_ok_iff_child.1 h with
  | name hl => exact entriesFullyKnown_iff.1 hv _ (Keyed.mem_of_lookup hl)
  | index hi => exact allFullyKnown_iff.1 hv _ (List.mem_of_getElem? hi)
  | element hx => exact allFullyKnown_iff.1 hv _ (List.mem_of_find?_eq_some hx)
  | key hl => exact entriesFullyKnown_iff.1 hv _ (Keyed.mem_of_lookup hl)

/-! ## Paths -/

theorem atPath_eq_foldlM (v : Value) (p : Path) : v.atPath p = p.foldlM step v :=
  eq_foldlM_of_cons (f := fun p v => v.atPath p) (fun _ => rfl) (fun _ _ _ => rfl) p v

theorem atPath_append (v : Value) (p q : Path) :
    v.atPath (p ++ q) = (v.atPath p).bind fun w => w.atPath q := by
  simp only [atPath_eq_foldlM, List.foldlM_append]
  rfl

theorem atPath_append_singleton_eq_ok {p : Path} : v.atPath (p ++ [s]) = .ok u ↔
    ∃ w, v.atPath p = .ok w ∧ w.step s = .ok u := by
  rw [atPath_append]
  refine Except.bind_eq_ok.trans (exists_congr fun w => and_congr_right fun _ => ?_)
  refine Except.bind_eq_ok.trans ⟨?_, fun h => ⟨u, h, rfl⟩⟩
  rintro ⟨_, h, ⟨⟩⟩
  exact h

/-- A set element on a path that leads somewhere is found in its set. -/
theorem exists_element_of_atPath {before after : Path} {x : Value}
    (h : v.atPath (before ++ .element x :: after) = .ok w) :
    ∃ y, v.atPath (before ++ [.element x]) = .ok y ∧ y.same x = true := by
  rw [atPath_append] at h
  obtain ⟨parent, hparent, h⟩ := Except.bind_eq_ok.1 h
  obtain ⟨y, hy, _⟩ := Except.bind_eq_ok.1 h
  exact ⟨y, atPath_append_singleton_eq_ok.2 ⟨parent, hparent, hy⟩, same_of_step_element hy⟩

theorem isNull_of_atPath {p : Path} (h : v.atPath p = .ok w) (hw : w.isNull = false) :
    v.isNull = false := by
  cases p with
  | nil => cases h; exact hw
  | cons s p =>
    obtain ⟨_, hs, _⟩ := Except.bind_eq_ok.1 h
    exact isNull_of_step hs

theorem atPath_spec {p : Path} (hv : v.WellFormed) (h : v.atPath p = .ok w) :
    v.ty.atPath p = .ok w.ty ∧ w.WellFormed := by
  induction p generalizing v with
  | nil => cases h; exact ⟨rfl, hv⟩
  | cons s p ih =>
    cases hs : v.step s with
    | error e => rw [atPath, hs] at h; cases h
    | ok child =>
      rw [atPath, hs] at h
      obtain ⟨hty, hchild⟩ := step_spec hv hs
      obtain ⟨hpath, hw⟩ := ih hchild h
      rw [Ty.atPath, hty]
      exact ⟨hpath, hw⟩

theorem step_congr (hv : v.same w = true) (hs : s.same s' = true) (h : v.step s = .ok u) :
    ∃ x, w.step s' = .ok x ∧ u.same x = true := by
  obtain ⟨⟨t, ht⟩, hc⟩ := step_eq_ok_iff.1 h
  have hrel := child?_congr hv hs
  rw [hc] at hrel
  cases hx : w.child? s' with
  | none => rw [hx] at hrel; cases hrel
  | some x =>
    rw [hx] at hrel
    cases hrel with
    | some hux =>
      exact ⟨x, step_eq_ok_iff.2 ⟨⟨t, Ty.step_congr hs (ty_eq_of_same hv ▸ ht)⟩, hx⟩, hux⟩

/-- One step from a value that equals what is at a path. -/
theorem exists_atPath_append_singleton {p : Path} {x : Value} (hp : v.atPath p = .ok x)
    (hx : x.same w = true) (hs : w.step s = .ok u) :
    ∃ y, v.atPath (p ++ [s]) = .ok y ∧ y.same u = true := by
  obtain ⟨y, hy, huy⟩ := step_congr (same_symm hx) s.same_refl hs
  exact ⟨y, atPath_append_singleton_eq_ok.2 ⟨x, hp, hy⟩, same_symm huy⟩

/-- Equal paths lead from equal values to equal values. -/
theorem atPath_congr {p q : Path} (hv : v.same w = true) (hp : Path.same p q = true)
    (h : v.atPath p = .ok u) : ∃ x, w.atPath q = .ok x ∧ u.same x = true := by
  rw [Path.same_iff] at hp
  induction hp generalizing v w with
  | nil => cases h; exact ⟨w, rfl, hv⟩
  | cons hs _ ih =>
    obtain ⟨child, hstep, h⟩ := Except.bind_eq_ok.1 h
    obtain ⟨child', hstep', hchild⟩ := step_congr hv hs hstep
    rw [atPath, hstep']
    exact ih hchild h

end Value
end ResourceSchema
