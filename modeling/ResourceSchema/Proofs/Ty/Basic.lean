import ResourceSchema.Proofs.Keyed
import ResourceSchema.Proofs.Recursion
import ResourceSchema.Ty.Step

/-!
# Types, by induction

Induction over types with the attributes of an object as one list, and what it takes for an object
type to be well formed.
-/

namespace ResourceSchema.Ty

variable {attributes : List (String × Ty)} {t u : Ty} {s : PathStep}

/-- Induction over types; for an object the claim holds of the type of every attribute. -/
@[elab_as_elim]
theorem induct {P : Ty → Prop} (string : P .string) (number : P .number) (bool : P .bool)
    (list : ∀ t, P t → P (.list t)) (set : ∀ t, P t → P (.set t)) (map : ∀ t, P t → P (.map t))
    (object : ∀ attributes, (∀ e ∈ attributes, P e.2) → P (.object attributes)) (t : Ty) : P t :=
  @Ty.rec P (fun attributes => ∀ e ∈ attributes, P e.2) (fun e => P e.2) string number bool list
    set map object (by simp) (fun _ _ he hrest => List.forall_mem_cons.2 ⟨he, hrest⟩)
    (fun _ _ ht => ht) t

/-! ## Well-formed types -/

@[simp] theorem wellFormedAttributes_iff :
    WellFormedAttributes attributes ↔ ∀ e ∈ attributes, e.2.WellFormed :=
  iff_forall_of_cons (P := WellFormedAttributes) trivial (fun _ _ => Iff.rfl) attributes

@[simp] theorem wellFormed_object_iff : (Ty.object attributes).WellFormed ↔
    Keyed.Increasing attributes ∧ ∀ e ∈ attributes, e.2.WellFormed := by
  simp [WellFormed]

/-- Attributes in any order make a well-formed object type, whatever names are repeated. -/
theorem wellFormed_ofAttributes (h : ∀ e ∈ attributes, e.2.WellFormed) :
    (ofAttributes attributes).WellFormed :=
  wellFormed_object_iff.2
    ⟨Keyed.increasing_sorted _, fun e he => h e (Keyed.mem_sorted he)⟩

/-! ## Steps -/

/-- The steps that a type takes and the types that they lead to. -/
inductive Child : Ty → PathStep → Ty → Prop
  | name {attributes : List (String × Ty)} {name : String} {u : Ty}
      (h : attributes.lookup name = some u) : Child (.object attributes) (.name name) u
  | index {u : Ty} {i : Int} (h : 0 ≤ i) : Child (.list u) (.index i) u
  | element {u : Ty} {w : Value} : Child (.set u) (.element w) u
  | key {u : Ty} {key : String} : Child (.map u) (.key key) u

theorem step_eq_ok_iff : t.step s = .ok u ↔ Child t s u := by
  constructor
  · intro h
    unfold step at h
    split at h
    · split at h
      · next hl => cases h; exact .name hl
      · cases h
    · split at h
      · cases h
      · next hi => cases h; exact .index (Int.not_lt.1 hi)
    · cases h; exact .element
    · cases h; exact .key
    · cases h
  · intro h
    cases h with
    | name h => rw [step, h]
    | index h => rw [step, if_neg (Int.not_lt.2 h)]
    | element => rfl
    | key => rfl

theorem WellFormed.step (ht : t.WellFormed) (h : t.step s = .ok u) : u.WellFormed := by
  cases step_eq_ok_iff.1 h with
  | name hl => exact (wellFormed_object_iff.1 ht).2 _ (Keyed.mem_of_lookup hl)
  | index _ => exact ht
  | element => exact ht
  | key => exact ht

/-! ## Paths -/

theorem atPath_eq_foldlM (t : Ty) (p : Path) : t.atPath p = p.foldlM step t :=
  eq_foldlM_of_cons (f := fun p t => t.atPath p) (fun _ => rfl) (fun _ _ _ => rfl) p t

theorem atPath_append (t : Ty) (p q : Path) :
    t.atPath (p ++ q) = (t.atPath p).bind fun u => u.atPath q := by
  simp only [atPath_eq_foldlM, List.foldlM_append]
  rfl

theorem atPath_of_error {p after : Path} {e : StepError} (hp : t.atPath p = .ok u)
    (hs : u.step s = .error e) : t.atPath (p ++ s :: after) = .error e := by
  rw [atPath_append, hp, Except.bind, atPath, hs]
  rfl

/-- Up to a step that does not apply all initial parts of a path lead somewhere, beyond it none. -/
theorem exists_atPath_iff {p after q : Path} {e : StepError} (hp : t.atPath p = .ok u)
    (hs : u.step s = .error e) (hq : q <+: p ++ s :: after) :
    (∃ v, t.atPath q = .ok v) ↔ q <+: p := by
  constructor
  · rintro ⟨v, hv⟩
    rcases List.prefix_or_prefix_of_prefix hq (List.prefix_append p (s :: after)) with h | h
    · exact h
    · obtain ⟨rest, rfl⟩ := h
      cases rest with
      | nil => exact (List.append_nil p).symm ▸ List.prefix_refl p
      | cons s' rest =>
        have hcons : s' :: rest <+: s :: after := (List.prefix_append_right_inj p).1 hq
        obtain ⟨rfl, _⟩ := List.cons_prefix_cons.1 hcons
        rw [atPath_of_error hp hs] at hv
        cases hv
  · rintro ⟨rest, rfl⟩
    rw [atPath_append] at hp
    cases hv : t.atPath q with
    | error e' => rw [hv] at hp; cases hp
    | ok v => exact ⟨v, rfl⟩

end ResourceSchema.Ty
