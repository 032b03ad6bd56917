import ResourceSchema.Proofs.Value.Step

/-!
# Places in values

A place leads through a value by fields, indices, keys and, in a set, by the positions in which its
elements are stored. Two values of one shape are compared place by place, whatever equality says of
the elements of their sets.
-/

namespace ResourceSchema

/-- Where a child is in its parent. -/
inductive Slot where
  | field (name : String)
  | item (index : Nat)
  | entry (key : String)
  /-- The position in which a set stores an element. -/
  | element (position : Nat)

namespace Slot

/-- The step that leads to the child `v` in a slot. -/
def step (v : Value) : Slot → PathStep
  | .field name => .name name
  | .item i => .index i
  | .entry key => .key key
  | .element _ => .element v

def name? : Slot → Option String
  | .field name => some name
  | _ => none

/-- The names on a place. -/
def names (q : List Slot) : List String := q.filterMap name?

@[simp] theorem names_append (q r : List Slot) : names (q ++ r) = names q ++ names r :=
  List.filterMap_append

theorem names_cons (s : Slot) (q : List Slot) : names (s :: q) = names [s] ++ names q :=
  names_append [s] q

end Slot

namespace Value

variable {v w c p x : Value} {s : Slot} {q : List Slot}

/-- The child in a slot. -/
def inSlot? (v : Value) (s : Slot) : Option Value :=
  match v, s with
  | .object fields, .field name => fields.lookup name
  | .list _ items, .item i => items[i]?
  | .map _ entries, .entry key => entries.lookup key
  | .set _ items, .element i => items[i]?
  | _, _ => none

/-- The value at a place. -/
def atPlace? (v : Value) : List Slot → Option Value
  | [] => some v
  | s :: rest => (v.inSlot? s).bind fun w => w.atPlace? rest

@[simp] theorem atPlace?_cons (s : Slot) (q : List Slot) :
    v.atPlace? (s :: q) = (v.inSlot? s).bind fun w => w.atPlace? q := rfl

theorem atPlace?_cons_eq_some : v.atPlace? (s :: q) = some x ↔
    ∃ w, v.inSlot? s = some w ∧ w.atPlace? q = some x := by
  rw [atPlace?_cons, Option.bind_eq_some_iff]

/-- A text, a number or a truth value. -/
def IsKnownPrimitive (v : Value) : Prop := v.isKnown = true ∧ v.ty.isPrimitive = true

/-- What is above a known primitive is known. -/
theorem isKnown_of_atPlace? (hx : x.IsKnownPrimitive) (h : v.atPlace? q = some x) :
    v.isKnown = true := by
  cases q with
  | nil =>
    cases h
    exact hx.1
  | cons s q =>
    obtain ⟨w, hw, _⟩ := atPlace?_cons_eq_some.1 h
    cases v <;> first | rfl | cases hw

theorem isNull_of_isKnown (h : v.isKnown = true) : v.isNull = false := by
  cases v <;> first | rfl | cases h

theorem isUnknown_of_isKnown (h : v.isKnown = true) : v.isUnknown = false := by
  cases v <;> first | rfl | cases h

theorem isNull_of_isUnknown (h : v.isUnknown = true) : v.isNull = false := by
  cases v <;> first | rfl | cases h

theorem isUnknown_of_isFullyKnown (h : v.isFullyKnown = true) : v.isUnknown = false := by
  cases v <;> first | rfl | cases h

theorem WellFormed.inSlot? (hv : v.WellFormed) (h : v.inSlot? s = some w) : w.WellFormed := by
  cases v <;> cases s <;> try cases h
  case object.field fields name =>
    exact (wellFormed_object_iff.1 hv).2 _ (Keyed.mem_of_lookup h)
  case list.item t items i =>
    exact ((wellFormed_list_iff.1 hv).2 w (List.mem_of_getElem? h)).2
  case map.entry t entries key =>
    exact ((wellFormed_map_iff.1 hv).2.2 _ (Keyed.mem_of_lookup h)).2
  case set.element t items i =>
    exact ((wellFormed_set_iff.1 hv).2.1 w (List.mem_of_getElem? h)).2

theorem step_of_inSlot?_field {name : String} (h : v.inSlot? (.field name) = some w) :
    v.step (.name name) = .ok w := by
  cases v <;> try cases h
  case object fields => exact step_eq_ok_iff_child.2 (.name h)

/-- The step to a child finds it, or in a set an element that equals it. -/
theorem step_of_inSlot? (h : v.inSlot? s = some w) : ∃ u, v.step (s.step w) = .ok u ∧
    u.same w = true := by
  cases v <;> cases s <;> try cases h
  case object.field fields name => exact ⟨w, step_of_inSlot?_field h, same_refl w⟩
  case list.item t items i =>
    exact ⟨w, step_eq_ok_iff_child.2 (.index h), same_refl w⟩
  case map.entry t entries key =>
    exact ⟨w, step_eq_ok_iff_child.2 (.key h), same_refl w⟩
  case set.element t items i =>
    obtain ⟨u, hu, hwu⟩ := find?_same (List.mem_of_getElem? h) (same_refl w) (same_refl w)
    exact ⟨u, step_eq_ok_iff_child.2 (.element hu), same_symm hwu⟩

theorem isFullyKnown_of_inSlot? (hv : v.isFullyKnown = true) (h : v.inSlot? s = some w) :
    w.isFullyKnown = true := by
  obtain ⟨u, hu, huw⟩ := step_of_inSlot? h
  rw [← isFullyKnown_eq_of_same huw]
  exact isFullyKnown_of_step hv hu

/-! ## Proposed values -/

/-- The second value is the first with some nulls replaced by unknowns of their type. -/
inductive ProposedAs : Value → Value → Prop
  | same (v : Value) : ProposedAs v v
  | unknown (t : Ty) : ProposedAs (.null t) (.unknown t)
  | list {t : Ty} {items others : List Value} (hl : items.length = others.length)
      (h : ∀ (i : Nat) v w, items[i]? = some v → others[i]? = some w → ProposedAs v w) :
      ProposedAs (.list t items) (.list t others)
  | set {t : Ty} {items others : List Value} (hl : items.length = others.length)
      (h : ∀ (i : Nat) v w, items[i]? = some v → others[i]? = some w → ProposedAs v w) :
      ProposedAs (.set t items) (.set t others)
  | map {t : Ty} {entries others : List (String × Value)}
      (hk : Keyed.keys entries = Keyed.keys others)
      (h : ∀ key v w, entries.lookup key = some v → others.lookup key = some w → ProposedAs v w) :
      ProposedAs (.map t entries) (.map t others)
  | object {fields others : List (String × Value)} (hk : Keyed.keys fields = Keyed.keys others)
      (h : ∀ name v w, fields.lookup name = some v → others.lookup name = some w →
        ProposedAs v w) :
      ProposedAs (.object fields) (.object others)

theorem ProposedAs.inSlot? (h : ProposedAs c p) (hc : c.inSlot? s = some v) :
    ∃ w, p.inSlot? s = some w ∧ ProposedAs v w := by
  have hitem : ∀ {items others : List Value} {i : Nat}, items.length = others.length →
      items[i]? = some v → ∃ w, others[i]? = some w := by
    intro items others i hl hv
    obtain ⟨hi, _⟩ := List.getElem?_eq_some_iff.1 hv
    exact ⟨_, List.getElem?_eq_getElem (hl ▸ hi)⟩
  have hentry : ∀ {entries others : List (String × Value)} {key : String},
      Keyed.keys entries = Keyed.keys others → entries.lookup key = some v →
        ∃ w, others.lookup key = some w := by
    intro entries others key hk hv
    exact Keyed.exists_lookup (hk ▸ Keyed.mem_keys_of_mem (Keyed.mem_of_lookup hv))
  cases h with
  | same => exact ⟨v, hc, .same v⟩
  | unknown t => cases hc
  | list hl h =>
    cases s <;> try cases hc
    obtain ⟨w, hw⟩ := hitem hl hc
    exact ⟨w, hw, h _ v w hc hw⟩
  | set hl h =>
    cases s <;> try cases hc
    obtain ⟨w, hw⟩ := hitem hl hc
    exact ⟨w, hw, h _ v w hc hw⟩
  | map hk h =>
    cases s <;> try cases hc
    obtain ⟨w, hw⟩ := hentry hk hc
    exact ⟨w, hw, h _ v w hc hw⟩
  | object hk h =>
    cases s <;> try cases hc
    obtain ⟨w, hw⟩ := hentry hk hc
    exact ⟨w, hw, h _ v w hc hw⟩

/-- Known primitives are proposed as they are. -/
theorem ProposedAs.atPlace? (h : ProposedAs c p) (hx : x.IsKnownPrimitive)
    (hc : c.atPlace? q = some x) : p.atPlace? q = some x := by
  induction q generalizing c p with
  | nil =>
    cases hc
    obtain ⟨hknown, hprim⟩ := hx
    cases h <;> first | rfl | cases hprim | cases hknown
  | cons s q ih =>
    obtain ⟨v, hv, hc⟩ := atPlace?_cons_eq_some.1 hc
    obtain ⟨w, hw, hvw⟩ := h.inSlot? hv
    exact atPlace?_cons_eq_some.2 ⟨w, hw, ih hvw hc⟩

end Value
end ResourceSchema
