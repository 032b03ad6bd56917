import Mathlib.Data.List.Forall2
import ResourceSchema.Proofs.Recursion
import ResourceSchema.Proofs.Ty.Basic
import ResourceSchema.Value.Access
import ResourceSchema.Value.Build

/-!
# Values, by induction

Induction over values with the elements of a collection as one list, and the functions that go
through a list of elements in terms of the list.
-/

namespace ResourceSchema.Value

variable {t : Ty} {items others : List Value} {entries fields : List (String × Value)}

/-- Induction over values; for a collection or an object the claim holds of every child. -/
@[elab_as_elim]
theorem induct {P : Value → Prop} (null : ∀ t, P (.null t)) (unknown : ∀ t, P (.unknown t))
    (string : ∀ s, P (.string s)) (number : ∀ n, P (.number n)) (bool : ∀ b, P (.bool b))
    (list : ∀ t items, (∀ v ∈ items, P v) → P (.list t items))
    (set : ∀ t items, (∀ v ∈ items, P v) → P (.set t items))
    (map : ∀ t entries, (∀ e ∈ entries, P e.2) → P (.map t entries))
    (object : ∀ fields, (∀ e ∈ fields, P e.2) → P (.object fields)) (v : Value) : P v :=
  @Value.rec P (fun items => ∀ v ∈ items, P v) (fun entries => ∀ e ∈ entries, P e.2)
    (fun e => P e.2) null unknown string number bool list set map object (by simp)
    (fun _ _ hv hrest => List.forall_mem_cons.2 ⟨hv, hrest⟩) (by simp)
    (fun _ _ he hrest => List.forall_mem_cons.2 ⟨he, hrest⟩) (fun _ _ hv => hv) v

/-! ## Lists of elements, entries and fields -/

theorem fieldTypes_eq_map (fields : List (String × Value)) :
    fieldTypes fields = fields.map fun e => (e.1, e.2.ty) :=
  eq_map_of_cons rfl (fun _ _ => rfl) fields

@[simp] theorem lookup_fieldTypes (fields : List (String × Value)) (name : String) :
    (fieldTypes fields).lookup name = (fields.lookup name).map ty := by
  rw [fieldTypes_eq_map, Keyed.lookup_map]

@[simp] theorem keys_fieldTypes (fields : List (String × Value)) :
    Keyed.keys (fieldTypes fields) = Keyed.keys fields := by
  rw [fieldTypes_eq_map, Keyed.keys_map]

/-- A field of the same type in the place of another leaves the types of the fields. -/
theorem fieldTypes_assign {name : String} {v : Value}
    (h : (fieldTypes fields).lookup name = some v.ty) :
    fieldTypes (Keyed.assign name v fields) = fieldTypes fields := by
  rw [fieldTypes_eq_map, ← Keyed.assign_map, ← fieldTypes_eq_map, Keyed.assign_eq_self h]

@[simp] theorem keys_nullFields (attributes : List (String × Ty)) :
    Keyed.keys (nullFields attributes) = Keyed.keys attributes :=
  Keyed.keys_map Value.null attributes

/-- The nulls for some attributes have the types of those. -/
@[simp] theorem fieldTypes_nullFields (attributes : List (String × Ty)) :
    fieldTypes (nullFields attributes) = attributes := by
  rw [fieldTypes_eq_map, nullFields, List.map_map]
  exact List.map_id _

theorem allFullyKnown_eq_all (items : List Value) :
    allFullyKnown items = items.all isFullyKnown :=
  eq_all_of_cons rfl (fun _ _ => rfl) items

@[simp] theorem allFullyKnown_iff :
    allFullyKnown items = true ↔ ∀ v ∈ items, v.isFullyKnown = true := by
  rw [allFullyKnown_eq_all, List.all_eq_true]

theorem entriesFullyKnown_eq_all (entries : List (String × Value)) :
    entriesFullyKnown entries = entries.all fun e => e.2.isFullyKnown :=
  eq_all_of_cons rfl (fun _ _ => rfl) entries

@[simp] theorem entriesFullyKnown_iff :
    entriesFullyKnown entries = true ↔ ∀ e ∈ entries, e.2.isFullyKnown = true := by
  rw [entriesFullyKnown_eq_all, List.all_eq_true]

@[simp] theorem sameItems_iff : sameItems items others = true ↔
    List.Forall₂ (fun v w => v.same w = true) items others := by
  induction items generalizing others with
  | nil => cases others <;> simp [sameItems]
  | cons v rest ih => cases others <;> simp [sameItems, ih]

@[simp]
theorem sameEntries_iff {others : List (String × Value)} : sameEntries entries others = true ↔
    List.Forall₂ (fun a b => a.1 = b.1 ∧ a.2.same b.2 = true) entries others := by
  induction entries generalizing others with
  | nil => cases others <;> simp [sameEntries]
  | cons e rest ih =>
    rcases others with _ | ⟨⟨k, v⟩, others⟩
    · simp [sameEntries]
    · rw [sameEntries, List.forall₂_cons, Bool.and_eq_true, Bool.and_eq_true, beq_iff_eq, ih]

@[simp] theorem itemsWellFormed_iff :
    ItemsWellFormed t items ↔ ∀ v ∈ items, v.ty = t ∧ v.WellFormed :=
  iff_forall_of_cons (P := ItemsWellFormed t) trivial (fun _ _ => and_assoc.symm) items

@[simp] theorem entriesWellFormed_iff :
    EntriesWellFormed t entries ↔ ∀ e ∈ entries, e.2.ty = t ∧ e.2.WellFormed :=
  iff_forall_of_cons (P := EntriesWellFormed t) trivial (fun _ _ => and_assoc.symm) entries

@[simp] theorem fieldsWellFormed_iff : FieldsWellFormed fields ↔ ∀ e ∈ fields, e.2.WellFormed :=
  iff_forall_of_cons (P := FieldsWellFormed) trivial (fun _ _ => Iff.rfl) fields

/-! ## Well-formed values -/

@[simp] theorem wellFormed_list_iff : (Value.list t items).WellFormed ↔
    t.WellFormed ∧ ∀ v ∈ items, v.ty = t ∧ v.WellFormed := by
  simp [WellFormed]

@[simp] theorem wellFormed_set_iff : (Value.set t items).WellFormed ↔
    t.WellFormed ∧ (∀ v ∈ items, v.ty = t ∧ v.WellFormed) ∧
      items.Pairwise fun v w => v.isFullyKnown = true → v.same w = false := by
  simp [WellFormed]

@[simp] theorem wellFormed_map_iff : (Value.map t entries).WellFormed ↔
    t.WellFormed ∧ Keyed.Increasing entries ∧ ∀ e ∈ entries, e.2.ty = t ∧ e.2.WellFormed := by
  simp [WellFormed]

@[simp] theorem wellFormed_object_iff : (Value.object fields).WellFormed ↔
    Keyed.Increasing fields ∧ ∀ e ∈ fields, e.2.WellFormed := by
  simp [WellFormed]

@[simp] theorem increasing_fieldTypes :
    Keyed.Increasing (fieldTypes fields) ↔ Keyed.Increasing fields := by
  rw [Keyed.increasing_iff_keys, Keyed.increasing_iff_keys, keys_fieldTypes]

/-- A field of the declared type in its place leaves a well-formed object of the same type. -/
theorem wellFormed_assign {name : String} {v : Value} (hf : (Value.object fields).WellFormed)
    (hl : (fieldTypes fields).lookup name = some v.ty) (hv : v.WellFormed) :
    (Value.object (Keyed.assign name v fields)).WellFormed ∧
      fieldTypes (Keyed.assign name v fields) = fieldTypes fields := by
  obtain ⟨hinc, hfields⟩ := wellFormed_object_iff.1 hf
  have hkey : name ∈ Keyed.keys fields := by
    rw [← keys_fieldTypes]
    exact Keyed.mem_keys_of_mem (Keyed.mem_of_lookup hl)
  refine ⟨wellFormed_object_iff.2 ⟨Keyed.increasing_assign hinc hkey, fun e he => ?_⟩,
    fieldTypes_assign hl⟩
  rcases Keyed.mem_assign he with rfl | he
  · exact hv
  · exact hfields e he

/-- The type of a well-formed value is well formed. -/
theorem WellFormed.ty {v : Value} (h : v.WellFormed) : v.ty.WellFormed := by
  induction v using Value.induct with
  | null t => exact h
  | unknown t => exact h
  | string s => trivial
  | number n => trivial
  | bool b => trivial
  | list t items _ => exact (wellFormed_list_iff.1 h).1
  | set t items _ => exact (wellFormed_set_iff.1 h).1
  | map t entries _ => exact (wellFormed_map_iff.1 h).1
  | object fields ih =>
    obtain ⟨hinc, hfields⟩ := wellFormed_object_iff.1 h
    refine Ty.wellFormed_object_iff.2 ⟨increasing_fieldTypes.2 hinc, ?_⟩
    intro e he
    rw [fieldTypes_eq_map] at he
    obtain ⟨e, hmem, rfl⟩ := List.mem_map.1 he
    exact ih e hmem (hfields e hmem)

end ResourceSchema.Value
