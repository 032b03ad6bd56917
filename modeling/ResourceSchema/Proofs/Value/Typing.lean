import ResourceSchema.Proofs.Value.Equality

/-!
# Values of a type

What a value of a type is made of, at every depth. A value has a type in this sense exactly if it is
well formed and the type is its own (`hasType_iff`).
-/

namespace ResourceSchema.Value

/-- A value of a type: its data is of the kind that the type asks for, elements have the declared
type, an object has the attributes of its type and no others, and a fully known element of a set
equals no other one. -/
inductive HasType : Ty → Value → Prop
  | null {t : Ty} (ht : t.WellFormed) : HasType t (.null t)
  | unknown {t : Ty} (ht : t.WellFormed) : HasType t (.unknown t)
  | string (s : String) : HasType .string (.string s)
  | number (n : Number) : HasType .number (.number n)
  | bool (b : Bool) : HasType .bool (.bool b)
  | list {t : Ty} {items : List Value} (ht : t.WellFormed) (hi : ∀ v ∈ items, HasType t v) :
      HasType (.list t) (.list t items)
  | set {t : Ty} {items : List Value} (ht : t.WellFormed) (hi : ∀ v ∈ items, HasType t v)
      (hd : ∀ (i j : Nat) (hi : i < items.length) (hj : j < items.length), i ≠ j →
        items[i].isFullyKnown = true → items[i].same items[j] = false) :
      HasType (.set t) (.set t items)
  | map {t : Ty} {entries : List (String × Value)} (ht : t.WellFormed)
      (hk : Keyed.Increasing entries) (he : ∀ e ∈ entries, HasType t e.2) :
      HasType (.map t) (.map t entries)
  | object {attributes : List (String × Ty)} {fields : List (String × Value)}
      (hk : Keyed.Increasing fields) (hn : Keyed.keys fields = Keyed.keys attributes)
      (hf : ∀ name t v, (name, t) ∈ attributes → (name, v) ∈ fields → HasType t v) :
      HasType (.object attributes) (.object fields)

variable {t : Ty} {v : Value} {items : List Value} {fields : List (String × Value)}

theorem pairwise_apart_iff : items.Pairwise Apart ↔
    ∀ (i j : Nat) (hi : i < items.length) (hj : j < items.length), i ≠ j →
      items[i].isFullyKnown = true → items[i].same items[j] = false := by
  rw [List.pairwise_iff_getElem]
  constructor
  · intro h i j hi hj hne
    rcases Nat.lt_or_gt_of_ne hne with hlt | hlt
    · exact h i j hi hj hlt
    · exact (h j i hj hi hlt).symm
  · exact fun h i j hi hj hlt => h i j hi hj (Nat.ne_of_lt hlt)

/-- Fields with the names of some attributes, each of the type of its attribute. -/
theorem fieldTypes_eq_of_keys {attributes : List (String × Ty)}
    (hn : Keyed.keys fields = Keyed.keys attributes) (hd : (Keyed.keys fields).Nodup)
    (hf : ∀ name t v, (name, t) ∈ attributes → (name, v) ∈ fields → v.ty = t) :
    fieldTypes fields = attributes := by
  induction fields generalizing attributes with
  | nil => exact (List.map_eq_nil_iff.1 hn.symm).symm
  | cons f rest ih =>
    obtain ⟨name, v⟩ := f
    rcases attributes with _ | ⟨⟨name', t⟩, others⟩
    · cases hn
    · obtain ⟨hname, hothers⟩ := List.cons.inj hn
      obtain rfl : name = name' := hname
      rw [fieldTypes, hf name t v List.mem_cons_self List.mem_cons_self,
        ih hothers (List.nodup_cons.1 hd).2 fun n u w hu hw =>
          hf n u w (List.mem_cons_of_mem _ hu) (List.mem_cons_of_mem _ hw)]

theorem HasType.spec (h : HasType t v) : v.ty = t ∧ v.WellFormed := by
  induction h with
  | null ht => exact ⟨rfl, ht⟩
  | unknown ht => exact ⟨rfl, ht⟩
  | string s => exact ⟨rfl, trivial⟩
  | number n => exact ⟨rfl, trivial⟩
  | bool b => exact ⟨rfl, trivial⟩
  | list ht _ ih => exact ⟨rfl, wellFormed_list_iff.2 ⟨ht, ih⟩⟩
  | set ht _ hd ih => exact ⟨rfl, wellFormed_set_iff.2 ⟨ht, ih, pairwise_apart_iff.2 hd⟩⟩
  | map ht hk _ ih => exact ⟨rfl, wellFormed_map_iff.2 ⟨ht, hk, ih⟩⟩
  | @object attributes fields hk hn hf ih =>
    have hwf : ∀ e ∈ fields, ∃ t, (e.1, t) ∈ attributes := by
      intro e he
      have hmem : e.1 ∈ Keyed.keys attributes := hn ▸ Keyed.mem_keys_of_mem he
      obtain ⟨a, ha, heq⟩ := List.mem_map.1 hmem
      exact ⟨a.2, heq ▸ ha⟩
    refine ⟨congrArg Ty.object (fieldTypes_eq_of_keys hn hk.nodup fun name t v ht hv =>
      (ih name t v ht hv).1), wellFormed_object_iff.2 ⟨hk, ?_⟩⟩
    intro e he
    obtain ⟨t, ht⟩ := hwf e he
    exact (ih e.1 t e.2 ht he).2

theorem HasType.of_wellFormed (h : v.WellFormed) : HasType v.ty v := by
  induction v using Value.induct with
  | null t => exact .null h
  | unknown t => exact .unknown h
  | string s => exact .string s
  | number n => exact .number n
  | bool b => exact .bool b
  | list t items ih =>
    obtain ⟨ht, hitems⟩ := wellFormed_list_iff.1 h
    refine .list ht ?_
    intro v hv
    obtain ⟨rfl, hwf⟩ := hitems v hv
    exact ih v hv hwf
  | set t items ih =>
    obtain ⟨ht, hitems, hd⟩ := wellFormed_set_iff.1 h
    refine .set ht (fun v hv => ?_) (pairwise_apart_iff.1 hd)
    obtain ⟨rfl, hwf⟩ := hitems v hv
    exact ih v hv hwf
  | map t entries ih =>
    obtain ⟨ht, hk, hentries⟩ := wellFormed_map_iff.1 h
    refine .map ht hk ?_
    intro e he
    obtain ⟨hty, hwf⟩ := hentries e he
    exact hty ▸ ih e he hwf
  | object fields ih =>
    obtain ⟨hk, hfields⟩ := wellFormed_object_iff.1 h
    refine .object hk (keys_fieldTypes fields).symm ?_
    intro name t v ht hv
    have hl := lookup_fieldTypes fields name
    rw [Keyed.lookup_of_mem hk.nodup hv,
      Keyed.lookup_of_mem (increasing_fieldTypes.2 hk).nodup ht] at hl
    obtain rfl : t = v.ty := Option.some.inj hl
    exact ih (name, v) hv (hfields _ hv)

theorem hasType_iff : HasType t v ↔ v.ty = t ∧ v.WellFormed := by
  refine ⟨HasType.spec, ?_⟩
  rintro ⟨rfl, h⟩
  exact .of_wellFormed h

end ResourceSchema.Value
