import ResourceSchema.Proofs.Value.Write
import ResourceSchema.Value.Document

/-!
# What the constructors make

Each constructor that succeeds makes a well-formed value of the type it was asked for: the checked
ones from well-formed parts, the reader of documents from anything (`wellFormed_ofJson`).
-/

namespace ResourceSchema.Value

variable {t : Ty} {v w : Value} {items : List Value} {entries fields : List (String × Value)}
  {e : ValueError}

@[simp] theorem checkType_eq_ok : checkType t v = .ok () ↔ v.ty = t := by
  unfold checkType
  split <;> simp_all

/-! ## Collections -/

theorem checkTypes_eq_ok : items.forM (checkType t) = .ok () ↔ ∀ x ∈ items, x.ty = t := by
  simp only [Except.forM_eq_ok, checkType_eq_ok]

theorem listOf_eq_ok : listOf t items = .ok v ↔
    (∀ x ∈ items, x.ty = t) ∧ v = .list t items := by
  rw [← checkTypes_eq_ok]
  refine Except.check_eq_ok.trans (and_congr_right fun _ => ?_)
  simp [pure, Except.pure, eq_comm]

theorem listOf_ne_error (hty : ∀ x ∈ items, x.ty = t) : listOf t items ≠ .error e := by
  rw [listOf_eq_ok.2 ⟨hty, rfl⟩]
  exact fun h => by cases h

@[simp] theorem firstDuplicate?_eq_none :
    firstDuplicate? items = none ↔ items.Pairwise Apart := by
  induction items with
  | nil => simp [firstDuplicate?]
  | cons v items ih =>
    have hany : (v.isFullyKnown && items.any fun w => w.same v) = false ↔
        ∀ w ∈ items, Apart v w := by
      simp only [Apart, same_comm v]
      cases v.isFullyKnown <;> simp
    rw [firstDuplicate?, List.pairwise_cons, ← ih, ← hany]
    cases (v.isFullyKnown && items.any fun w => w.same v) <;> simp

/-- The duplicate that is found is fully known and equals an element after it. -/
theorem exists_of_firstDuplicate? (h : firstDuplicate? items = some v) :
    ∃ before between w after, items = before ++ v :: between ++ w :: after ∧
      v.isFullyKnown = true ∧ v.same w = true := by
  induction items with
  | nil => cases h
  | cons x items ih =>
    rw [firstDuplicate?] at h
    split at h
    · next hx =>
      cases h
      obtain ⟨hknown, hany⟩ := Bool.and_eq_true_iff.1 hx
      obtain ⟨w, hw, hsame⟩ := List.any_eq_true.1 hany
      obtain ⟨between, after, rfl⟩ := List.append_of_mem hw
      exact ⟨[], between, w, after, rfl, hknown, same_symm hsame⟩
    · obtain ⟨before, between, w, after, rfl, hspec⟩ := ih h
      exact ⟨x :: before, between, w, after, rfl, hspec⟩

theorem setOf_eq_ok : setOf t items = .ok v ↔
    (∀ x ∈ items, x.ty = t) ∧ items.Pairwise Apart ∧ v = .set t items := by
  rw [← checkTypes_eq_ok, ← firstDuplicate?_eq_none]
  refine Except.check_eq_ok.trans (and_congr_right fun _ => ?_)
  cases firstDuplicate? items <;> simp [eq_comm]

/-- Elements of the declared type make no set only if there is a duplicate among them. -/
theorem setOf_eq_error (h : setOf t items = .error e) (hty : ∀ x ∈ items, x.ty = t) :
    ∃ x, firstDuplicate? items = some x ∧ e = .duplicateSetElement x := by
  cases hd : firstDuplicate? items with
  | none =>
    have hmade := setOf_eq_ok.2 ⟨hty, firstDuplicate?_eq_none.1 hd, rfl⟩
    rw [hmade] at h
    cases h
  | some x =>
    rw [setOf, checkTypes_eq_ok.2 hty] at h
    simp only [hd] at h
    cases h
    exact ⟨x, rfl, rfl⟩

theorem mapOf_eq_ok : mapOf t entries = .ok v ↔
    (∀ e ∈ entries, e.2.ty = t) ∧ v = .map t (Keyed.sorted entries) := by
  have hcheck : entries.forM (fun e => checkType t e.2) = .ok () ↔
      ∀ e ∈ entries, e.2.ty = t := by
    simp only [Except.forM_eq_ok, checkType_eq_ok]
  rw [← hcheck]
  refine Except.check_eq_ok.trans (and_congr_right fun _ => ?_)
  simp [pure, Except.pure, eq_comm]

theorem mapOf_ne_error (hty : ∀ e ∈ entries, e.2.ty = t) : mapOf t entries ≠ .error e := by
  rw [mapOf_eq_ok.2 ⟨hty, rfl⟩]
  exact fun h => by cases h

theorem wellFormed_listOf (ht : t.WellFormed) (hi : ∀ x ∈ items, x.WellFormed)
    (h : listOf t items = .ok v) : v.ty = .list t ∧ v.WellFormed := by
  obtain ⟨hty, rfl⟩ := listOf_eq_ok.1 h
  exact ⟨rfl, wellFormed_list_iff.2 ⟨ht, fun x hx => ⟨hty x hx, hi x hx⟩⟩⟩

theorem wellFormed_setOf (ht : t.WellFormed) (hi : ∀ x ∈ items, x.WellFormed)
    (h : setOf t items = .ok v) : v.ty = .set t ∧ v.WellFormed := by
  obtain ⟨hty, hapart, rfl⟩ := setOf_eq_ok.1 h
  exact ⟨rfl, wellFormed_set_iff.2 ⟨ht, fun x hx => ⟨hty x hx, hi x hx⟩, hapart⟩⟩

theorem wellFormed_mapOf (ht : t.WellFormed) (he : ∀ e ∈ entries, e.2.WellFormed)
    (h : mapOf t entries = .ok v) : v.ty = .map t ∧ v.WellFormed := by
  obtain ⟨hty, rfl⟩ := mapOf_eq_ok.1 h
  refine ⟨rfl, wellFormed_map_iff.2 ⟨ht, Keyed.increasing_sorted _, ?_⟩⟩
  intro e hm
  exact ⟨hty e (Keyed.mem_sorted hm), he e (Keyed.mem_sorted hm)⟩

/-! ## Objects -/

/-- The type of an object has the types of its fields, of several with one name that of the last. -/
theorem ty_objectOf (fields : List (String × Value)) :
    (objectOf fields).ty = Ty.ofAttributes (fields.map fun e => (e.1, e.2.ty)) := by
  rw [objectOf, ty, fieldTypes_eq_map, Ty.ofAttributes, ← Keyed.sorted_map]

theorem wellFormed_objectOf (hf : ∀ e ∈ fields, e.2.WellFormed) :
    (objectOf fields).WellFormed :=
  wellFormed_object_iff.2 ⟨Keyed.increasing_sorted _, fun e he => hf e (Keyed.mem_sorted he)⟩

theorem objectOfType_eq_ok {attributes : List (String × Ty)} :
    objectOfType (.object attributes) fields = .ok v ↔
      (∀ e ∈ fields, attributes.lookup e.1 = some e.2.ty) ∧
        v = .object (Keyed.assignAll fields (nullFields attributes)) := by
  refine Except.bind_eq_ok.trans ((exists_congr fun filled => and_congr (Except.foldlM_eq_ok
    (P := fun e : String × Value => attributes.lookup e.1 = some e.2.ty)
    (g := fun acc e => Keyed.assign e.1 e.2 acc) fun acc e next => ?_) Iff.rfl).trans ⟨?_, ?_⟩)
  · obtain ⟨name, x⟩ := e
    dsimp only
    split
    · next hl => simp [hl]
    · next expected hl =>
      rw [hl, Option.some_inj]
      refine Except.bind_eq_ok.trans ⟨?_, ?_⟩
      · rintro ⟨_, hc, hnext⟩
        cases hnext
        exact ⟨(checkType_eq_ok.1 hc).symm, rfl⟩
      · rintro ⟨ht, rfl⟩
        exact ⟨(), checkType_eq_ok.2 ht.symm, rfl⟩
  · rintro ⟨filled, ⟨htypes, rfl⟩, h⟩
    cases h
    exact ⟨htypes, rfl⟩
  · rintro ⟨htypes, rfl⟩
    exact ⟨_, ⟨htypes, rfl⟩, rfl⟩

theorem exists_attributes_of_objectOfType (h : objectOfType t fields = .ok v) :
    ∃ attributes, t = .object attributes := by
  cases t <;> first | exact ⟨_, rfl⟩ | cases h

theorem ty_objectOfType (h : objectOfType t fields = .ok v) : v.ty = t := by
  obtain ⟨attributes, rfl⟩ := exists_attributes_of_objectOfType h
  obtain ⟨htypes, rfl⟩ := objectOfType_eq_ok.1 h
  refine congrArg Ty.object ?_
  refine List.foldlRecOn (motive := fun acc => fieldTypes acc = attributes) fields _
    (fieldTypes_nullFields attributes) ?_
  intro acc hacc e he
  exact (fieldTypes_assign (hacc ▸ htypes e he)).trans hacc

theorem wellFormed_objectOfType (ht : t.WellFormed) (hf : ∀ e ∈ fields, e.2.WellFormed)
    (h : objectOfType t fields = .ok v) : v.ty = t ∧ v.WellFormed := by
  obtain ⟨attributes, rfl⟩ := exists_attributes_of_objectOfType h
  obtain ⟨htypes, rfl⟩ := objectOfType_eq_ok.1 h
  -- Every field goes to the place of its attribute, so the filled ones keep to the attributes.
  have hkept : (Value.object (Keyed.assignAll fields (nullFields attributes))).WellFormed ∧
      fieldTypes (Keyed.assignAll fields (nullFields attributes)) = attributes := by
    refine List.foldlRecOn (motive := fun acc => (Value.object acc).WellFormed ∧
      fieldTypes acc = attributes) fields _
      ⟨wellFormed_nullFields ht, fieldTypes_nullFields attributes⟩ ?_
    rintro acc ⟨hacc, hty⟩ e he
    obtain ⟨hwf, hkept⟩ := wellFormed_assign hacc (hty ▸ htypes e he) (hf e he)
    exact ⟨hwf, hkept.trans hty⟩
  exact ⟨congrArg Ty.object hkept.2, hkept.1⟩

/-- Each field that an object is made of is found in it, if their names are distinct. -/
theorem lookup_objectOfType {name : String} (hd : (Keyed.keys fields).Nodup)
    (hl : fields.lookup name = some w) (h : objectOfType t fields = .ok v) :
    ∃ filled, v = .object filled ∧ filled.lookup name = some w := by
  obtain ⟨attributes, rfl⟩ := exists_attributes_of_objectOfType h
  obtain ⟨_, rfl⟩ := objectOfType_eq_ok.1 h
  exact ⟨_, rfl, by rw [Keyed.lookup_assignAll hd, hl, Option.some_or]⟩

/-! ## Documents -/

theorem wellFormed_fieldsOfMembers {members : List (String × Json)}
    {attributes : List (String × Ty)}
    (ih : ∀ e ∈ attributes, ∀ j v, ofCanonical e.2 j = .ok v → v.WellFormed)
    (h : fieldsOfMembers members attributes = .ok fields) : ∀ e ∈ fields, e.2.WellFormed := by
  induction attributes generalizing fields with
  | nil =>
    rw [fieldsOfMembers] at h
    cases h
    simp
  | cons a rest ihr =>
    obtain ⟨name, t⟩ := a
    obtain ⟨ht, hrest⟩ := List.forall_mem_cons.1 ih
    rw [fieldsOfMembers] at h
    obtain ⟨x, hx, h⟩ := Except.bind_eq_ok.1 h
    obtain ⟨others, hothers, h⟩ := Except.bind_eq_ok.1 h
    cases h
    exact List.forall_mem_cons.2 ⟨ht _ _ hx, ihr hrest hothers⟩

theorem wellFormed_ofCanonical {j : Json} (ht : t.WellFormed) (h : ofCanonical t j = .ok v) :
    v.ty = t ∧ v.WellFormed := by
  induction t using Ty.induct generalizing j v with
  | string => cases j <;> simp only [ofCanonical] at h <;> cases h <;> exact ⟨rfl, trivial⟩
  | number => cases j <;> simp only [ofCanonical] at h <;> cases h <;> exact ⟨rfl, trivial⟩
  | bool => cases j <;> simp only [ofCanonical] at h <;> cases h <;> exact ⟨rfl, trivial⟩
  | list t ih =>
    cases j <;> simp only [ofCanonical] at h <;> try cases h
    case list.null.refl => exact ⟨rfl, ht⟩
    case list.array documents =>
      obtain ⟨items, hitems, h⟩ := Except.bind_eq_ok.1 h
      refine wellFormed_listOf ht (fun x hx => ?_) h
      obtain ⟨j, _, hj⟩ := forall₂_exists_left (Except.mapM_eq_ok.1 hitems) hx
      exact (ih ht hj).2
  | set t ih =>
    cases j <;> simp only [ofCanonical] at h <;> try cases h
    case set.null.refl => exact ⟨rfl, ht⟩
    case set.array documents =>
      obtain ⟨items, hitems, h⟩ := Except.bind_eq_ok.1 h
      refine wellFormed_setOf ht (fun x hx => ?_) h
      obtain ⟨j, _, hj⟩ := forall₂_exists_left (Except.mapM_eq_ok.1 hitems) hx
      exact (ih ht hj).2
  | map t ih =>
    cases j <;> simp only [ofCanonical] at h <;> try cases h
    case map.null.refl => exact ⟨rfl, ht⟩
    case map.object members =>
      obtain ⟨entries, hentries, h⟩ := Except.bind_eq_ok.1 h
      refine wellFormed_mapOf ht (fun e he => ?_) h
      obtain ⟨m, _, hm⟩ := forall₂_exists_left (Except.mapM_eq_ok.1 hentries) he
      obtain ⟨x, hx, hpure⟩ := Except.bind_eq_ok.1 hm
      cases hpure
      exact (ih ht hx).2
  | object attributes ih =>
    cases j <;> simp only [ofCanonical] at h <;> try cases h
    case object.null.refl => exact ⟨rfl, ht⟩
    case object.object members =>
      split at h
      · cases h
      · obtain ⟨fields, hfields, h⟩ := Except.bind_eq_ok.1 h
        refine wellFormed_objectOfType ht (wellFormed_fieldsOfMembers ?_ hfields) h
        exact fun e he j v hv => (ih e he ((Ty.wellFormed_object_iff.1 ht).2 e he) hv).2

theorem wellFormed_ofJson {j : Json} (ht : t.WellFormed) (h : ofJson t j = .ok v) :
    v.ty = t ∧ v.WellFormed :=
  wellFormed_ofCanonical ht h

end ResourceSchema.Value
