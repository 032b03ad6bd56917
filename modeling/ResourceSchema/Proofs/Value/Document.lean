import ResourceSchema.Proofs.Value.Build

/-!
# Values and their documents

When a document can be read at a type, and what the value is then, one kind of type at a time. The
values without unknowns are the ones with documents, and the document of a value reads as the value
itself at its type (`ofJson_toJson`).
-/

namespace ResourceSchema

@[simp] theorem Json.canonicalItems_eq_map (items : List Json) :
    canonicalItems items = items.map canonical :=
  eq_map_of_cons rfl (fun _ _ => rfl) items

@[simp] theorem Json.canonicalMembers_eq_map (members : List (String × Json)) :
    canonicalMembers members = members.map fun m => (m.1, m.2.canonical) :=
  eq_map_of_cons rfl (fun _ _ => rfl) members

namespace Value

variable {t : Ty} {v : Value} {j : Json} {documents : List Json} {members : List (String × Json)}
  {attributes : List (String × Ty)} {items : List Value} {entries fields : List (String × Value)}

/-! ## Reading at a type -/

@[simp] theorem ofCanonical_null (t : Ty) : ofCanonical t .null = .ok (.null t) := by
  cases t <;> rfl

/-- Elements that were read have the type that they were read at. -/
theorem ty_of_read (ht : t.WellFormed)
    (h : List.Forall₂ (fun j x => ofCanonical t j = .ok x) documents items) :
    ∀ x ∈ items, x.ty = t := by
  intro x hx
  obtain ⟨j, _, hj⟩ := forall₂_exists_left h hx
  exact (wellFormed_ofCanonical ht hj).1

theorem ofCanonical_list_iff (ht : t.WellFormed) :
    ofCanonical (.list t) (.array documents) = .ok v ↔
      ∃ items, List.Forall₂ (fun j x => ofCanonical t j = .ok x) documents items ∧
        v = .list t items := by
  rw [ofCanonical]
  refine Except.bind_eq_ok.trans (exists_congr fun items => ?_)
  rw [Except.mapM_eq_ok, listOf_eq_ok]
  exact and_congr_right fun hitems => and_iff_right (ty_of_read ht hitems)

theorem ofCanonical_set_iff (ht : t.WellFormed) :
    ofCanonical (.set t) (.array documents) = .ok v ↔
      ∃ items, List.Forall₂ (fun j x => ofCanonical t j = .ok x) documents items ∧
        items.Pairwise Apart ∧ v = .set t items := by
  rw [ofCanonical]
  refine Except.bind_eq_ok.trans (exists_congr fun items => ?_)
  rw [Except.mapM_eq_ok, setOf_eq_ok]
  exact and_congr_right fun hitems => and_iff_right (ty_of_read ht hitems)

theorem ofCanonical_map_iff (ht : t.WellFormed) :
    ofCanonical (.map t) (.object members) = .ok v ↔
      ∃ entries, List.Forall₂ (fun m e => m.1 = e.1 ∧ ofCanonical t m.2 = .ok e.2) members entries ∧
        v = .map t (Keyed.sorted entries) := by
  rw [ofCanonical]
  refine Except.bind_eq_ok.trans (exists_congr fun entries => ?_)
  rw [Except.mapM_eq_ok, mapOf_eq_ok]
  simp only [Except.named_eq_ok]
  refine and_congr_right fun hentries => ⟨And.right, fun hv => ⟨fun e he => ?_, hv⟩⟩
  obtain ⟨m, _, hm⟩ := forall₂_exists_left hentries he
  exact (wellFormed_ofCanonical ht hm.2).1

/-! ## Objects -/

theorem fieldsOfMembers_eq_mapM (members : List (String × Json)) (attributes : List (String × Ty)) :
    fieldsOfMembers members attributes = attributes.mapM fun a => do
      return (a.1, ← ofCanonical a.2 ((members.lookup a.1).getD .null)) :=
  eq_mapM_of_cons (f := fieldsOfMembers members) rfl
    (fun a _ => by
      rw [fieldsOfMembers]
      cases ofCanonical a.2 ((members.lookup a.1).getD .null) <;> rfl)
    attributes

theorem fieldsOfMembers_eq_ok : fieldsOfMembers members attributes = .ok fields ↔
    List.Forall₂ (fun a f => a.1 = f.1 ∧
      ofCanonical a.2 ((members.lookup a.1).getD .null) = .ok f.2) attributes fields := by
  rw [fieldsOfMembers_eq_mapM, Except.mapM_eq_ok]
  simp only [Except.named_eq_ok]

@[simp] theorem undeclared?_eq_none : undeclared? attributes members = none ↔
    ∀ name ∈ Keyed.keys members, name ∈ Keyed.keys attributes := by
  simp [undeclared?, Keyed.keys]

/-- Fields of all attributes in their order make the object of just these fields. -/
theorem objectOfType_fieldTypes (hd : (Keyed.keys fields).Nodup) :
    objectOfType (.object (fieldTypes fields)) fields = .ok (.object fields) := by
  refine objectOfType_eq_ok.2 ⟨fun e he => ?_, ?_⟩
  · rw [lookup_fieldTypes, Keyed.lookup_of_mem hd he]
    rfl
  · rw [Keyed.assignAll_eq_self hd (by rw [keys_nullFields, keys_fieldTypes])]

/-- Fields that were read have the types that they were read at. -/
theorem fieldTypes_of_read (ht : ∀ a ∈ attributes, a.2.WellFormed)
    (h : List.Forall₂ (fun a f => a.1 = f.1 ∧
      ofCanonical a.2 ((members.lookup a.1).getD .null) = .ok f.2) attributes fields) :
    fieldTypes fields = attributes := by
  induction h with
  | nil => rfl
  | @cons a f _ _ haf _ ih =>
    obtain ⟨hwf, hrest⟩ := List.forall_mem_cons.1 ht
    obtain ⟨name, t⟩ := a
    obtain ⟨name', x⟩ := f
    obtain ⟨rfl, hx⟩ : name = name' ∧ _ := haf
    rw [fieldTypes, ih hrest, (wellFormed_ofCanonical hwf hx).1]

theorem ofCanonical_object_iff (ht : (Ty.object attributes).WellFormed) :
    ofCanonical (.object attributes) (.object members) = .ok v ↔
      (∀ name ∈ Keyed.keys members, name ∈ Keyed.keys attributes) ∧ ∃ fields,
        List.Forall₂ (fun a f => a.1 = f.1 ∧
          ofCanonical a.2 ((members.lookup a.1).getD .null) = .ok f.2) attributes fields ∧
        v = .object fields := by
  obtain ⟨hinc, hattrs⟩ := Ty.wellFormed_object_iff.1 ht
  have hmake : ∀ {fields}, fieldsOfMembers members attributes = .ok fields →
      objectOfType (.object attributes) fields = .ok (.object fields) := by
    intro fields hfields
    have htypes := fieldTypes_of_read hattrs (fieldsOfMembers_eq_ok.1 hfields)
    have hd : (Keyed.keys fields).Nodup := by
      rw [← keys_fieldTypes, htypes]
      exact hinc.nodup
    rw [← htypes]
    exact objectOfType_fieldTypes hd
  rw [ofCanonical, ← undeclared?_eq_none]
  cases undeclared? attributes members with
  | some name => simp
  | none =>
    simp only [true_and, ← fieldsOfMembers_eq_ok]
    constructor
    · intro h
      obtain ⟨fields, hfields, h⟩ := Except.bind_eq_ok.1 h
      rw [hmake hfields] at h
      cases h
      exact ⟨fields, hfields, rfl⟩
    · rintro ⟨fields, hfields, rfl⟩
      exact Except.bind_eq_ok.2 ⟨fields, hfields, hmake hfields⟩

/-- What is read from a document has no unknowns. -/
theorem isFullyKnown_of_ofCanonical (ht : t.WellFormed) (h : ofCanonical t j = .ok v) :
    v.isFullyKnown = true := by
  induction t using Ty.induct generalizing j v with
  | string => cases j <;> simp only [ofCanonical] at h <;> cases h <;> rfl
  | number => cases j <;> simp only [ofCanonical] at h <;> cases h <;> rfl
  | bool => cases j <;> simp only [ofCanonical] at h <;> cases h <;> rfl
  | list t ih =>
    cases j <;> try (simp only [ofCanonical] at h; cases h)
    case list.null.refl => rfl
    case list.array documents =>
      have ht : t.WellFormed := ht
      obtain ⟨items, hm, rfl⟩ := (ofCanonical_list_iff ht).1 h
      refine allFullyKnown_iff.2 fun x hx => ?_
      obtain ⟨j, _, hj⟩ := forall₂_exists_left hm hx
      exact ih ht hj
  | set t ih =>
    cases j <;> try (simp only [ofCanonical] at h; cases h)
    case set.null.refl => rfl
    case set.array documents =>
      have ht : t.WellFormed := ht
      obtain ⟨items, hm, _, rfl⟩ := (ofCanonical_set_iff ht).1 h
      refine allFullyKnown_iff.2 fun x hx => ?_
      obtain ⟨j, _, hj⟩ := forall₂_exists_left hm hx
      exact ih ht hj
  | map t ih =>
    cases j <;> try (simp only [ofCanonical] at h; cases h)
    case map.null.refl => rfl
    case map.object members =>
      have ht : t.WellFormed := ht
      obtain ⟨entries, hm, rfl⟩ := (ofCanonical_map_iff ht).1 h
      refine entriesFullyKnown_iff.2 fun e he => ?_
      obtain ⟨m, _, _, hj⟩ := forall₂_exists_left hm (Keyed.mem_sorted he)
      exact ih ht hj
  | object attributes ih =>
    cases j <;> try (simp only [ofCanonical] at h; cases h)
    case object.null.refl => rfl
    case object.object members =>
      obtain ⟨_, fields, hm, rfl⟩ := (ofCanonical_object_iff ht).1 h
      refine entriesFullyKnown_iff.2 fun e he => ?_
      obtain ⟨a, ha, _, hj⟩ := forall₂_exists_left hm he
      exact ih a ha ((Ty.wellFormed_object_iff.1 ht).2 a ha) hj

/-! ## Documents of values -/

theorem itemsJson_eq_mapM (items : List Value) : itemsJson items = items.mapM toJson :=
  eq_mapM_of_cons (f := itemsJson) rfl (fun _ _ => rfl) items

theorem itemsJson_eq_ok : itemsJson items = .ok documents ↔
    List.Forall₂ (fun v j => v.toJson = .ok j) items documents := by
  rw [itemsJson_eq_mapM, Except.mapM_eq_ok]

theorem entriesJson_eq_mapM (entries : List (String × Value)) :
    entriesJson entries = entries.mapM fun e => do return (e.1, ← e.2.toJson) :=
  eq_mapM_of_cons (f := entriesJson) rfl
    (fun e _ => by rw [entriesJson]; cases e.2.toJson <;> rfl) entries

theorem entriesJson_eq_ok : entriesJson entries = .ok members ↔
    List.Forall₂ (fun e m => e.1 = m.1 ∧ e.2.toJson = .ok m.2) entries members := by
  rw [entriesJson_eq_mapM, Except.mapM_eq_ok]
  simp only [Except.named_eq_ok]

/-- A value without unknowns has a document. -/
theorem exists_toJson (h : v.isFullyKnown = true) : ∃ j, v.toJson = .ok j := by
  induction v using Value.induct with
  | null t => exact ⟨.null, rfl⟩
  | unknown t => cases h
  | string s => exact ⟨.string s, rfl⟩
  | number n => exact ⟨.number n, rfl⟩
  | bool b => exact ⟨.bool b, rfl⟩
  | list t items ih | set t items ih =>
    obtain ⟨documents, hd⟩ :=
      Except.exists_mapM fun v hv => ih v hv (allFullyKnown_iff.1 h v hv)
    exact ⟨.array documents, by rw [toJson, itemsJson_eq_mapM, hd]; rfl⟩
  | map t entries ih | object entries ih =>
    have hentry : ∀ e ∈ entries, ∃ m : String × Json, (do return (e.1, ← e.2.toJson)) =
        (.ok m : Except ValueError (String × Json)) := by
      intro e he
      obtain ⟨j, hj⟩ := ih e he (entriesFullyKnown_iff.1 h e he)
      exact ⟨(e.1, j), Except.named_eq_ok.2 ⟨rfl, hj⟩⟩
    obtain ⟨members, hm⟩ := Except.exists_mapM hentry
    exact ⟨.object members, by rw [toJson, entriesJson_eq_mapM, hm]; rfl⟩

/-- A value that has a document has no unknowns. -/
theorem isFullyKnown_of_toJson (h : v.toJson = .ok j) : v.isFullyKnown = true := by
  induction v using Value.induct generalizing j with
  | unknown t => cases h
  | null t | string s | number n | bool b => rfl
  | list t items ih | set t items ih =>
    obtain ⟨documents, hd, _⟩ := Except.bind_eq_ok.1 h
    refine allFullyKnown_iff.2 fun x hx => ?_
    obtain ⟨jx, _, hjx⟩ := forall₂_exists_right (itemsJson_eq_ok.1 hd) hx
    exact ih x hx hjx
  | map t entries ih | object entries ih =>
    obtain ⟨members, hm, _⟩ := Except.bind_eq_ok.1 h
    refine entriesFullyKnown_iff.2 fun e he => ?_
    obtain ⟨m, _, _, hjm⟩ := forall₂_exists_right (entriesJson_eq_ok.1 hm) he
    exact ih e he hjm

theorem keys_entriesJson (h : entriesJson entries = .ok members) :
    Keyed.keys members = Keyed.keys entries := by
  have hm := entriesJson_eq_ok.1 h
  clear h
  induction hm with
  | nil => rfl
  | cons he _ ih => simp [he.1, ih]

theorem canonicalItems_of_itemsJson (h : itemsJson items = .ok documents)
    (ih : ∀ v ∈ items, ∀ j, v.toJson = .ok j → j.canonical = j) :
    Json.canonicalItems documents = documents := by
  rw [Json.canonicalItems_eq_map]
  refine (List.map_congr_left fun j hj => ?_).trans (List.map_id documents)
  obtain ⟨v, hv, hvj⟩ := forall₂_exists_left (itemsJson_eq_ok.1 h) hj
  exact ih v hv j hvj

theorem canonicalMembers_of_entriesJson (h : entriesJson entries = .ok members)
    (ih : ∀ e ∈ entries, ∀ j, e.2.toJson = .ok j → j.canonical = j) :
    Json.canonicalMembers members = members := by
  rw [Json.canonicalMembers_eq_map]
  refine (List.map_congr_left fun m hm => ?_).trans (List.map_id members)
  obtain ⟨e, he, _, hem⟩ := forall₂_exists_left (entriesJson_eq_ok.1 h) hm
  exact Prod.ext rfl (ih e he m.2 hem)

/-! ## Reading a document back -/

/-- The document of a well-formed value is in canonical form. -/
theorem canonical_toJson (hv : v.WellFormed) (h : v.toJson = .ok j) : j.canonical = j := by
  induction v using Value.induct generalizing j with
  | null t => cases h; rfl
  | unknown t => cases h
  | string s => cases h; rfl
  | number n => cases h; rfl
  | bool b => cases h; rfl
  | list t items ih =>
    obtain ⟨documents, hd, h⟩ := Except.bind_eq_ok.1 h
    cases h
    have hitems := (wellFormed_list_iff.1 hv).2
    rw [Json.canonical, canonicalItems_of_itemsJson hd fun v hv j => ih v hv (hitems v hv).2]
  | set t items ih =>
    obtain ⟨documents, hd, h⟩ := Except.bind_eq_ok.1 h
    cases h
    have hitems := (wellFormed_set_iff.1 hv).2.1
    rw [Json.canonical, canonicalItems_of_itemsJson hd fun v hv j => ih v hv (hitems v hv).2]
  | map t entries ih =>
    obtain ⟨members, hm, h⟩ := Except.bind_eq_ok.1 h
    cases h
    obtain ⟨_, hinc, hentries⟩ := wellFormed_map_iff.1 hv
    rw [Json.canonical,
      canonicalMembers_of_entriesJson hm fun e he j => ih e he (hentries e he).2,
      Keyed.sorted_eq_self]
    rw [Keyed.increasing_iff_keys, keys_entriesJson hm, ← Keyed.increasing_iff_keys]
    exact hinc
  | object fields ih =>
    obtain ⟨members, hm, h⟩ := Except.bind_eq_ok.1 h
    cases h
    obtain ⟨hinc, hfields⟩ := wellFormed_object_iff.1 hv
    rw [Json.canonical,
      canonicalMembers_of_entriesJson hm fun e he j => ih e he (hfields e he),
      Keyed.sorted_eq_self]
    rw [Keyed.increasing_iff_keys, keys_entriesJson hm, ← Keyed.increasing_iff_keys]
    exact hinc

theorem lookup_entriesJson (hd : (Keyed.keys entries).Nodup)
    (h : entriesJson entries = .ok members) {e : String × Value} (he : e ∈ entries) :
    ∃ j, members.lookup e.1 = some j ∧ e.2.toJson = .ok j := by
  obtain ⟨⟨name, j⟩, hm, rfl, hj⟩ := forall₂_exists_right (entriesJson_eq_ok.1 h) he
  exact ⟨j, Keyed.lookup_of_mem (keys_entriesJson h ▸ hd) hm, hj⟩

/-- A value without unknowns is read from its document at its type. -/
theorem ofCanonical_toJson (hv : v.WellFormed) (h : v.toJson = .ok j) :
    ofCanonical v.ty j = .ok v := by
  have hitems : ∀ {t : Ty} {items : List Value} {documents : List Json},
      itemsJson items = .ok documents →
      (∀ v ∈ items, ∀ j, v.toJson = .ok j → ofCanonical t j = .ok v) →
      List.Forall₂ (fun j v => ofCanonical t j = .ok v) documents items := by
    intro t items documents hd ih
    exact ((List.forall₂_and_left ..).2 ⟨ih, itemsJson_eq_ok.1 hd⟩).flip.imp
      fun j v ⟨hread, hj⟩ => hread j hj
  induction v using Value.induct generalizing j with
  | null t => cases h; exact ofCanonical_null t
  | unknown t => cases h
  | string s => cases h; rfl
  | number n => cases h; rfl
  | bool b => cases h; rfl
  | list t items ih =>
    obtain ⟨documents, hd, h⟩ := Except.bind_eq_ok.1 h
    cases h
    obtain ⟨ht, hwf⟩ := wellFormed_list_iff.1 hv
    refine (ofCanonical_list_iff ht).2 ⟨items, hitems hd fun v hv j hj => ?_, rfl⟩
    exact (hwf v hv).1 ▸ ih v hv (hwf v hv).2 hj
  | set t items ih =>
    obtain ⟨documents, hd, h⟩ := Except.bind_eq_ok.1 h
    cases h
    obtain ⟨ht, hwf, hapart⟩ := wellFormed_set_iff.1 hv
    refine (ofCanonical_set_iff ht).2 ⟨items, hitems hd fun v hv j hj => ?_, hapart, rfl⟩
    exact (hwf v hv).1 ▸ ih v hv (hwf v hv).2 hj
  | map t entries ih =>
    obtain ⟨members, hm, h⟩ := Except.bind_eq_ok.1 h
    cases h
    obtain ⟨ht, hinc, hwf⟩ := wellFormed_map_iff.1 hv
    refine (ofCanonical_map_iff ht).2 ⟨entries, ?_, by rw [Keyed.sorted_eq_self hinc]⟩
    have hread : ∀ e ∈ entries, ∀ j, e.2.toJson = .ok j → ofCanonical t j = .ok e.2 :=
      fun e he j hj => (hwf e he).1 ▸ ih e he (hwf e he).2 hj
    exact ((List.forall₂_and_left ..).2 ⟨hread, entriesJson_eq_ok.1 hm⟩).flip.imp
      fun m e ⟨hread, hname, hj⟩ => ⟨hname.symm, hread m.2 hj⟩
  | object fields ih =>
    obtain ⟨members, hm, h⟩ := Except.bind_eq_ok.1 h
    cases h
    obtain ⟨hinc, hwf⟩ := wellFormed_object_iff.1 hv
    refine (ofCanonical_object_iff hv.ty).2 ⟨fun name hn => ?_, fields, ?_, rfl⟩
    · rwa [keys_fieldTypes, ← keys_entriesJson hm]
    · rw [fieldTypes_eq_map, List.forall₂_map_left_iff, List.forall₂_same]
      intro e he
      obtain ⟨j, hl, hj⟩ := lookup_entriesJson hinc.nodup hm he
      refine ⟨rfl, ?_⟩
      rw [hl]
      exact ih e he (hwf e he) hj

/-- Reading the document of a value at its type gives back the value. -/
theorem ofJson_toJson (hv : v.WellFormed) (h : v.toJson = .ok j) : ofJson v.ty j = .ok v := by
  rw [ofJson, canonical_toJson hv h]
  exact ofCanonical_toJson hv h

/-- Just the values without unknowns have documents, and each is read from its own exactly as it
is stored. -/
theorem WellFormed.document_roundTrip (hv : v.WellFormed) :
    ((∃ j, v.toJson = .ok j) ↔ v.isFullyKnown = true) ∧
      ∀ j, v.toJson = .ok j → ofJson v.ty j = .ok v :=
  ⟨⟨fun ⟨_, hj⟩ => isFullyKnown_of_toJson hj, exists_toJson⟩, fun _ => ofJson_toJson hv⟩

/-- An object with an empty map, a null list and a set that is not stored in order. -/
def inventory : Value := .object [
  ("labels", .map .string []),
  ("mounts", .null (.list .string)),
  ("names", .set .string [.string "b", .null .string, .string "a"])]

theorem document_roundTrip_inventory :
    inventory.WellFormed ∧
      ∃ j, inventory.toJson = .ok j ∧ ofJson inventory.ty j = .ok inventory := by
  have hwf : inventory.WellFormed := by
    refine ⟨?_, ⟨trivial, List.Pairwise.nil, trivial⟩, trivial, ⟨trivial, ?_, ?_⟩, trivial⟩
    · simp only [Keyed.Increasing, List.pairwise_cons]
      decide +kernel
    · simp [ItemsWellFormed, ty, WellFormed, Ty.WellFormed]
    · simp [same]
  obtain ⟨hdocument, hread⟩ := WellFormed.document_roundTrip hwf
  obtain ⟨j, hj⟩ := hdocument.2 rfl
  exact ⟨hwf, j, hj, hread j hj⟩

end Value

end ResourceSchema
