import ResourceSchema.Proofs.Value.Document

/-!
# Documents that conform to a type

What it takes for a document to be one of a type, said without reading it (`Json.Conforms`), the
value that such a document stands for (`Json.valueAt`), and the document with null for every
attribute that it leaves out (`Json.completed`). Reading accepts just the conforming documents and
gives that value, whose own document is the completed one (`Value.ofJson_spec`).
-/

namespace ResourceSchema

variable {t : Ty} {v : Value} {j : Json} {documents : List Json} {members : List (String × Json)}
  {attributes : List (String × Ty)} {name : String}

namespace Json

mutual

/-- The value that a document stands for at a type. -/
def valueAt : Json → Ty → Value
  | .string s, .string => .string s
  | .number n, .number => .number n
  | .bool b, .bool => .bool b
  | .array items, .list t => .list t (items.map fun j => j.valueAt t)
  | .array items, .set t => .set t (items.map fun j => j.valueAt t)
  | .object members, .map t => .map t (members.map fun m => (m.1, m.2.valueAt t))
  | .object members, .object attributes => .object (fieldsAt members attributes)
  | _, t => .null t
termination_by structural _ t => t

/-- A field for each attribute, from the member of its name or else null. -/
def fieldsAt (members : List (String × Json)) : List (String × Ty) → List (String × Value)
  | [] => []
  | (name, t) :: rest =>
    (name, ((members.lookup name).getD .null).valueAt t) :: fieldsAt members rest
termination_by structural attributes => attributes

end

mutual

/-- The document with a null for every attribute of the type that it leaves out, at every depth. -/
def completed : Json → Ty → Json
  | .array items, .list t | .array items, .set t => .array (items.map fun j => j.completed t)
  | .object members, .map t => .object (members.map fun m => (m.1, m.2.completed t))
  | .object members, .object attributes => .object (completedMembers members attributes)
  | j, _ => j
termination_by structural _ t => t

def completedMembers (members : List (String × Json)) :
    List (String × Ty) → List (String × Json)
  | [] => []
  | (name, t) :: rest =>
    (name, ((members.lookup name).getD .null).completed t) :: completedMembers members rest
termination_by structural attributes => attributes

end

/-- The document is one of the type. Null is one of every type. The elements of a set must stand for
values of which no two are equal, and the members of an object must be declared; a member may be
left out. -/
inductive Conforms : Json → Ty → Prop
  | null (t : Ty) : Conforms .null t
  | string (s : String) : Conforms (.string s) .string
  | number (n : Number) : Conforms (.number n) .number
  | bool (b : Bool) : Conforms (.bool b) .bool
  | list {t : Ty} {items : List Json} (hitems : ∀ j ∈ items, Conforms j t) :
    Conforms (.array items) (.list t)
  | set {t : Ty} {items : List Json} (hitems : ∀ j ∈ items, Conforms j t)
      (hdistinct : items.Pairwise fun i j => (i.valueAt t).same (j.valueAt t) = false) :
    Conforms (.array items) (.set t)
  | map {t : Ty} {members : List (String × Json)} (hmembers : ∀ m ∈ members, Conforms m.2 t) :
    Conforms (.object members) (.map t)
  | object {attributes : List (String × Ty)} {members : List (String × Json)}
      (hdeclared : ∀ name ∈ Keyed.keys members, name ∈ Keyed.keys attributes)
      (hpresent : ∀ a ∈ attributes, ∀ j, members.lookup a.1 = some j → Conforms j a.2) :
    Conforms (.object members) (.object attributes)

/-- Members are strictly increasing at every depth. -/
inductive IsCanonical : Json → Prop
  | null : IsCanonical .null
  | bool (b : Bool) : IsCanonical (.bool b)
  | number (n : Number) : IsCanonical (.number n)
  | string (s : String) : IsCanonical (.string s)
  | array {items : List Json} (hitems : ∀ j ∈ items, IsCanonical j) : IsCanonical (.array items)
  | object {members : List (String × Json)} (hinc : Keyed.Increasing members)
      (hmembers : ∀ m ∈ members, IsCanonical m.2) : IsCanonical (.object members)

mutual

theorem isCanonical_canonical : ∀ j : Json, j.canonical.IsCanonical
  | .null => .null
  | .bool b => .bool b
  | .number n => .number n
  | .string s => .string s
  | .array items => .array (isCanonical_canonicalItems items)
  | .object members =>
    .object (Keyed.increasing_sorted _) fun _ hm =>
      isCanonical_canonicalMembers members _ (Keyed.mem_sorted hm)

theorem isCanonical_canonicalItems :
    ∀ items : List Json, ∀ j ∈ canonicalItems items, j.IsCanonical
  | [] => by simp [canonicalItems]
  | j :: rest =>
    List.forall_mem_cons.2 ⟨isCanonical_canonical j, isCanonical_canonicalItems rest⟩

theorem isCanonical_canonicalMembers :
    ∀ members : List (String × Json), ∀ m ∈ canonicalMembers members, m.2.IsCanonical
  | [] => by simp [canonicalMembers]
  | (_, j) :: rest =>
    List.forall_mem_cons.2 ⟨isCanonical_canonical j, isCanonical_canonicalMembers rest⟩

end

/-! ## Attribute by attribute -/

theorem fieldsAt_eq_map (members : List (String × Json)) (attributes : List (String × Ty)) :
    fieldsAt members attributes =
      attributes.map fun a => (a.1, ((members.lookup a.1).getD .null).valueAt a.2) :=
  eq_map_of_cons (f := fieldsAt members) rfl (fun _ _ => rfl) attributes

@[simp] theorem completedMembers_eq_map (members : List (String × Json))
    (attributes : List (String × Ty)) :
    completedMembers members attributes =
      attributes.map fun a => (a.1, ((members.lookup a.1).getD .null).completed a.2) :=
  eq_map_of_cons (f := completedMembers members) rfl (fun _ _ => rfl) attributes

/-- Members conform to the attributes of their names when each attribute has one to conform to it,
null where there is no member. -/
theorem forall_present_iff :
    (∀ a ∈ attributes, ∀ j, members.lookup a.1 = some j → j.Conforms a.2) ↔
      ∀ a ∈ attributes, ((members.lookup a.1).getD .null).Conforms a.2 := by
  refine forall₂_congr fun a _ => ⟨fun h => ?_, fun h j hl => ?_⟩
  · cases hl : members.lookup a.1 with
    | none => exact .null a.2
    | some j => exact h j hl
  · rwa [hl] at h

end Json

namespace Value

/-- At the type `t` the document is read just when it conforms, and then as what it stands for. -/
def ReadsAt (t : Ty) (j : Json) : Prop :=
  ∀ v, ofCanonical t j = .ok v ↔ j.Conforms t ∧ v = j.valueAt t

theorem ReadsAt.of_ok {w : Value} (hr : ofCanonical t j = .ok w) (hc : j.Conforms t)
    (hw : j.valueAt t = w) : ReadsAt t j := by
  intro v
  rw [hr, hw, Except.ok.injEq, eq_comm, iff_and_self]
  exact fun _ => hc

theorem ReadsAt.of_error {e : ValueError} (hr : ofCanonical t j = .error e)
    (hc : ¬j.Conforms t) : ReadsAt t j := by
  intro v
  rw [hr]
  exact iff_of_false (fun h => nomatch h) fun h => hc h.1

theorem readsAt_null (t : Ty) : ReadsAt t .null :=
  .of_ok (ofCanonical_null t) (.null t) (by cases t <;> rfl)

theorem readsAt_list (ht : t.WellFormed) (h : ∀ j ∈ documents, ReadsAt t j) :
    ReadsAt (.list t) (.array documents) := by
  intro v
  rw [ofCanonical_list_iff ht]
  constructor
  · rintro ⟨items, hitems, rfl⟩
    obtain ⟨hall, rfl⟩ := (forall₂_iff_map h).1 hitems
    exact ⟨.list hall, rfl⟩
  · rintro ⟨_ | _, rfl⟩
    next hall => exact ⟨_, (forall₂_iff_map h).2 ⟨hall, rfl⟩, rfl⟩

/-- What was read is fully known, so that it makes a set just when no two of it are equal. -/
theorem pairwise_apart_valueAt (ht : t.WellFormed) (h : ∀ j ∈ documents, ReadsAt t j)
    (hall : ∀ j ∈ documents, j.Conforms t) :
    (documents.map fun j => j.valueAt t).Pairwise Apart ↔
      documents.Pairwise fun i j => (i.valueAt t).same (j.valueAt t) = false := by
  rw [List.pairwise_map]
  refine List.Pairwise.iff_of_mem fun hi _ => ⟨fun hapart => hapart ?_, apart_of_same_eq_false⟩
  exact isFullyKnown_of_ofCanonical ht ((h _ hi _).2 ⟨hall _ hi, rfl⟩)

theorem readsAt_set (ht : t.WellFormed) (h : ∀ j ∈ documents, ReadsAt t j) :
    ReadsAt (.set t) (.array documents) := by
  intro v
  rw [ofCanonical_set_iff ht]
  constructor
  · rintro ⟨items, hitems, hapart, rfl⟩
    obtain ⟨hall, rfl⟩ := (forall₂_iff_map h).1 hitems
    exact ⟨.set hall ((pairwise_apart_valueAt ht h hall).1 hapart), rfl⟩
  · rintro ⟨_ | _, rfl⟩
    next hall hdistinct =>
      exact ⟨_, (forall₂_iff_map h).2 ⟨hall, rfl⟩,
        (pairwise_apart_valueAt ht h hall).2 hdistinct, rfl⟩

theorem readsAt_map (ht : t.WellFormed) (hinc : Keyed.Increasing members)
    (h : ∀ m ∈ members, ReadsAt t m.2) : ReadsAt (.map t) (.object members) := by
  have hread : ∀ {entries}, List.Forall₂
      (fun m e => m.1 = e.1 ∧ ofCanonical t m.2 = .ok e.2) members entries ↔
      (∀ m ∈ members, m.2.Conforms t) ∧ entries = members.map fun m => (m.1, m.2.valueAt t) := by
    refine forall₂_iff_map fun m hm e => ?_
    rw [h m hm, Prod.ext_iff, and_left_comm, eq_comm]
  have hsorted : Keyed.sorted (members.map fun m => (m.1, m.2.valueAt t)) =
      members.map fun m => (m.1, m.2.valueAt t) := by
    rw [Keyed.sorted_map (fun j : Json => j.valueAt t), Keyed.sorted_eq_self hinc]
  intro v
  rw [ofCanonical_map_iff ht]
  constructor
  · rintro ⟨entries, hentries, rfl⟩
    obtain ⟨hall, rfl⟩ := hread.1 hentries
    exact ⟨.map hall, congrArg (Value.map t) hsorted⟩
  · rintro ⟨_ | _, rfl⟩
    next hall => exact ⟨_, hread.2 ⟨hall, rfl⟩, congrArg (Value.map t) hsorted.symm⟩

theorem readsAt_object (ht : (Ty.object attributes).WellFormed)
    (h : ∀ a ∈ attributes, ReadsAt a.2 ((members.lookup a.1).getD .null)) :
    ReadsAt (.object attributes) (.object members) := by
  have hread : ∀ {fields}, List.Forall₂ (fun a f => a.1 = f.1 ∧
      ofCanonical a.2 ((members.lookup a.1).getD .null) = .ok f.2) attributes fields ↔
      (∀ a ∈ attributes, ((members.lookup a.1).getD .null).Conforms a.2) ∧
        fields = Json.fieldsAt members attributes := by
    rw [Json.fieldsAt_eq_map]
    refine forall₂_iff_map fun a ha f => ?_
    rw [h a ha, Prod.ext_iff, and_left_comm, eq_comm]
  intro v
  rw [ofCanonical_object_iff ht]
  constructor
  · rintro ⟨hdeclared, fields, hfields, rfl⟩
    obtain ⟨hall, rfl⟩ := hread.1 hfields
    exact ⟨.object hdeclared (Json.forall_present_iff.2 hall), rfl⟩
  · rintro ⟨_ | _, rfl⟩
    next hdeclared hpresent =>
      exact ⟨hdeclared, _, hread.2 ⟨Json.forall_present_iff.1 hpresent, rfl⟩, rfl⟩

/-- Documents whose members are in order are read just when they conform. -/
theorem readsAt_of_isCanonical (ht : t.WellFormed) (hj : j.IsCanonical) : ReadsAt t j := by
  induction t using Ty.induct generalizing j with
  | string =>
    cases hj with
    | null => exact readsAt_null _
    | string s => exact .of_ok rfl (.string s) rfl
    | _ => exact .of_error rfl fun h => nomatch h
  | number =>
    cases hj with
    | null => exact readsAt_null _
    | number n => exact .of_ok rfl (.number n) rfl
    | _ => exact .of_error rfl fun h => nomatch h
  | bool =>
    cases hj with
    | null => exact readsAt_null _
    | bool b => exact .of_ok rfl (.bool b) rfl
    | _ => exact .of_error rfl fun h => nomatch h
  | list t ih =>
    cases hj with
    | null => exact readsAt_null _
    | array hitems => exact readsAt_list ht fun j hj => ih ht (hitems j hj)
    | _ => exact .of_error rfl fun h => nomatch h
  | set t ih =>
    cases hj with
    | null => exact readsAt_null _
    | array hitems => exact readsAt_set ht fun j hj => ih ht (hitems j hj)
    | _ => exact .of_error rfl fun h => nomatch h
  | map t ih =>
    cases hj with
    | null => exact readsAt_null _
    | object hinc hmembers => exact readsAt_map ht hinc fun m hm => ih ht (hmembers m hm)
    | _ => exact .of_error rfl fun h => nomatch h
  | object attributes ih =>
    cases hj with
    | null => exact readsAt_null _
    | @object members hinc hmembers =>
      refine readsAt_object ht fun a ha => ih a ha ((Ty.wellFormed_object_iff.1 ht).2 a ha) ?_
      cases hl : members.lookup a.1 with
      | none => exact .null
      | some j => exact hmembers _ (Keyed.mem_of_lookup hl)
    | _ => exact .of_error rfl fun h => nomatch h

/-! ## The document of what was read -/

theorem itemsJson_map {f : Json → Value} {g : Json → Json}
    (h : ∀ j ∈ documents, (f j).toJson = .ok (g j)) :
    itemsJson (documents.map f) = .ok (documents.map g) := by
  rw [itemsJson_eq_ok, List.forall₂_map_left_iff, List.forall₂_map_right_iff, List.forall₂_same]
  exact h

theorem entriesJson_map {α : Type} {f : String × α → Value} {g : String × α → Json}
    {entries : List (String × α)} (h : ∀ e ∈ entries, (f e).toJson = .ok (g e)) :
    entriesJson (entries.map fun e => (e.1, f e)) = .ok (entries.map fun e => (e.1, g e)) := by
  rw [entriesJson_eq_ok, List.forall₂_map_left_iff, List.forall₂_map_right_iff, List.forall₂_same]
  exact fun e he => ⟨rfl, h e he⟩

/-- What a conforming document stands for has the completed document. -/
theorem toJson_valueAt (h : j.Conforms t) : (j.valueAt t).toJson = .ok (j.completed t) := by
  induction t using Ty.induct generalizing j with
  | string => cases h <;> rfl
  | number => cases h <;> rfl
  | bool => cases h <;> rfl
  | list t ih =>
    cases h with
    | null => rfl
    | list hitems =>
      rw [Json.valueAt, toJson, itemsJson_map fun j hj => ih (hitems j hj)]
      rfl
  | set t ih =>
    cases h with
    | null => rfl
    | set hitems _ =>
      rw [Json.valueAt, toJson, itemsJson_map fun j hj => ih (hitems j hj)]
      rfl
  | map t ih =>
    cases h with
    | null => rfl
    | map hmembers =>
      rw [Json.valueAt, toJson, entriesJson_map fun m hm => ih (hmembers m hm)]
      rfl
  | object attributes ih =>
    cases h with
    | null => rfl
    | object _ hpresent =>
      have hall := Json.forall_present_iff.1 hpresent
      rw [Json.valueAt, Json.fieldsAt_eq_map, toJson,
        entriesJson_map fun a ha => ih a ha (hall a ha), Json.completed,
        Json.completedMembers_eq_map]
      rfl

/-- Reading a document at a type succeeds just when it conforms. The value is well formed, fully
known and of the type, and its document has all that was left out. -/
theorem ofJson_spec (ht : t.WellFormed) (j : Json) :
    ((∃ v, ofJson t j = .ok v) ↔ j.canonical.Conforms t) ∧
      ∀ v, ofJson t j = .ok v →
        v = j.canonical.valueAt t ∧ v.WellFormed ∧ v.isFullyKnown = true ∧ v.ty = t ∧
          v.toJson = .ok (j.canonical.completed t) := by
  have hreads := readsAt_of_isCanonical ht (Json.isCanonical_canonical j)
  refine ⟨⟨fun ⟨v, hv⟩ => ((hreads v).1 hv).1, fun hc => ⟨_, (hreads _).2 ⟨hc, rfl⟩⟩⟩, ?_⟩
  intro v hv
  obtain ⟨hc, rfl⟩ := (hreads v).1 hv
  obtain ⟨hty, hwf⟩ := wellFormed_ofJson ht hv
  exact ⟨rfl, hwf, isFullyKnown_of_ofCanonical ht hv, hty, toJson_valueAt hc⟩

def ruleTy : Ty := .object [("note", .string), ("port", .number)]

/-- A set of rules gets the ports that are left out. A rule that leaves out its port and one that
gives a null are the same rule twice. -/
theorem ofJson_spec_rules :
    (∃ v, ofJson (.set ruleTy) (.array [.object [("note", .string "a")], .object []]) = .ok v ∧
      v.toJson = .ok (.array [.object [("note", .string "a"), ("port", .null)],
        .object [("note", .null), ("port", .null)]])) ∧
      ∀ v, ofJson (.set ruleTy) (.array [.object [("note", .string "a")],
        .object [("port", .null), ("note", .string "a")]]) ≠ .ok v := by
  have ht : (Ty.set ruleTy).WellFormed :=
    ⟨List.pairwise_pair.2 (by decide +kernel), trivial, trivial, trivial⟩
  constructor
  · have hnote : (Json.object [("note", .string "a")]).Conforms ruleTy := by
      refine .object (by simp [Keyed.keys]) fun a ha j hl => ?_
      simp only [List.mem_cons, List.not_mem_nil, or_false] at ha
      rcases ha with rfl | rfl
      · obtain rfl : Json.string "a" = j := by simpa using hl
        exact .string "a"
      · cases hl
    have hempty : (Json.object []).Conforms ruleTy :=
      .object (by simp) fun a _ j hl => by cases hl
    have hrules : (Json.array [.object [("note", .string "a")], .object []]).Conforms
        (.set ruleTy) :=
      .set (by simp [hnote, hempty]) (by decide +kernel)
    obtain ⟨hread, hspec⟩ :=
      ofJson_spec ht (.array [.object [("note", .string "a")], .object []])
    obtain ⟨v, hv⟩ := hread.2 hrules
    exact ⟨v, hv, (hspec v hv).2.2.2.2⟩
  · intro v hv
    cases (ofJson_spec ht _).1.1 ⟨v, hv⟩ with
    | set _ hdistinct => exact absurd hdistinct (by decide +kernel)

end Value
end ResourceSchema
