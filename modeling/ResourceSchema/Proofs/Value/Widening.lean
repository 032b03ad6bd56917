import Mathlib.Data.List.Perm.Basic
import ResourceSchema.Proofs.Value.Document
import ResourceSchema.Proofs.Value.Typing

/-!
# Values at types with more attributes

A type is extended by another if its objects have further attributes there, at any depth. A document
of the one type is a document of the other, with the same data in it: the attributes that were added
are null (`ofCanonical_widen`). What is in a value is found at the same paths (`atPath_widen`).
-/

namespace ResourceSchema

/-! ## Types -/

namespace Ty

/-- The objects of the second type have the attributes of those of the first, and perhaps more. -/
inductive ExtendedBy : Ty → Ty → Prop
  | string : ExtendedBy .string .string
  | number : ExtendedBy .number .number
  | bool : ExtendedBy .bool .bool
  | list {t u : Ty} (h : ExtendedBy t u) : ExtendedBy (.list t) (.list u)
  | set {t u : Ty} (h : ExtendedBy t u) : ExtendedBy (.set t) (.set u)
  | map {t u : Ty} (h : ExtendedBy t u) : ExtendedBy (.map t) (.map u)
  | object {old new : List (String × Ty)} (hn : ∀ name ∈ Keyed.keys old, name ∈ Keyed.keys new)
      (h : ∀ name t u, old.lookup name = some t → new.lookup name = some u → ExtendedBy t u) :
      ExtendedBy (.object old) (.object new)

theorem ExtendedBy.refl (t : Ty) : t.ExtendedBy t := by
  induction t using Ty.induct with
  | string => exact .string
  | number => exact .number
  | bool => exact .bool
  | list t ih => exact .list ih
  | set t ih => exact .set ih
  | map t ih => exact .map ih
  | object attributes ih =>
    refine .object (fun name hn => hn) ?_
    intro name t u ht hu
    rw [ht] at hu
    cases hu
    exact ih _ (Keyed.mem_of_lookup ht)

theorem ExtendedBy.eq_of_isPrimitive {t u : Ty} (h : t.ExtendedBy u) (ht : t.isPrimitive = true) :
    u = t := by
  cases h <;> first | rfl | cases ht

theorem ExtendedBy.step {t u t' : Ty} {s : PathStep} (h : t.ExtendedBy u)
    (ht : t.step s = .ok t') : ∃ u', u.step s = .ok u' ∧ t'.ExtendedBy u' := by
  cases step_eq_ok_iff.1 ht with
  | name hl =>
    cases h with
    | object hn h =>
      obtain ⟨u', hu⟩ := Keyed.exists_lookup
        (hn _ (Keyed.mem_keys_of_mem (Keyed.mem_of_lookup hl)))
      exact ⟨u', step_eq_ok_iff.2 (.name hu), h _ _ _ hl hu⟩
  | index hi =>
    cases h with
    | list h => exact ⟨_, step_eq_ok_iff.2 (.index hi), h⟩
  | element =>
    cases h with
    | set h => exact ⟨_, step_eq_ok_iff.2 .element, h⟩
  | key =>
    cases h with
    | map h => exact ⟨_, step_eq_ok_iff.2 .key, h⟩

end Ty

namespace Value

/-! ## Values -/

mutual

/-- The value at a type that extends its own; the attributes that are added are null. -/
def widen (u : Ty) (v : Value) : Value :=
  match u, v with
  | u, .null _ => .null u
  | u, .unknown _ => .unknown u
  | .list u, .list _ items => .list u (widenItems u items)
  | .set u, .set _ items => .set u (widenItems u items)
  | .map u, .map _ entries => .map u (widenEntries u entries)
  | .object attributes, .object fields =>
    let kept := widenFields attributes fields
    .object (attributes.map fun a => (a.1, (kept.lookup a.1).getD (.null a.2)))
  | _, v => v

def widenItems (u : Ty) : List Value → List Value
  | [] => []
  | v :: vs => widen u v :: widenItems u vs

def widenEntries (u : Ty) : List (String × Value) → List (String × Value)
  | [] => []
  | (key, v) :: rest => (key, widen u v) :: widenEntries u rest

/-- Each field at the type that the attributes give it. -/
def widenFields (attributes : List (String × Ty)) : List (String × Value) → List (String × Value)
  | [] => []
  | (name, v) :: rest =>
    (name, widen ((attributes.lookup name).getD v.ty) v) :: widenFields attributes rest

end

variable {t u : Ty} {v w : Value} {j : Json} {s : PathStep} {p : Path} {items : List Value}
  {entries fields : List (String × Value)} {attributes : List (String × Ty)}

@[simp] theorem widenItems_eq_map (u : Ty) (items : List Value) :
    widenItems u items = items.map (widen u) :=
  eq_map_of_cons rfl (fun _ _ => rfl) items

@[simp] theorem widenEntries_eq_map (u : Ty) (entries : List (String × Value)) :
    widenEntries u entries = entries.map fun e => (e.1, e.2.widen u) :=
  eq_map_of_cons rfl (fun _ _ => rfl) entries

theorem lookup_widenFields {name : String} (h : attributes.lookup name = some u)
    (fields : List (String × Value)) :
    (widenFields attributes fields).lookup name = (fields.lookup name).map (widen u) := by
  induction fields with
  | nil => rfl
  | cons f rest ih =>
    obtain ⟨k, v⟩ := f
    rw [widenFields, List.lookup_cons, List.lookup_cons, ih]
    cases heq : name == k with
    | false => rfl
    | true =>
      obtain rfl := beq_iff_eq.1 heq
      rw [h]
      rfl

/-- The field of an object at a type that extends its own. -/
def widenField (fields : List (String × Value)) (name : String) (u : Ty) : Value :=
  ((fields.lookup name).map (widen u)).getD (.null u)

@[simp] theorem widen_null (u t : Ty) : widen u (.null t) = .null u := rfl

@[simp] theorem widen_unknown (u t : Ty) : widen u (.unknown t) = .unknown u := rfl

@[simp] theorem widen_list (u t : Ty) (items : List Value) :
    widen (.list u) (.list t items) = .list u (items.map (widen u)) := by
  simp [widen]

@[simp] theorem widen_set (u t : Ty) (items : List Value) :
    widen (.set u) (.set t items) = .set u (items.map (widen u)) := by
  simp [widen]

@[simp] theorem widen_map (u t : Ty) (entries : List (String × Value)) :
    widen (.map u) (.map t entries) = .map u (entries.map fun e => (e.1, e.2.widen u)) := by
  simp [widen]

theorem widen_object (hd : (Keyed.keys attributes).Nodup) (fields : List (String × Value)) :
    widen (.object attributes) (.object fields) =
      .object (attributes.map fun a => (a.1, widenField fields a.1 a.2)) := by
  rw [widen]
  refine congrArg Value.object (List.map_congr_left fun a ha => ?_)
  rw [lookup_widenFields (Keyed.lookup_of_mem hd ha)]
  rfl

theorem widenField_of_lookup {name : String} (h : fields.lookup name = some v) (u : Ty) :
    widenField fields name u = v.widen u := by
  rw [widenField, h]
  rfl

/-! ## Widened values -/

theorem ty_widen (h : t.ExtendedBy u) (hu : u.WellFormed) (hv : HasType t v) :
    (v.widen u).ty = u := by
  induction h generalizing v with
  | string => cases hv <;> rfl
  | number => cases hv <;> rfl
  | bool => cases hv <;> rfl
  | list h ih => cases hv <;> rfl
  | set h ih => cases hv <;> rfl
  | map h ih => cases hv <;> rfl
  | @object old new hn h ih =>
    obtain ⟨hinc, hnew⟩ := Ty.wellFormed_object_iff.1 hu
    cases hv with
    | null => rfl
    | unknown => rfl
    | @object _ fields hk hkeys hf =>
      rw [widen_object hinc.nodup, ty, fieldTypes_eq_map, List.map_map]
      refine congrArg Ty.object ((List.map_congr_left fun a ha => ?_).trans (List.map_id _))
      refine Prod.ext rfl ?_
      show (widenField fields a.1 a.2).ty = a.2
      cases hx : fields.lookup a.1 with
      | none => rw [widenField, hx]; rfl
      | some x =>
        have hmem := Keyed.mem_of_lookup hx
        obtain ⟨t, ht⟩ := Keyed.exists_lookup (hkeys ▸ Keyed.mem_keys_of_mem hmem)
        rw [widenField_of_lookup hx]
        exact ih a.1 t a.2 ht (Keyed.lookup_of_mem hinc.nodup ha) (hnew a ha)
          (hf a.1 t x (Keyed.mem_of_lookup ht) hmem)

/-- Values that are equal when widened were equal before. -/
theorem same_of_widen (h : t.ExtendedBy u) (hu : u.WellFormed) (hv : HasType t v)
    (hw : HasType t w) (hs : (v.widen u).same (w.widen u) = true) : v.same w = true := by
  induction h generalizing v w with
  | string => cases hv <;> cases hw <;> simp_all [widen, same]
  | number => cases hv <;> cases hw <;> simp_all [widen, same]
  | bool => cases hv <;> cases hw <;> simp_all [widen, same]
  | @list t u h ih =>
    cases hv <;> cases hw <;> simp only [widen_null, widen_unknown, widen_list] at hs <;>
      simp only [same, Bool.false_eq_true, Bool.and_eq_true, beq_self_eq_true, true_and] at hs ⊢
    next items _ hitems others _ hothers =>
    rw [sameItems_iff, List.forall₂_map_left_iff, List.forall₂_map_right_iff] at hs
    exact sameItems_iff.2 (forall₂_imp_of_mem hs fun v hv w hw hs =>
      ih hu (hitems v hv) (hothers w hw) hs)
  | @set t u h ih =>
    cases hv <;> cases hw <;> simp only [widen_null, widen_unknown, widen_set] at hs <;>
      simp only [same, Bool.false_eq_true, Bool.and_eq_true, beq_self_eq_true, true_and] at hs ⊢
    next items _ _ hitems others _ _ hothers =>
    obtain ⟨matched, hperm, hm⟩ := pairUp_iff.1 hs
    -- The widened elements were rearranged as the elements themselves can be.
    obtain ⟨arranged, rfl, harranged⟩ :=
      (congrFun₂ (List.eq_map_comp_perm (widen u)) matched others).mpr hperm
    rw [List.forall₂_map_left_iff, List.forall₂_map_right_iff] at hm
    refine pairUp_iff.2 ⟨arranged, harranged, forall₂_imp_of_mem hm fun v hv w hw hs => ?_⟩
    exact ih hu (hitems v hv) (hothers w (harranged.mem_iff.1 hw)) hs
  | @map t u h ih =>
    cases hv <;> cases hw <;> simp only [widen_null, widen_unknown, widen_map] at hs <;>
      simp only [same, Bool.false_eq_true, Bool.and_eq_true, beq_self_eq_true, true_and] at hs ⊢
    next entries _ _ hentries others _ _ hothers =>
    rw [sameEntries_iff, List.forall₂_map_left_iff, List.forall₂_map_right_iff] at hs
    exact sameEntries_iff.2 (forall₂_imp_of_mem hs fun a ha b hb hs =>
      ⟨hs.1, ih hu (hentries a ha) (hothers b hb) hs.2⟩)
  | @object old new hn h ih =>
    obtain ⟨hinc, hnew⟩ := Ty.wellFormed_object_iff.1 hu
    cases hv <;> cases hw <;>
      simp only [widen_null, widen_unknown, widen_object hinc.nodup] at hs <;>
      simp only [same, Bool.false_eq_true, beq_self_eq_true] at hs ⊢
    next fields hkf hnf hf others hko hno ho =>
    rw [sameEntries_iff, List.forall₂_map_left_iff, List.forall₂_map_right_iff,
      List.forall₂_same] at hs
    refine sameEntries_iff.2 (Keyed.forall₂_of_keys (R := fun x y => x.same y = true)
      (hnf.trans hno.symm) fun name x y hx hy => ?_)
    have hname : name ∈ Keyed.keys old := hnf ▸ Keyed.mem_keys_of_mem hx
    obtain ⟨t, ht⟩ := Keyed.exists_lookup hname
    obtain ⟨u, hl⟩ := Keyed.exists_lookup (hn name hname)
    have hsame := (hs (name, u) (Keyed.mem_of_lookup hl)).2
    rw [widenField_of_lookup (Keyed.lookup_of_mem hkf.nodup hx),
      widenField_of_lookup (Keyed.lookup_of_mem hko.nodup hy)] at hsame
    have hmem := Keyed.mem_of_lookup ht
    exact ih name t u ht hl (hnew _ (Keyed.mem_of_lookup hl)) (hf name t x hmem hx)
      (ho name t y hmem hy) hsame

/-! ## Reading at a type with more attributes -/

/-- What has been read of a member is the field of its name. -/
theorem lookup_of_read {members : List (String × Json)} {name : String}
    (ht : (Ty.object attributes).WellFormed)
    (hm : List.Forall₂ (fun a f => a.1 = f.1 ∧
      ofCanonical a.2 ((members.lookup a.1).getD .null) = .ok f.2) attributes fields)
    (h : attributes.lookup name = some t) :
    ∃ x, fields.lookup name = some x ∧
      ofCanonical t ((members.lookup name).getD .null) = .ok x := by
  obtain ⟨hinc, hwf⟩ := Ty.wellFormed_object_iff.1 ht
  obtain ⟨⟨_, x⟩, hx, rfl, hread⟩ := forall₂_exists_right hm (Keyed.mem_of_lookup h)
  refine ⟨x, Keyed.lookup_of_mem ?_ hx, hread⟩
  rw [← keys_fieldTypes, fieldTypes_of_read hwf hm]
  exact hinc.nodup

/-- What is read at a type is read at every type that extends it, widened. -/
theorem ofCanonical_widen (h : t.ExtendedBy u) (ht : t.WellFormed) (hu : u.WellFormed)
    (hr : ofCanonical t j = .ok v) : ofCanonical u j = .ok (v.widen u) := by
  induction h generalizing j v with
  | string => cases j <;> simp only [ofCanonical] at hr ⊢ <;> cases hr <;> rfl
  | number => cases j <;> simp only [ofCanonical] at hr ⊢ <;> cases hr <;> rfl
  | bool => cases j <;> simp only [ofCanonical] at hr ⊢ <;> cases hr <;> rfl
  | @list t u h ih =>
    cases j <;> try (simp only [ofCanonical] at hr; cases hr)
    case list.null.refl => rw [widen_null, ofCanonical_null]
    case list.array documents =>
      have ht : t.WellFormed := ht
      have hu : u.WellFormed := hu
      obtain ⟨items, hm, rfl⟩ := (ofCanonical_list_iff ht).1 hr
      rw [widen_list]
      refine (ofCanonical_list_iff hu).2 ⟨items.map (widen u), ?_, rfl⟩
      rw [List.forall₂_map_right_iff]
      exact hm.imp fun j x hj => ih ht hu hj
  | @set t u h ih =>
    cases j <;> try (simp only [ofCanonical] at hr; cases hr)
    case set.null.refl => rw [widen_null, ofCanonical_null]
    case set.array documents =>
      have ht : t.WellFormed := ht
      have hu : u.WellFormed := hu
      obtain ⟨items, hm, hapart, rfl⟩ := (ofCanonical_set_iff ht).1 hr
      rw [widen_set]
      refine (ofCanonical_set_iff hu).2 ⟨items.map (widen u), ?_, ?_, rfl⟩
      · rw [List.forall₂_map_right_iff]
        exact hm.imp fun j x hj => ih ht hu hj
      · have hread : ∀ x ∈ items, HasType t x ∧ x.isFullyKnown = true := by
          intro x hx
          obtain ⟨j, _, hj⟩ := forall₂_exists_left hm hx
          exact ⟨hasType_iff.2 (wellFormed_ofCanonical ht hj), isFullyKnown_of_ofCanonical ht hj⟩
        rw [List.pairwise_map]
        refine hapart.imp_of_mem fun {x y} hx hy hxy _ => Bool.eq_false_iff.2 fun hs => ?_
        have hne := hxy (hread x hx).2
        rw [same_of_widen h hu (hread x hx).1 (hread y hy).1 hs] at hne
        cases hne
  | @map t u h ih =>
    cases j <;> try (simp only [ofCanonical] at hr; cases hr)
    case map.null.refl => rw [widen_null, ofCanonical_null]
    case map.object members =>
      have ht : t.WellFormed := ht
      have hu : u.WellFormed := hu
      obtain ⟨entries, hm, rfl⟩ := (ofCanonical_map_iff ht).1 hr
      rw [widen_map, ← Keyed.sorted_map]
      refine (ofCanonical_map_iff hu).2 ⟨entries.map fun e => (e.1, e.2.widen u), ?_, rfl⟩
      rw [List.forall₂_map_right_iff]
      exact hm.imp fun m e hj => ⟨hj.1, ih ht hu hj.2⟩
  | @object old new hn h ih =>
    cases j <;> try (simp only [ofCanonical] at hr; cases hr)
    case object.null.refl => rw [widen_null, ofCanonical_null]
    case object.object members =>
      obtain ⟨hdeclared, fields, hm, rfl⟩ := (ofCanonical_object_iff ht).1 hr
      obtain ⟨hinc, hnew⟩ := Ty.wellFormed_object_iff.1 hu
      rw [widen_object hinc.nodup]
      refine (ofCanonical_object_iff hu).2 ⟨fun name hname => hn name (hdeclared name hname), _, ?_,
        rfl⟩
      rw [List.forall₂_map_right_iff, List.forall₂_same]
      rintro ⟨name, u⟩ hmem
      refine ⟨rfl, ?_⟩
      dsimp only
      cases hl : old.lookup name with
      | some t =>
        obtain ⟨x, hx, hread⟩ := lookup_of_read ht hm hl
        rw [widenField_of_lookup hx]
        exact ih name t u hl (Keyed.lookup_of_mem hinc.nodup hmem)
          ((Ty.wellFormed_object_iff.1 ht).2 _ (Keyed.mem_of_lookup hl)) (hnew _ hmem) hread
      | none =>
        -- An attribute that was added has no member in the document.
        have hmember : members.lookup name = none :=
          Keyed.lookup_eq_none.2 fun hk => Keyed.lookup_eq_none.1 hl (hdeclared name hk)
        have hfield : fields.lookup name = none := by
          have htypes := fieldTypes_of_read (Ty.wellFormed_object_iff.1 ht).2 hm
          rwa [Keyed.lookup_eq_none, ← keys_fieldTypes, htypes, ← Keyed.lookup_eq_none]
        rw [hmember, widenField, hfield]
        exact ofCanonical_null u

theorem ofJson_widen (h : t.ExtendedBy u) (ht : t.WellFormed) (hu : u.WellFormed)
    (hr : ofJson t j = .ok v) : ofJson u j = .ok (v.widen u) :=
  ofCanonical_widen h ht hu hr

/-! ## Paths through widened values -/

theorem widen_of_isPrimitive (h : v.ty.isPrimitive = true) : v.widen v.ty = v := by
  cases v <;> first | rfl | cases h

@[simp] theorem itemAt?_map (f : Value → Value) (items : List Value) (i : Int) :
    itemAt? (items.map f) i = (itemAt? items i).map f := by
  unfold itemAt?
  split
  · rfl
  · rw [List.getElem?_map]

/-- A step that does not name a set element leads to the child widened. -/
theorem child?_widen (hu : u.WellFormed) (h : v.ty.ExtendedBy u) (hs : ∀ x, s ≠ .element x)
    {u' : Ty} (hstep : u.step s = .ok u') (hc : v.child? s = some w) :
    (v.widen u).child? s = some (w.widen u') := by
  cases Ty.step_eq_ok_iff.1 hstep with
  | @name attributes name _ hl =>
    cases v <;> simp only [ty] at h <;> cases h <;> try cases hc
    next fields _ _ =>
    have hc : fields.lookup name = some w := hc
    have hd := (Ty.wellFormed_object_iff.1 hu).1.nodup
    rw [widen_object hd, child?, Keyed.lookup_mapWithKey (widenField fields), hl]
    exact congrArg some (widenField_of_lookup hc u')
  | @index _ i hi =>
    cases v <;> simp only [ty] at h <;> cases h <;> try cases hc
    next items _ =>
    have hc : itemAt? items i = some w := hc
    rw [widen_list, child?, itemAt?_map, hc]
    rfl
  | element => exact absurd rfl (hs _)
  | @key _ key =>
    cases v <;> simp only [ty] at h <;> cases h <;> try cases hc
    next entries _ =>
    have hc : entries.lookup key = some w := hc
    rw [widen_map, child?, Keyed.lookup_map, hc]
    rfl

theorem step_widen (hv : v.WellFormed) (hu : u.WellFormed) (h : v.ty.ExtendedBy u)
    (hs : ∀ x, s ≠ .element x) (hstep : v.step s = .ok w) :
    ∃ u', u.step s = .ok u' ∧ w.ty.ExtendedBy u' ∧ (v.widen u).step s = .ok (w.widen u') := by
  obtain ⟨u', hu', hext⟩ := h.step (step_spec hv hstep).1
  refine ⟨u', hu', hext, step_eq_ok_iff.2 ⟨⟨u', ?_⟩, ?_⟩⟩
  · rw [ty_widen h hu (.of_wellFormed hv)]
    exact hu'
  · exact child?_widen hu h hs hu' (step_eq_ok_iff.1 hstep).2

theorem atPath_widen (hv : v.WellFormed) (hu : u.WellFormed) (h : v.ty.ExtendedBy u)
    (hp : ∀ x, .element x ∉ p) (hat : v.atPath p = .ok w) :
    ∃ u', w.ty.ExtendedBy u' ∧ (v.widen u).atPath p = .ok (w.widen u') := by
  induction p generalizing v u with
  | nil => cases hat; exact ⟨u, h, rfl⟩
  | cons s p ih =>
    obtain ⟨child, hstep, hat⟩ := Except.bind_eq_ok.1 hat
    obtain ⟨u', hu', hext, hwiden⟩ := step_widen hv hu h
      (fun x hx => hp x (hx ▸ List.mem_cons_self)) hstep
    rw [atPath, hwiden]
    exact ih (step_spec hv hstep).2 (hu.step hu') hext
      (fun x hx => hp x (List.mem_cons_of_mem _ hx)) hat

end Value
end ResourceSchema
