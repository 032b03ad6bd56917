import ResourceSchema.Proofs.Value.Basic

/-!
# Equality of values

Values that are equal are equal to the same values (`same_congr`), so equality is an equivalence.
The difficult case is that of sets, whose elements are matched greedily: an element is known here
only by the test for the values that equal it, and two tests are either the same or never accept
the same value. Such tests can be run in any order (`takeAll_perm`).
-/

namespace ResourceSchema.Value

variable {α : Type} {f g : α → Bool} {fs gs : List (α → Bool)} {xs rest : List α}
  {t : Ty} {v w u : Value} {items others : List Value}

/-! ## Taking elements one by one -/

theorem removeFirst?_eq_some (h : removeFirst? f xs = some rest) :
    ∃ before x after, xs = before ++ x :: after ∧ rest = before ++ after ∧ f x = true := by
  induction xs generalizing rest with
  | nil => cases h
  | cons x xs ih =>
    rw [removeFirst?] at h
    split at h
    · next hx => cases h; exact ⟨[], x, xs, rfl, rfl, hx⟩
    · obtain ⟨tail, htail, rfl⟩ := Option.map_eq_some_iff.1 h
      obtain ⟨before, y, after, rfl, rfl, hy⟩ := ih htail
      exact ⟨x :: before, y, after, rfl, rfl, hy⟩

/-- The order in which two tests take an element each does not matter if no value passes both. -/
theorem removeFirst?_comm (h : ∀ x, f x = true → g x = false) (xs : List α) :
    (removeFirst? f xs).bind (removeFirst? g) = (removeFirst? g xs).bind (removeFirst? f) := by
  induction xs with
  | nil => rfl
  | cons x xs ih =>
    by_cases hf : f x = true
    · have hg := h x hf
      simp [removeFirst?, hf, hg, Option.bind_map, Function.comp_def]
    · by_cases hg : g x = true
      · simp [removeFirst?, hf, hg, Option.bind_map, Function.comp_def]
      · have hpush : ∀ q : α → Bool, ¬q x = true → ∀ o : Option (List α),
            (o.map (x :: ·)).bind (removeFirst? q) = (o.bind (removeFirst? q)).map (x :: ·) := by
          intro q hq o
          cases o <;> simp [removeFirst?, hq]
        rw [removeFirst?, removeFirst?, if_neg hf, if_neg hg, hpush g hg, hpush f hf, ih]

/-- Each test in turn takes the first element that passes it among those not taken yet, and none is
left over. -/
def takeAll : List (α → Bool) → List α → Bool
  | [], xs => xs.isEmpty
  | f :: fs, xs => (removeFirst? f xs).any (takeAll fs)

theorem takeAll_cons_cons (f g : α → Bool) (fs : List (α → Bool)) (xs : List α) :
    takeAll (f :: g :: fs) xs =
      ((removeFirst? f xs).bind (removeFirst? g)).any (takeAll fs) := by
  cases h : removeFirst? f xs <;> simp [takeAll, h]

theorem takeAll_perm (hp : fs.Perm gs)
    (h : ∀ f ∈ fs, ∀ g ∈ fs, f = g ∨ ∀ x, f x = true → g x = false) :
    takeAll fs = takeAll gs := by
  induction hp with
  | nil => rfl
  | cons f hp ih =>
    have hrest := ih fun f hf g hg => h f (List.mem_cons_of_mem _ hf) g (List.mem_cons_of_mem _ hg)
    funext xs
    rw [takeAll, takeAll, hrest]
  | swap f g fs =>
    funext xs
    rw [takeAll_cons_cons, takeAll_cons_cons]
    rcases h g (by simp) f (by simp) with rfl | hdisj
    · rfl
    · rw [removeFirst?_comm hdisj]
  | trans hp hq ih ih' =>
    rw [ih h, ih' fun f hf g hg => h f (hp.mem_iff.2 hf) g (hp.mem_iff.2 hg)]

theorem pairUp_eq_takeAll (items others : List Value) :
    pairUp items others = takeAll (items.map same) others := by
  induction items generalizing others with
  | nil => rw [pairUp, List.map_nil, takeAll]
  | cons v items ih =>
    rw [pairUp, List.map_cons, takeAll]
    split
    · next h => rw [h, ih]; rfl
    · next h => rw [h]; rfl

/-- Elements that pair up do so with some rearrangement of the others. -/
theorem exists_perm_of_pairUp (h : pairUp items others = true) :
    ∃ matched, matched.Perm others ∧
      List.Forall₂ (fun v w => v.same w = true) items matched := by
  induction items generalizing others with
  | nil =>
    rw [pairUp, List.isEmpty_iff] at h
    exact ⟨[], h ▸ List.Perm.refl _, .nil⟩
  | cons v items ih =>
    rw [pairUp] at h
    split at h
    · next rest hrest =>
      obtain ⟨before, w, after, rfl, rfl, hw⟩ := removeFirst?_eq_some hrest
      obtain ⟨matched, hperm, hmatched⟩ := ih h
      exact ⟨w :: matched, (hperm.cons w).trans List.perm_middle.symm, .cons hw hmatched⟩
    · cases h

/-! ## Equality is an equivalence -/

theorem sameItems_congr (h : items.map same = others.map same) :
    sameItems items = sameItems others := by
  induction items generalizing others with
  | nil =>
    rw [List.map_eq_nil_iff.1 h.symm]
  | cons v items ih =>
    rcases others with _ | ⟨w, others⟩
    · cases h
    · obtain ⟨hvw, hrest⟩ := List.cons.inj h
      funext xs
      cases xs with
      | nil => simp only [sameItems]
      | cons x xs => rw [sameItems, sameItems, hvw, ih hrest]

theorem pairUp_congr (hm : List.Forall₂ (fun v w => v.same w = true) items others)
    (ih : ∀ v ∈ items, ∀ w, v.same w = true → v.same = w.same) {matched : List Value}
    (hp : others.Perm matched) : pairUp items = pairUp matched := by
  have hmap := map_eq_map_of_forall₂ hm ih
  funext xs
  rw [pairUp_eq_takeAll, pairUp_eq_takeAll, hmap]
  refine congrFun (takeAll_perm (hp.map same) ?_) xs
  rw [← hmap]
  intro f hf g hg
  obtain ⟨v, hv, rfl⟩ := List.mem_map.1 hf
  obtain ⟨w, hw, rfl⟩ := List.mem_map.1 hg
  -- A value that equals both elements makes their tests the same.
  by_cases hx : ∃ x, v.same x = true ∧ w.same x = true
  · obtain ⟨x, hvx, hwx⟩ := hx
    exact .inl ((ih v hv x hvx).trans (ih w hw x hwx).symm)
  · exact .inr fun x hvx => Bool.eq_false_iff.2 fun hwx => hx ⟨x, hvx, hwx⟩

theorem sameEntries_congr {entries others : List (String × Value)}
    (hm : List.Forall₂ (fun a b => a.1 = b.1 ∧ a.2.same b.2 = true) entries others)
    (ih : ∀ e ∈ entries, ∀ w, e.2.same w = true → e.2.same = w.same) :
    sameEntries entries = sameEntries others := by
  induction hm with
  | nil => rfl
  | @cons a b _ _ hab _ ihm =>
    obtain ⟨ha, hentries⟩ := List.forall_mem_cons.1 ih
    obtain ⟨k, v⟩ := a
    obtain ⟨l, w⟩ := b
    obtain ⟨rfl, hvw⟩ : k = l ∧ v.same w = true := hab
    funext xs
    rcases xs with _ | ⟨⟨m, x⟩, xs⟩
    · simp only [sameEntries]
    · rw [sameEntries, sameEntries, ha _ hvw, ihm hentries]

/-- Equal values are of one kind and type, with equal parts. -/
inductive SameParts : Value → Value → Prop
  | null (t : Ty) : SameParts (.null t) (.null t)
  | unknown (t : Ty) : SameParts (.unknown t) (.unknown t)
  | string (s : String) : SameParts (.string s) (.string s)
  | number {n m : Number} (h : n.same m = true) : SameParts (.number n) (.number m)
  | bool (b : Bool) : SameParts (.bool b) (.bool b)
  | list {t : Ty} {items others : List Value}
      (h : List.Forall₂ (fun v w => v.same w = true) items others) :
      SameParts (.list t items) (.list t others)
  | set {t : Ty} {items others : List Value} (h : pairUp items others = true) :
      SameParts (.set t items) (.set t others)
  | map {t : Ty} {entries others : List (String × Value)}
      (h : List.Forall₂ (fun a b => a.1 = b.1 ∧ a.2.same b.2 = true) entries others) :
      SameParts (.map t entries) (.map t others)
  | object {fields others : List (String × Value)}
      (h : List.Forall₂ (fun a b => a.1 = b.1 ∧ a.2.same b.2 = true) fields others) :
      SameParts (.object fields) (.object others)

theorem sameParts_of_same (h : v.same w = true) : SameParts v w := by
  unfold same at h
  split at h
  · exact beq_iff_eq.1 h ▸ .null _
  · exact beq_iff_eq.1 h ▸ .unknown _
  · exact beq_iff_eq.1 h ▸ .string _
  · exact .number h
  · exact beq_iff_eq.1 h ▸ .bool _
  · obtain ⟨ht, hitems⟩ := Bool.and_eq_true_iff.1 h
    exact beq_iff_eq.1 ht ▸ .list (sameItems_iff.1 hitems)
  · obtain ⟨ht, hitems⟩ := Bool.and_eq_true_iff.1 h
    exact beq_iff_eq.1 ht ▸ .set hitems
  · obtain ⟨ht, hentries⟩ := Bool.and_eq_true_iff.1 h
    exact beq_iff_eq.1 ht ▸ .map (sameEntries_iff.1 hentries)
  · exact .object (sameEntries_iff.1 h)
  · cases h

/-- Equal values are equal to the same values. -/
theorem same_congr (h : v.same w = true) : v.same = w.same := by
  have hparts := sameParts_of_same h
  induction v using Value.induct generalizing w with
  | null t => cases hparts; rfl
  | unknown t => cases hparts; rfl
  | string s => cases hparts; rfl
  | number n =>
    cases hparts with
    | @number _ m hn =>
      funext x
      cases x <;> simp only [same]
      next l =>
      rw [Bool.eq_iff_iff]
      exact ⟨fun hl => Number.same_trans (Number.same_comm n m ▸ hn) hl, Number.same_trans hn⟩
  | bool b => cases hparts; rfl
  | list t items ih =>
    cases hparts with
    | list hitems =>
      have hcongr := sameItems_congr (map_eq_map_of_forall₂ hitems
        fun v hv w hvw => ih v hv hvw (sameParts_of_same hvw))
      funext x
      cases x <;> simp only [same, hcongr]
  | set t items ih =>
    cases hparts with
    | set hitems =>
      obtain ⟨matched, hperm, hmatched⟩ := exists_perm_of_pairUp hitems
      have hcongr := pairUp_congr hmatched
        (fun v hv w hvw => ih v hv hvw (sameParts_of_same hvw)) hperm
      funext x
      cases x <;> simp only [same, hcongr]
  | map t entries ih =>
    cases hparts with
    | map hentries =>
      have hcongr := sameEntries_congr hentries
        fun e he w hew => ih e he hew (sameParts_of_same hew)
      funext x
      cases x <;> simp only [same, hcongr]
  | object fields ih =>
    cases hparts with
    | object hfields =>
      have hcongr := sameEntries_congr hfields
        fun e he w hew => ih e he hew (sameParts_of_same hew)
      funext x
      cases x <;> simp only [same, hcongr]

theorem pairUp_self (h : ∀ v ∈ items, v.same v = true) : pairUp items items = true := by
  induction items with
  | nil => simp [pairUp]
  | cons v items ih =>
    obtain ⟨hv, hitems⟩ := List.forall_mem_cons.1 h
    simp [pairUp, removeFirst?, hv, ih hitems]

@[simp] theorem same_refl (v : Value) : v.same v = true := by
  induction v using Value.induct with
  | null t => simp [same]
  | unknown t => simp [same]
  | string s => simp [same]
  | number n => simp [same]
  | bool b => simp [same]
  | list t items ih => simpa [same, List.forall₂_same] using ih
  | set t items ih => simpa [same] using pairUp_self ih
  | map t entries ih => simpa [same, List.forall₂_same] using ih
  | object fields ih => simpa [same, List.forall₂_same] using ih

theorem same_symm (h : v.same w = true) : w.same v = true := by
  rw [← same_congr h]
  exact same_refl v

theorem same_comm (v w : Value) : v.same w = w.same v :=
  Bool.eq_iff_iff.2 ⟨same_symm, same_symm⟩

theorem same_trans (hvw : v.same w = true) (hwu : w.same u = true) : v.same u = true := by
  rw [same_congr hvw]
  exact hwu

/-- Whether values are equal depends on them up to equality. -/
theorem same_eq_of_same {v' w' : Value} (hv : v.same v' = true) (hw : w.same w' = true) :
    v.same w = v'.same w' := by
  rw [same_congr hv, same_comm, same_congr hw, same_comm]

/-- Elements pair up exactly with the rearrangements of elements that equal them one by one. -/
theorem pairUp_iff : pairUp items others = true ↔
    ∃ matched, matched.Perm others ∧
      List.Forall₂ (fun v w => v.same w = true) items matched := by
  refine ⟨exists_perm_of_pairUp, ?_⟩
  rintro ⟨matched, hperm, hm⟩
  rw [pairUp_congr hm (fun v _ w h => same_congr h) hperm]
  exact pairUp_self fun v _ => same_refl v

/-! ## What equal values share -/

theorem ty_eq_of_same (h : v.same w = true) : v.ty = w.ty := by
  induction v using Value.induct generalizing w with
  | object fields ih =>
    cases sameParts_of_same h with
    | object hm =>
      rw [ty, ty, fieldTypes_eq_map, fieldTypes_eq_map]
      refine congrArg Ty.object (map_eq_map_of_forall₂ hm fun e he x hx => ?_)
      exact Prod.ext hx.1 (ih e he hx.2)
  | _ => cases sameParts_of_same h; rfl

theorem isNull_eq_of_same (h : v.same w = true) : v.isNull = w.isNull := by
  cases sameParts_of_same h <;> rfl

theorem isUnknown_eq_of_same (h : v.same w = true) : v.isUnknown = w.isUnknown := by
  cases sameParts_of_same h <;> rfl

theorem isFullyKnown_eq_of_same (h : v.same w = true) : v.isFullyKnown = w.isFullyKnown := by
  induction v using Value.induct generalizing w with
  | list t items ih =>
    cases sameParts_of_same h with
    | list hitems =>
      rw [isFullyKnown, isFullyKnown, allFullyKnown_eq_all, allFullyKnown_eq_all]
      exact all_eq_all_of_forall₂ hitems fun v hv w hvw => ih v hv hvw
  | set t items ih =>
    cases sameParts_of_same h with
    | set hitems =>
      obtain ⟨matched, hperm, hmatched⟩ := exists_perm_of_pairUp hitems
      rw [isFullyKnown, isFullyKnown, allFullyKnown_eq_all, allFullyKnown_eq_all, ← hperm.all_eq]
      exact all_eq_all_of_forall₂ hmatched fun v hv w hvw => ih v hv hvw
  | map t entries ih =>
    cases sameParts_of_same h with
    | map hentries =>
      rw [isFullyKnown, isFullyKnown, entriesFullyKnown_eq_all, entriesFullyKnown_eq_all]
      exact all_eq_all_of_forall₂ hentries fun e he x hex => ih e he hex.2
  | object fields ih =>
    cases sameParts_of_same h with
    | object hfields =>
      rw [isFullyKnown, isFullyKnown, entriesFullyKnown_eq_all, entriesFullyKnown_eq_all]
      exact all_eq_all_of_forall₂ hfields fun e he x hex => ih e he hex.2
  | _ => cases sameParts_of_same h; rfl

/-! ## Elements of a set -/

/-- What the elements of a set are to each other: a fully known one equals no other. -/
def Apart (v w : Value) : Prop := v.isFullyKnown = true → v.same w = false

theorem Apart.symm (h : Apart v w) : Apart w v := by
  intro hw
  refine Bool.eq_false_iff.2 ?_
  intro hwv
  have hv : v.isFullyKnown = true := by rw [← isFullyKnown_eq_of_same hwv, hw]
  have hf := h hv
  rw [same_symm hwv] at hf
  cases hf

theorem apart_of_same_eq_false (h : v.same w = false) : Apart v w := fun _ => h

end ResourceSchema.Value
