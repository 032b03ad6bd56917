import ResourceSchema.Proofs.Value.Interchange
import ResourceSchema.Proofs.Value.ReadBack

/-!
# What a write leaves alone

A path that parts from the path of a write leads to an equal value after it (`atPath_setAt_apart`).
At the step where the paths part the child of the one is put back beside that of the other
(`step_putAt_apart`); on the way there both go through the same places, where the set elements have
become those that the write has left.
-/

namespace ResourceSchema

theorem PathStep.ne_of_same_eq_false {s s' : PathStep} (h : s.same s' = false) : s ≠ s' := by
  rintro rfl
  rw [same_refl] at h
  cases h

namespace Value

variable {v w c x new child : Value} {s s' : PathStep} {items : List Value}
  {before before' after after' : Path}

/-! ## Beside the place of a child -/

theorem getElem?_apart {i j : Nat} (hne : i ≠ j) (h : items[j]? = some x) :
    (if i < items.length then items.set i c else items ++ [c])[j]? = some x := by
  split
  · rwa [List.getElem?_set_ne hne]
  · rwa [List.getElem?_append_left (List.getElem?_eq_some_iff.1 h).1]

/-- An element that the written one does not equal is still in the set, or one that equals it. -/
theorem find?_putElement_apart {y z : Value} (hne : y.same z = false)
    (h : (items.find? fun v => v.same z) = some x) :
    ∃ x', ((putElement items (items.findIdx? fun v => v.same y) c).find? fun v => v.same z) =
      some x' ∧ x.same x' = true := by
  have hxz : x.same z = true := same_of_find? h
  have hother : x.classOf ≠ y.classOf := by
    intro heq
    rw [same_trans (same_symm (classOf_eq_iff.1 heq)) hxz] at hne
    cases hne
  have hmem : x.classOf ∈ classes (putElement items (items.findIdx? fun v => v.same y) c) := by
    rw [classes_putElement]
    refine Multiset.mem_ndinsert_of_mem ((Multiset.mem_erase_of_ne hother).2 ?_)
    exact classOf_mem_classes.2 ⟨x, List.mem_of_find?_eq_some h, same_refl x⟩
  obtain ⟨u, hu, hux⟩ := classOf_mem_classes.1 hmem
  obtain ⟨x', hx', hux'⟩ := find?_same hu hux hxz
  exact ⟨x', hx', same_trans (same_symm hux) hux'⟩

/-- Beside the place where a child is put the value has the children that it had. -/
theorem step_putAt_apart (hopen : v.openAt s = .ok child) (hne : s.same s' = false)
    (h : v.step s' = .ok x) (c : Value) :
    ∃ x', (v.putAt s c).step s' = .ok x' ∧ x.same x' = true := by
  obtain ⟨t, -, ht, -, -⟩ := openAt_eq_ok hopen
  have hc := Ty.step_eq_ok_iff.1 ht
  cases step_eq_ok_iff_child.1 h with
  | @name fields name' x hx =>
    cases hc with
    | @name _ name =>
      have hname : name' ≠ name := fun heq => PathStep.ne_of_same_eq_false hne (heq ▸ rfl)
      have hfield := (Keyed.lookup_assign_of_ne hname c fields).trans hx
      exact ⟨x, step_eq_ok_iff_child.2 (.name hfield), same_refl x⟩
  | @index u items j x hx =>
    cases hc with
    | @index _ i hi =>
      obtain ⟨i, rfl⟩ := Int.eq_ofNat_of_zero_le hi
      have hplace : i ≠ j := fun heq => PathStep.ne_of_same_eq_false hne (heq ▸ rfl)
      exact ⟨x, step_eq_ok_iff_child.2 (.index (getElem?_apart hplace hx)), same_refl x⟩
  | @element u items z x hx =>
    cases hc with
    | @element _ y =>
      obtain ⟨x', hx', hxx'⟩ := find?_putElement_apart (c := c) hne hx
      exact ⟨x', step_eq_ok_iff_child.2 (.element hx'), hxx'⟩
  | @key u entries key' x hx =>
    cases hc with
    | @key _ key =>
      have hkey : key' ≠ key := fun heq => PathStep.ne_of_same_eq_false hne (heq ▸ rfl)
      have hentry := (Keyed.lookup_insert_of_ne hkey c entries).trans hx
      exact ⟨x, step_eq_ok_iff_child.2 (.key hentry), same_refl x⟩

/-! ## Whole paths -/

theorem eq_of_openAt (hopen : v.openAt s = .ok child) (h : v.step s = .ok x) : child = x := by
  obtain ⟨t, fresh, -, -, rfl⟩ := openAt_eq_ok hopen
  have hchild := (step_eq_ok_iff.1 h).2
  have hknown : v.materialize = v := by cases step_eq_ok_iff_child.1 h <;> rfl
  rw [hknown, hchild, Option.getD_some]

/-- A place beside the way of a write has an equal value after it. -/
theorem atPath_setAt_apart (hbefore : Path.same before before' = true) (hne : s.same s' = false)
    (hset : v.setAt (before ++ s :: after) new = .ok w)
    (hx : v.atPath (before' ++ s' :: after') = .ok x) :
    ∃ y, w.atPath ((v.pathAfter (before ++ s :: after) new).take before.length ++ s' :: after') =
      .ok y ∧ x.same y = true := by
  rw [Path.same_iff] at hbefore
  induction hbefore generalizing v w x with
  | nil =>
    obtain ⟨child, c, hopen, -, rfl⟩ := setAt_cons_eq_ok.1 hset
    obtain ⟨z, hz, hx⟩ := Except.bind_eq_ok.1 hx
    obtain ⟨z', hz', hzz'⟩ := step_putAt_apart hopen hne hz c
    obtain ⟨y, hy, hxy⟩ := atPath_congr hzz' (Path.same_refl after') hx
    exact ⟨y, Except.bind_eq_ok.2 ⟨z', hz', hy⟩, hxy⟩
  | cons ha _ ih =>
    rw [List.cons_append, setAt_cons_eq_ok] at hset
    obtain ⟨child, c, hopen, hchild, rfl⟩ := hset
    obtain ⟨z, hz, hx⟩ := Except.bind_eq_ok.1 hx
    -- Both paths go through one place, where the write finds the child that the read finds.
    obtain ⟨z', hz', hzz'⟩ := step_congr (same_refl v) (PathStep.same_symm ha) hz
    obtain rfl := eq_of_openAt hopen hz'
    obtain ⟨x', hx', hxx'⟩ := atPath_congr hzz' (Path.same_refl _) hx
    obtain ⟨y, hy, hxy⟩ := ih hchild hx'
    obtain ⟨found, hfound, hsame⟩ := step_putAt hopen c
    obtain ⟨y', hy', hyy'⟩ := atPath_congr (same_symm hsame) (Path.same_refl _) hy
    refine ⟨y', ?_, same_trans hxx' (same_trans hxy hyy')⟩
    rw [List.cons_append, pathAfter, hopen]
    simp only [hchild]
    exact Except.bind_eq_ok.2 ⟨found, hfound, hy'⟩

/-- A write leaves everything else alone: where another path parts from that of the write, the value
that it led to is read equal after the write. On the way there the path only has to name the set
elements as they stand after the write, and these are in their sets. -/
theorem write_keeps_apart (hbefore : Path.same before before' = true) (hne : s.same s' = false)
    (hset : v.setAt (before ++ s :: after) new = .ok w)
    (hx : v.atPath (before' ++ s' :: after') = .ok x) :
    let way := (v.pathAfter (before ++ s :: after) new).take before.length
    (∀ q, Path.same q (way ++ s' :: after') = true → ∃ y, w.atPath q = .ok y ∧ y.same x = true) ∧
      Path.Alike before' way ∧
      ((∀ e, .element e ∉ before') → way = before') ∧
      ∀ first e rest, way = first ++ .element e :: rest →
        ∃ y, w.atPath (first ++ [.element e]) = .ok y ∧ y.same e = true := by
  intro way
  obtain ⟨y, hy, hxy⟩ := atPath_setAt_apart hbefore hne hset hx
  have halike : Path.Alike before' way := by
    have hway := List.forall₂_take before.length (alike_pathAfter v (before ++ s :: after) new)
    rw [List.take_left] at hway
    exact (Path.Alike.of_same hbefore).symm.trans hway
  refine ⟨fun q hq => ?_, halike, fun he => (halike.eq he).symm, fun first e rest hway => ?_⟩
  · obtain ⟨z, hz, hyz⟩ := atPath_congr (same_refl w) (Path.same_symm hq) hy
    exact ⟨z, hz, same_symm (same_trans hxy hyz)⟩
  · rw [show (v.pathAfter (before ++ s :: after) new).take before.length =
      first ++ .element e :: rest from hway, List.append_assoc, List.cons_append] at hy
    exact exists_element_of_atPath hy

/-- Of two rules that are equal so far one gets another tag, and keeps the one that it has beside
it. -/
theorem write_keeps_apart_pending_tag :
    let v := Pending.rules [["a", "b"], ["a", "b"], ["c"]]
    let way : Path := [.element (Pending.rule ["a", "b"]), .name "tags"]
    Path.same way way = true ∧
      PathStep.same (.element (.string "a")) (.element (.string "b")) = false ∧
      v.atPath (way ++ [.element (.string "b")]) = .ok (.string "b") ∧
      ∃ w, v.setAt (way ++ [.element (.string "a")]) (.string "d") = .ok w ∧
        w.same (Pending.rules [["d", "b"], ["a", "b"], ["c"]]) = true ∧
        ∃ y, w.atPath (Pending.tagOf ["b", "d"] "b") = .ok y ∧ y.same (.string "b") = true := by
  intro v way
  have hway : Path.same way way = true := Path.same_refl way
  have hne : PathStep.same (.element (.string "a")) (.element (.string "b")) = false := by
    decide +kernel
  have hx : v.atPath (way ++ [.element (.string "b")]) = .ok (.string "b") := by
    with_unfolding_all rfl
  have hw : ((v.setAt (way ++ [.element (.string "a")]) (.string "d")).toOption.any fun w =>
      w.same (Pending.rules [["d", "b"], ["a", "b"], ["c"]])) = true := by decide +kernel
  refine ⟨hway, hne, hx, ?_⟩
  cases hset : v.setAt (way ++ [.element (.string "a")]) (.string "d") with
  | error e => rw [hset] at hw; cases hw
  | ok w =>
    rw [hset] at hw
    exact ⟨w, rfl, hw, (write_keeps_apart hway hne hset hx).1 _ (by decide +kernel)⟩

end Value
end ResourceSchema
