import ResourceSchema.Proofs.Value.Position
import ResourceSchema.Proofs.Value.WriteBack

/-!
# What a traversal visits

A traversal visits the places that it gets to, each once and in pre-order
(`exists_places_of_walk`). From places to paths it is one step each way: the path that a node is
visited with leads to an equal node (`atPath_of_mem_walk`), and a path that leads to a node is, up
to equality, the one that a full traversal visits that node with (`exists_mem_walk`). Equal elements
of a set are visited one by one, although one path leads to all of them.
-/

namespace ResourceSchema

namespace Value

variable {v x y : Value} {p : Path} {q : List Slot} {descend : Path → Value → Bool}

theorem reaches_of_always (v : Value) (path : Path) (q : List Slot) :
    Reaches (fun _ _ => true) path v q :=
  fun _ _ _ _ _ _ => rfl

/-- The places that a traversal visits, in its order. -/
theorem exists_places_of_walk (hv : v.WellFormed) (descend : Path → Value → Bool) :
    ∃ places : List (List Slot), places.Nodup ∧ places.Pairwise (Precedes v.storedOrder) ∧
      (∀ q, q ∈ places ↔ (∃ x, v.atPlace? q = some x) ∧ Reaches descend [] v q) ∧
      List.Forall₂ (fun q e => v.atPlace? q = some e.2 ∧ e.1 = v.pathTo q) places
        (v.walk descend) := by
  obtain ⟨places, horder, hmem, hat⟩ := enumerates_walkFrom hv descend []
  refine ⟨places, horder.imp ?_, horder, hmem, hat⟩
  exact fun h => h.ne fun q s s' => storedOrder_ne hv

theorem mem_walk_iff (hv : v.WellFormed) : (p, x) ∈ v.walk descend ↔
    ∃ q, v.atPlace? q = some x ∧ p = v.pathTo q ∧ Reaches descend [] v q := by
  obtain ⟨places, -, -, hmem, hat⟩ := exists_places_of_walk hv descend
  constructor
  · intro h
    obtain ⟨q, hq, hx, hp⟩ := forall₂_exists_left hat h
    exact ⟨q, hx, hp, ((hmem q).1 hq).2⟩
  · rintro ⟨q, hx, rfl, hreach⟩
    obtain ⟨⟨p, y⟩, he, hy, hp⟩ := forall₂_exists_right hat ((hmem q).2 ⟨⟨x, hx⟩, hreach⟩)
    rw [hx] at hy
    cases hy
    cases hp
    exact he

/-- A node is visited with a path that leads to it, or to an element that equals it. -/
theorem atPath_of_mem_walk (hv : v.WellFormed) (h : (p, x) ∈ v.walk descend) :
    ∃ y, v.atPath p = .ok y ∧ y.same x = true := by
  obtain ⟨q, hx, rfl, -⟩ := (mem_walk_iff hv).1 h
  exact atPath_pathTo hx

/-- A full traversal visits what a path leads to, with an equal path. -/
theorem exists_mem_walk (hv : v.WellFormed) (h : v.atPath p = .ok y) :
    ∃ path, (path, y) ∈ v.walk (fun _ _ => true) ∧ Path.same path p = true := by
  obtain ⟨q, hq, hsame⟩ := exists_atPlace? h
  exact ⟨v.pathTo q, (mem_walk_iff hv).2 ⟨q, hq, rfl, reaches_of_always v [] q⟩, hsame⟩

/-- A traversal visits exactly what paths lead to. It goes through the places of the value that have
been descended into at every place above, in pre-order and once each, with the node there and its
path. Whatever it visits is what the path leads to, and if it always descends, each path that leads
somewhere is that of a visited node. -/
theorem walk_visits_reachable (hv : v.WellFormed) :
    (∀ descend, ∃ places : List (List Slot),
      places.Nodup ∧ places.Pairwise (Precedes v.storedOrder) ∧
      (∀ q, q ∈ places ↔ (∃ x, v.atPlace? q = some x) ∧
        ∀ above s rest w, q = above ++ s :: rest → v.atPlace? above = some w →
          descend (v.pathTo above) w = true) ∧
      List.Forall₂ (fun q e => v.atPlace? q = some e.2 ∧ e.1 = v.pathTo q) places
        (v.walk descend)) ∧
    (∀ descend p x, (p, x) ∈ v.walk descend → ∃ y, v.atPath p = .ok y ∧ y.same x = true) ∧
    ∀ p y, v.atPath p = .ok y →
      ∃ path, (path, y) ∈ v.walk (fun _ _ => true) ∧ Path.same path p = true :=
  ⟨exists_places_of_walk hv, fun _ _ _ => atPath_of_mem_walk hv, fun _ _ => exists_mem_walk hv⟩

/-- Two rules that are equal so far, and another one, without what is below their members. Each of
the three is visited, although the first two are visited with equal paths. -/
theorem walk_visits_reachable_twins :
    let v := Pending.rules [["a"], ["a"], ["b"]]
    let descend : Path → Value → Bool := fun p _ => p.length < 2
    v.WellFormed ∧
      (v.walk descend).map (fun e => e.1.length) = [0, 1, 2, 2, 1, 2, 2, 1, 2, 2] ∧
      (∃ places : List (List Slot), places.Nodup ∧ places.Pairwise (Precedes v.storedOrder) ∧
        places.length = 10) ∧
      (∀ p x, (p, x) ∈ v.walk descend → ∃ y, v.atPath p = .ok y ∧ y.same x = true) ∧
      ∃ path, (path, .unknown .string) ∈ v.walk (fun _ _ => true) ∧
        Path.same path [.element (Pending.rule ["b"]), .name "id"] = true := by
  intro v descend
  have hv : v.WellFormed := Pending.wellFormed_rules (by decide)
  have hlengths : (v.walk descend).map (fun e => e.1.length) = [0, 1, 2, 2, 1, 2, 2, 1, 2, 2] := by
    decide +kernel
  obtain ⟨hplaces, hreads, hpaths⟩ := walk_visits_reachable hv
  obtain ⟨places, hnodup, horder, -, hat⟩ := hplaces descend
  refine ⟨hv, hlengths, ⟨places, hnodup, horder, ?_⟩, hreads descend, hpaths _ _ ?_⟩
  · rw [hat.length_eq, ← List.length_map, hlengths]
    rfl
  · with_unfolding_all rfl

end Value
end ResourceSchema
