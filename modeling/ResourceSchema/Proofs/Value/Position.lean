import ResourceSchema.Proofs.Value.Place

/-!
# Places in pre-order

Every node of a value is at one place, also where paths cannot tell the elements of a set apart. The
path to a place leads to the value there, or in a set to an equal one (`atPath_pathTo`), and every
path that leads somewhere is that of a place (`exists_atPlace?`). A traversal that visits a node
before what is below it, and children in their order, lists each place once and in order; what it
takes to show this is one statement about the children of a node (`Enumerates.children`).
-/

namespace ResourceSchema

/-! ## Orders of places -/

/-- In pre-order a place comes before all below it. Of two places that part somewhere the one that
goes on with the earlier slot comes first; `R q s s'` says that `s` is earlier than `s'` at `q`. -/
inductive Precedes (R : List Slot → Slot → Slot → Prop) : List Slot → List Slot → Prop
  | above (q : List Slot) (s : Slot) (rest : List Slot) : Precedes R q (q ++ s :: rest)
  | beside {q : List Slot} {s s' : Slot} (rest rest' : List Slot) (h : R q s s') :
      Precedes R (q ++ s :: rest) (q ++ s' :: rest')

theorem Precedes.cons {R : List Slot → Slot → Slot → Prop} {s : Slot} {q q' : List Slot}
    (h : Precedes (fun q => R (s :: q)) q q') : Precedes R (s :: q) (s :: q') := by
  cases h with
  | above _ s' rest => exact .above (s :: q) s' rest
  | beside rest rest' h => exact .beside (q := s :: _) rest rest' h

theorem Precedes.ne {R : List Slot → Slot → Slot → Prop} {q q' : List Slot}
    (hr : ∀ q s s', R q s s' → s ≠ s') (h : Precedes R q q') : q ≠ q' := by
  cases h with
  | above _ s rest =>
    intro heq
    have hlength := congrArg List.length heq
    rw [List.length_append, List.length_cons] at hlength
    omega
  | beside rest rest' h =>
    intro heq
    exact hr _ _ _ h (List.cons.inj (List.append_cancel_left heq)).1

/-- The items are what is at the places of a kind, in pre-order and one for each place. -/
def Enumerates {β : Type} (R : List Slot → Slot → Slot → Prop) (P : List Slot → Prop)
    (At : List Slot → β → Prop) (xs : List β) : Prop :=
  ∃ places, places.Pairwise (Precedes R) ∧ (∀ q, q ∈ places ↔ P q) ∧ List.Forall₂ At places xs

namespace Enumerates

variable {β γ : Type} {R : List Slot → Slot → Slot → Prop} {P Q : List Slot → Prop}
  {At : List Slot → β → Prop} {x : β} {xs : List β}

theorem nil (h : ∀ q, ¬P q) : Enumerates R P At [] :=
  ⟨[], .nil, fun q => ⟨fun hq => absurd hq List.not_mem_nil, fun hq => absurd hq (h q)⟩, .nil⟩

theorem congr (h : Enumerates R P At xs) (hpq : ∀ q, P q ↔ Q q) : Enumerates R Q At xs := by
  obtain ⟨places, hr, hp, hat⟩ := h
  exact ⟨places, hr, fun q => (hp q).trans (hpq q), hat⟩

theorem root (h : Enumerates R (fun q => q ≠ [] ∧ P q) At xs) (hp : P []) (hx : At [] x) :
    Enumerates R P At (x :: xs) := by
  obtain ⟨places, hr, hmem, hat⟩ := h
  refine ⟨[] :: places, List.pairwise_cons.2 ⟨fun q hq => ?_, hr⟩, fun q => ?_, .cons hx hat⟩
  · obtain ⟨s, rest, rfl⟩ := List.exists_cons_of_ne_nil ((hmem q).1 hq).1
    exact .above [] s rest
  · rw [List.mem_cons, hmem]
    by_cases hq : q = []
    · simp [hq, hp]
    · simp [hq]

theorem forall₂_flatMap {δ : Type} {At : δ → β → Prop} {cs : List γ} {f : γ → List δ}
    {g : γ → List β} (h : ∀ c ∈ cs, List.Forall₂ At (f c) (g c)) :
    List.Forall₂ At (cs.flatMap f) (cs.flatMap g) := by
  induction cs with
  | nil => exact .nil
  | cons c cs ih =>
    obtain ⟨hc, hcs⟩ := List.forall_mem_cons.1 h
    exact List.rel_append hc (ih hcs)

/-- What the children of a node list, one child after the other, is what is listed below the node:
each child lists the places that go on with its slot. -/
theorem children (slot : γ → Slot) {cs : List γ} {f : γ → List β}
    (hr : cs.Pairwise fun c c' => R [] (slot c) (slot c'))
    (hc : ∀ c ∈ cs, Enumerates (fun q => R (slot c :: q)) (fun q => P (slot c :: q))
      (fun q => At (slot c :: q)) (f c))
    (hp : ∀ q, P q → ∃ c ∈ cs, ∃ rest, q = slot c :: rest) :
    Enumerates R P At (cs.flatMap f) := by
  choose! below hbelow hmem hat using hc
  refine ⟨cs.flatMap fun c => (below c).map (slot c :: ·), ?_, fun q => ?_, ?_⟩
  · rw [List.pairwise_flatMap]
    refine ⟨fun c hc => List.pairwise_map.2 ((hbelow c hc).imp Precedes.cons), hr.imp ?_⟩
    intro c c' hlt q hq q' hq'
    obtain ⟨rest, _, rfl⟩ := List.mem_map.1 hq
    obtain ⟨rest', _, rfl⟩ := List.mem_map.1 hq'
    exact .beside (q := []) rest rest' hlt
  · rw [List.mem_flatMap]
    constructor
    · rintro ⟨c, hc, hq⟩
      obtain ⟨rest, hrest, rfl⟩ := List.mem_map.1 hq
      exact (hmem c hc rest).1 hrest
    · intro hq
      obtain ⟨c, hc, rest, rfl⟩ := hp q hq
      exact ⟨c, hc, List.mem_map_of_mem ((hmem c hc rest).2 hq)⟩
  · refine forall₂_flatMap fun c hc => ?_
    rw [List.forall₂_map_left_iff]
    exact hat c hc

/-- Listing what passes a test leaves out the places where it fails. -/
theorem filter {test : β → Bool} (h : Enumerates R P At xs)
    (ht : ∀ q x, At q x → (test x = true ↔ Q q)) :
    Enumerates R (fun q => P q ∧ Q q) At (xs.filter test) := by
  obtain ⟨places, hr, hmem, hat⟩ := h
  suffices hs : ∃ kept, kept.Sublist places ∧ (∀ q, q ∈ kept ↔ q ∈ places ∧ Q q) ∧
      List.Forall₂ At kept (xs.filter test) by
    obtain ⟨kept, hsub, hkept, hat⟩ := hs
    exact ⟨kept, hr.sublist hsub, fun q => (hkept q).trans (and_congr_left' (hmem q)), hat⟩
  clear hr hmem
  induction hat with
  | nil => exact ⟨[], .slnil, by simp, .nil⟩
  | @cons q x places xs hqx _ ih =>
    obtain ⟨kept, hsub, hkept, hat⟩ := ih
    by_cases hx : test x = true
    · refine ⟨q :: kept, hsub.cons_cons q, fun r => ?_, ?_⟩
      · rw [List.mem_cons, List.mem_cons, hkept, or_and_right]
        exact or_congr_left ⟨fun hr => ⟨hr, hr ▸ (ht q x hqx).1 hx⟩, And.left⟩
      · rw [List.filter_cons_of_pos hx]
        exact .cons hqx hat
    · refine ⟨kept, hsub.cons q, fun r => ?_, ?_⟩
      · rw [List.mem_cons, hkept, or_and_right]
        refine (or_iff_right ?_).symm
        rintro ⟨rfl, hr⟩
        exact hx ((ht r x hqx).2 hr)
      · rw [List.filter_cons_of_neg hx]
        exact hat

theorem filterMap {f : β → Option γ} {At' : List Slot → γ → Prop} (h : Enumerates R P At xs)
    (hf : ∀ q x, P q → At q x → ∃ y, f x = some y ∧ At' q y) :
    Enumerates R P At' (xs.filterMap f) := by
  obtain ⟨places, hr, hmem, hat⟩ := h
  refine ⟨places, hr, hmem, ?_⟩
  replace hmem := fun q hq => (hmem q).1 hq
  clear hr
  induction hat with
  | nil => exact .nil
  | @cons q x places xs hqx _ ih =>
    obtain ⟨y, hy, hqy⟩ := hf q x (hmem q List.mem_cons_self) hqx
    rw [List.filterMap_cons_some hy]
    exact .cons hqy (ih fun q' hq' => hmem q' (List.mem_cons_of_mem q hq'))

end Enumerates

namespace Value

variable {v w x : Value} {s : Slot} {q : List Slot} {p path : Path}

/-! ## The children of a value -/

/-- The children of a value with their slots, in the order in which they are stored. -/
def parts : Value → List (Slot × Value)
  | .list _ items => items.zipIdx.map fun (v, i) => (.item i, v)
  | .set _ items => items.zipIdx.map fun (v, i) => (.element i, v)
  | .map _ entries => entries.map fun (k, v) => (.entry k, v)
  | .object fields => fields.map fun (n, v) => (.field n, v)
  | _ => []

/-- The slots of a value in the order of its children. -/
def slots (v : Value) : List Slot := v.parts.map Prod.fst

theorem children_eq_parts (v : Value) :
    v.children = v.parts.map fun c => (c.1.step c.2, c.2) := by
  cases v with
  | set t items =>
    have hitems : (items.zipIdx.map Prod.fst).map (fun v => (PathStep.element v, v)) =
        items.map fun v => (.element v, v) := by rw [List.zipIdx_map_fst]
    rw [children, parts, List.map_map, ← hitems, List.map_map]
    rfl
  | list t items => rw [children, parts, List.map_map]; rfl
  | map t entries => rw [children, parts, List.map_map]; rfl
  | object fields => rw [children, parts, List.map_map]; rfl
  | _ => rfl

theorem inSlot?_eq_some_iff (hv : v.WellFormed) : v.inSlot? s = some w ↔ (s, w) ∈ v.parts := by
  have hentry : ∀ {entries : List (String × Value)} {key : String}, Keyed.Increasing entries →
      (entries.lookup key = some w ↔ (key, w) ∈ entries) := fun hinc =>
    ⟨Keyed.mem_of_lookup, Keyed.lookup_of_mem hinc.nodup⟩
  cases v with
  | list t items =>
    cases s <;> simp [inSlot?, parts, List.mem_zipIdx_iff_getElem?]
  | set t items =>
    cases s <;> simp [inSlot?, parts, List.mem_zipIdx_iff_getElem?]
  | map t entries =>
    cases s <;> simp [inSlot?, parts, hentry (wellFormed_map_iff.1 hv).2.1]
  | object fields =>
    cases s <;> simp [inSlot?, parts, hentry (wellFormed_object_iff.1 hv).1]
  | _ => simp [inSlot?, parts]

/-- Induction over values by their children. -/
theorem induct_parts {P : Value → Prop} (h : ∀ v, (∀ c ∈ v.parts, P c.2) → P v) (v : Value) :
    P v := by
  induction v using Value.induct with
  | list t items ih =>
    refine h _ fun c hc => ?_
    obtain ⟨⟨w, i⟩, hw, rfl⟩ := List.mem_map.1 hc
    exact ih w (List.fst_mem_of_mem_zipIdx hw)
  | set t items ih =>
    refine h _ fun c hc => ?_
    obtain ⟨⟨w, i⟩, hw, rfl⟩ := List.mem_map.1 hc
    exact ih w (List.fst_mem_of_mem_zipIdx hw)
  | map t entries ih =>
    refine h _ fun c hc => ?_
    obtain ⟨e, he, rfl⟩ := List.mem_map.1 hc
    exact ih e he
  | object fields ih =>
    refine h _ fun c hc => ?_
    obtain ⟨e, he, rfl⟩ := List.mem_map.1 hc
    exact ih e he
  | _ => exact h _ fun c hc => absurd hc List.not_mem_nil

theorem WellFormed.parts (hv : v.WellFormed) {c : Slot × Value} (hc : c ∈ v.parts) :
    c.2.WellFormed :=
  hv.inSlot? ((inSlot?_eq_some_iff hv).2 hc)

theorem WellFormed.atPlace? (hv : v.WellFormed) (h : v.atPlace? q = some x) : x.WellFormed := by
  induction q generalizing v with
  | nil => cases h; exact hv
  | cons s q ih =>
    obtain ⟨w, hw, h⟩ := atPlace?_cons_eq_some.1 h
    exact ih (hv.inSlot? hw) h

/-! ## Paths to places -/

/-- The path to a place of a value. -/
def pathTo (v : Value) : List Slot → Path
  | [] => []
  | s :: q =>
    match v.inSlot? s with
    | some w => s.step w :: w.pathTo q
    | none => []

theorem pathTo_cons (h : v.inSlot? s = some w) : v.pathTo (s :: q) = s.step w :: w.pathTo q := by
  rw [pathTo, h]

theorem atPlace?_cons_of_inSlot? (h : v.inSlot? s = some w) :
    v.atPlace? (s :: q) = w.atPlace? q := by
  rw [atPlace?_cons, h]
  rfl

theorem pathTo_append (h : v.atPlace? q = some w) (r : List Slot) :
    v.pathTo (q ++ r) = v.pathTo q ++ w.pathTo r := by
  induction q generalizing v with
  | nil => cases h; rfl
  | cons s q ih =>
    obtain ⟨u, hu, h⟩ := atPlace?_cons_eq_some.1 h
    rw [List.cons_append, pathTo_cons hu, pathTo_cons hu, ih h, List.cons_append]

/-- Above a place there is a value with a child in the slot that the place goes on with. -/
theorem exists_above {above rest : List Slot} (h : v.atPlace? (above ++ s :: rest) = some x) :
    ∃ u w, v.atPlace? above = some u ∧ u.inSlot? s = some w ∧ w.atPlace? rest = some x := by
  induction above generalizing v with
  | nil =>
    obtain ⟨w, hw, hx⟩ := atPlace?_cons_eq_some.1 h
    exact ⟨v, w, rfl, hw, hx⟩
  | cons s' above ih =>
    obtain ⟨y, hy, h⟩ := atPlace?_cons_eq_some.1 h
    obtain ⟨u, w, hu, hw, hx⟩ := ih h
    exact ⟨u, w, (atPlace?_cons_of_inSlot? hy).trans hu, hw, hx⟩

/-- The path to a place leads to what is there, up to the choice among equal set elements. -/
theorem atPath_pathTo (h : v.atPlace? q = some x) :
    ∃ y, v.atPath (v.pathTo q) = .ok y ∧ y.same x = true := by
  induction q generalizing v with
  | nil =>
    cases h
    exact ⟨x, rfl, same_refl x⟩
  | cons s q ih =>
    obtain ⟨w, hw, h⟩ := atPlace?_cons_eq_some.1 h
    obtain ⟨u, hu, huw⟩ := step_of_inSlot? hw
    obtain ⟨y, hy, hyx⟩ := ih h
    obtain ⟨z, hz, hyz⟩ := atPath_congr (same_symm huw) (Path.same_refl _) hy
    refine ⟨z, ?_, same_trans (same_symm hyz) hyx⟩
    rw [pathTo_cons hw, atPath, hu]
    exact hz

/-- A child that a step leads to is in a slot, and the step is that of the slot. -/
theorem exists_inSlot?_of_step {t : PathStep} (h : v.step t = .ok w) :
    ∃ s, v.inSlot? s = some w ∧ (s.step w).same t = true := by
  cases step_eq_ok_iff_child.1 h with
  | @name fields name w hl => exact ⟨.field name, hl, PathStep.same_refl (.name name)⟩
  | @index t items i w hi => exact ⟨.item i, hi, PathStep.same_refl (.index i)⟩
  | @element t items x w hx =>
    obtain ⟨i, hi⟩ := List.getElem?_of_mem (List.mem_of_find?_eq_some hx)
    exact ⟨.element i, hi, same_of_find? hx⟩
  | @key t entries key w hl => exact ⟨.entry key, hl, PathStep.same_refl (.key key)⟩

/-- A path that leads somewhere is that of a place. -/
theorem exists_atPlace? (h : v.atPath p = .ok x) :
    ∃ q, v.atPlace? q = some x ∧ Path.same (v.pathTo q) p = true := by
  induction p generalizing v with
  | nil =>
    cases h
    exact ⟨[], rfl, rfl⟩
  | cons t p ih =>
    obtain ⟨w, hw, h⟩ := Except.bind_eq_ok.1 h
    obtain ⟨s, hs, hsame⟩ := exists_inSlot?_of_step hw
    obtain ⟨q, hq, hpath⟩ := ih h
    refine ⟨s :: q, ?_, ?_⟩
    · rw [atPlace?_cons_of_inSlot? hs, hq]
    · rw [pathTo_cons hs]
      exact Path.same_cons.2 ⟨hsame, hpath⟩

/-! ## Traversals -/

/-- Slots of one place come in the order in which the value there stores its children. -/
def storedOrder (v : Value) (q : List Slot) (s s' : Slot) : Prop :=
  ∃ w, v.atPlace? q = some w ∧ [s, s'].Sublist w.slots

theorem storedOrder_cons (h : v.inSlot? s = some w) :
    v.storedOrder (s :: q) = w.storedOrder q := by
  unfold storedOrder
  rw [atPlace?_cons_of_inSlot? h]

theorem nodup_slots (hv : v.WellFormed) : v.slots.Nodup := by
  have hitems : ∀ {toSlot : Nat → Slot}, Function.Injective toSlot → ∀ items : List Value,
      (items.zipIdx.map fun e => toSlot e.2).Nodup := by
    intro toSlot hinj items
    have hindices := List.nodup_range' (s := 0) (n := items.length)
    rw [← List.zipIdx_map_snd, ← List.nodup_map_iff hinj, List.map_map] at hindices
    exact hindices
  have hentries : ∀ {toSlot : String → Slot}, Function.Injective toSlot →
      ∀ {entries : List (String × Value)}, Keyed.Increasing entries →
      (entries.map fun e => toSlot e.1).Nodup := by
    intro toSlot hinj entries hinc
    have hkeys := hinc.nodup
    rw [Keyed.keys, ← List.nodup_map_iff hinj, List.map_map] at hkeys
    exact hkeys
  unfold slots parts
  split <;> try rw [List.map_map]
  · exact hitems (fun _ _ h => Slot.item.inj h) _
  · exact hitems (fun _ _ h => Slot.element.inj h) _
  · exact hentries (fun _ _ h => Slot.entry.inj h) (wellFormed_map_iff.1 hv).2.1
  · exact hentries (fun _ _ h => Slot.field.inj h) (wellFormed_object_iff.1 hv).1
  · exact .nil

theorem storedOrder_ne {s' : Slot} (hv : v.WellFormed) (h : v.storedOrder q s s') : s ≠ s' := by
  obtain ⟨w, hw, hsub⟩ := h
  have hnodup := (nodup_slots (hv.atPlace? hw)).sublist hsub
  exact fun heq => (List.nodup_cons.1 hnodup).1 (List.mem_singleton.2 heq)

theorem pairwise_slots (v : Value) :
    v.parts.Pairwise fun c c' => [c.1, c'.1].Sublist v.slots :=
  List.pairwise_iff_forall_sublist.2 fun h => h.map Prod.fst

/-- A traversal visits a node, and then its children if it goes on. -/
theorem walkFrom_eq (descend : Path → Value → Bool) (path : Path) (v : Value) :
    walkFrom descend path v = (path, v) ::
      if descend path v then
        v.parts.flatMap fun c => walkFrom descend (path ++ [c.1.step c.2]) c.2
      else [] := by
  have hitems : ∀ (toStep : Nat → Value → PathStep) (toSlot : Nat → Slot),
      (∀ i w, (toSlot i).step w = toStep i w) → ∀ (items : List Value) (index : Nat),
      walkItems descend path toStep index items = (items.zipIdx index).flatMap fun e =>
        walkFrom descend (path ++ [(toSlot e.2).step e.1]) e.1 := by
    intro toStep toSlot hstep items
    induction items with
    | nil => exact fun _ => rfl
    | cons w items ih =>
      intro index
      rw [walkItems, ih, List.zipIdx_cons, List.flatMap_cons, hstep]
  have hentries : ∀ (toStep : String → PathStep) (toSlot : String → Slot),
      (∀ key w, (toSlot key).step w = toStep key) → ∀ (entries : List (String × Value)),
      walkEntries descend path toStep entries = entries.flatMap fun e =>
        walkFrom descend (path ++ [(toSlot e.1).step e.2]) e.2 := by
    intro toStep toSlot hstep entries
    exact eq_flatMap_of_cons (f := walkEntries descend path toStep) rfl
      (fun e _ => by rw [walkEntries, hstep]) entries
  cases v with
  | list t items =>
    rw [walkFrom, parts, List.flatMap_map, hitems (fun i _ => .index i) .item fun _ _ => rfl]
  | set t items =>
    rw [walkFrom, parts, List.flatMap_map, hitems (fun _ w => .element w) .element fun _ _ => rfl]
  | map t entries =>
    rw [walkFrom, parts, List.flatMap_map, hentries .key .entry fun _ _ => rfl]
  | object fields =>
    rw [walkFrom, parts, List.flatMap_map, hentries .name .field fun _ _ => rfl]
  | _ => simp [walkFrom, parts]

/-- A traversal gets to a place if it goes on at each place above. -/
def Reaches (descend : Path → Value → Bool) (path : Path) (v : Value) (q : List Slot) : Prop :=
  ∀ above s rest w, q = above ++ s :: rest → v.atPlace? above = some w →
    descend (path ++ v.pathTo above) w = true

variable {descend : Path → Value → Bool}

theorem reaches_nil : Reaches descend path v [] := by
  intro above s rest w h _
  exact absurd h.symm (List.append_ne_nil_of_right_ne_nil above (List.cons_ne_nil s rest))

theorem reaches_cons (h : v.inSlot? s = some w) : Reaches descend path v (s :: q) ↔
    descend path v = true ∧ Reaches descend (path ++ [s.step w]) w q := by
  constructor
  · intro hreach
    refine ⟨?_, fun above s' rest x hq hx => ?_⟩
    · have hroot := hreach [] s q v rfl rfl
      rwa [pathTo, List.append_nil] at hroot
    · have hbelow := hreach (s :: above) s' rest x (congrArg (s :: ·) hq)
        ((atPlace?_cons_of_inSlot? h).trans hx)
      rwa [pathTo_cons h, List.append_cons] at hbelow
  · rintro ⟨hroot, hbelow⟩ above s' rest x hq hx
    cases above with
    | nil =>
      cases hx
      rwa [pathTo, List.append_nil]
    | cons s'' above =>
      obtain ⟨rfl, hq'⟩ := List.cons.inj hq
      rw [atPlace?_cons_of_inSlot? h] at hx
      rw [pathTo_cons h, List.append_cons]
      exact hbelow above s' rest x hq' hx

/-- A traversal visits each place that it gets to once, in pre-order. -/
theorem enumerates_walkFrom (hv : v.WellFormed) (descend : Path → Value → Bool) (path : Path) :
    Enumerates v.storedOrder (fun q => (∃ w, v.atPlace? q = some w) ∧ Reaches descend path v q)
      (fun q e => v.atPlace? q = some e.2 ∧ e.1 = path ++ v.pathTo q)
      (walkFrom descend path v) := by
  induction v using induct_parts generalizing path with
  | h v ih =>
    rw [walkFrom_eq]
    refine .root ?_ ⟨⟨v, rfl⟩, reaches_nil⟩ ⟨rfl, (List.append_nil path).symm⟩
    have hslot : ∀ {q : List Slot}, q ≠ [] → (∃ x, v.atPlace? q = some x) →
        ∃ s w rest, v.inSlot? s = some w ∧ q = s :: rest := by
      rintro q hq ⟨x, hx⟩
      obtain ⟨s, rest, rfl⟩ := List.exists_cons_of_ne_nil hq
      obtain ⟨w, hw, _⟩ := atPlace?_cons_eq_some.1 hx
      exact ⟨s, w, rest, hw, rfl⟩
    split
    · next hdescend =>
      refine .children Prod.fst ?_ (fun c hc => ?_) ?_
      · exact (pairwise_slots v).imp fun h => ⟨v, rfl, h⟩
      · have hc' := (inSlot?_eq_some_iff hv).2 hc
        have hchild := ih c hc (hv.parts hc) (path ++ [c.1.step c.2])
        simpa only [storedOrder_cons hc', atPlace?_cons_of_inSlot? hc', pathTo_cons hc',
          reaches_cons hc', hdescend, ne_eq, reduceCtorEq, not_false_eq_true, true_and,
          List.append_assoc, List.cons_append, List.nil_append] using hchild
      · rintro q ⟨hq, hx, _⟩
        obtain ⟨s, w, rest, hw, rfl⟩ := hslot hq hx
        exact ⟨(s, w), (inSlot?_eq_some_iff hv).1 hw, rest, rfl⟩
    · next hdescend =>
      refine .nil fun q hq => ?_
      obtain ⟨s, w, rest, hw, rfl⟩ := hslot hq.1 hq.2.1
      exact hdescend ((reaches_cons hw).1 hq.2.2).1

end Value
end ResourceSchema
