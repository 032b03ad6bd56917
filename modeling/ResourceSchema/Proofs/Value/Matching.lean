import Mathlib.Data.List.FinRange
import Mathlib.Data.List.Perm.Basic
import Mathlib.Data.Multiset.AddSub
import ResourceSchema.Proofs.Value.Step

/-!
# Sets up to equality

Up to equality of their elements sets are multisets: two sets are equal exactly if they have the
same classes of equal elements, each as often (`pairUp_iff_classes`). Taking the first equal element
out of a set takes its class away once, so that a search that goes through one set and takes each
element out of the other is decided by the inclusion of the classes (`matchEach_iff`), whatever the
order of what is left. Equality of values is the one that relates sets by some one-to-one
correspondence of their elements, at every depth (`Equal`).
-/

namespace ResourceSchema.Value

variable {α : Type} {t u : Ty} {v w : Value} {items others : List Value}

/-! ## Classes of equal values -/

def equality : Setoid Value := ⟨fun v w => v.same w = true, same_refl, same_symm, same_trans⟩

/-- All values that equal each other. -/
abbrev Class : Type := Quotient equality

def classOf (v : Value) : Class := Quotient.mk equality v

@[simp] theorem classOf_eq_iff : v.classOf = w.classOf ↔ v.same w = true := Quotient.eq

instance : DecidableEq Class :=
  @Quotient.decidableEq _ equality fun v w => inferInstanceAs (Decidable (v.same w = true))

/-- The classes of some elements, each as often as it occurs. -/
def classes (items : List Value) : Multiset Class := (items.map classOf : List Class)

@[simp] theorem classes_cons (v : Value) (items : List Value) :
    classes (v :: items) = v.classOf ::ₘ classes items := rfl

theorem classes_eq_of_perm (h : items.Perm others) : classes items = classes others :=
  Multiset.coe_eq_coe.2 (h.map classOf)

@[simp] theorem card_classes (items : List Value) : (classes items).card = items.length := by
  rw [classes, Multiset.coe_card, List.length_map]

theorem classOf_mem_classes : v.classOf ∈ classes items ↔ ∃ x ∈ items, x.same v = true := by
  simp [classes]

theorem classes_eraseP (w : Value) (items : List Value) :
    classes (items.eraseP fun v => v.same w) = (classes items).erase w.classOf := by
  have htest : (fun v : Value => v.same w) = (fun c => w.classOf == c) ∘ classOf := by
    funext v
    rw [Bool.eq_iff_iff, Function.comp, beq_iff_eq, classOf_eq_iff, same_comm]
  rw [classes, classes, Multiset.coe_erase, List.erase_eq_eraseP, List.eraseP_map, htest]

/-! ## One-to-one correspondence -/

theorem map_classOf_eq_iff : items.map classOf = others.map classOf ↔
    List.Forall₂ (fun v w => v.same w = true) items others := by
  rw [← List.forall₂_eq_eq_eq, List.forall₂_map_left_iff, List.forall₂_map_right_iff]
  simp

/-- Elements pair up exactly if they make the same classes. -/
theorem pairUp_iff_classes : pairUp items others = true ↔ classes items = classes others := by
  have hperm : (items.map classOf).Perm (others.map classOf) ↔
      ∃ matched : List Value, items.map classOf = matched.map classOf ∧ matched.Perm others :=
    iff_of_eq (congrFun₂ (List.eq_map_comp_perm classOf) _ _).symm
  rw [pairUp_iff, classes, classes, Multiset.coe_eq_coe, hperm]
  simp only [map_classOf_eq_iff, and_comm]

/-- The elements of a list and of a rearrangement of it correspond one to one. -/
theorem exists_equiv_of_perm {xs ys : List α} (h : xs.Perm ys) :
    ∃ σ : Fin xs.length ≃ Fin ys.length, ∀ i, ys.get (σ i) = xs.get i := by
  classical
  exact ⟨Equiv.ofBijective h.idxBij ⟨h.idxBij_injective, h.idxBij_surjective⟩,
    h.getElem_idxBij_eq_getElem⟩

/-- What is read at places in one-to-one correspondence is a rearrangement. -/
theorem ofFn_comp_perm {m n : Nat} (σ : Fin m ≃ Fin n) (f : Fin n → α) :
    (List.ofFn (f ∘ σ)).Perm (List.ofFn f) := by
  obtain rfl : m = n := Fin.equiv_iff_eq.1 ⟨σ⟩
  exact Equiv.Perm.ofFn_comp_perm σ f

theorem map_classOf_eq_ofFn (items : List Value) :
    items.map classOf = List.ofFn fun i => (items.get i).classOf := by
  rw [← Function.comp_def, ← List.map_ofFn, List.ofFn_get]

/-- Elements pair up exactly if some one-to-one correspondence relates equal ones. -/
theorem pairUp_iff_exists_equiv : pairUp items others = true ↔
    ∃ σ : Fin items.length ≃ Fin others.length,
      ∀ i, (items.get i).same (others.get (σ i)) = true := by
  constructor
  · intro h
    obtain ⟨matched, hperm, hm⟩ := exists_perm_of_pairUp h
    obtain ⟨hlen, hget⟩ := List.forall₂_iff_get.1 hm
    obtain ⟨σ, hσ⟩ := exists_equiv_of_perm hperm
    refine ⟨(finCongr hlen).trans σ, fun i => ?_⟩
    rw [Equiv.trans_apply, hσ]
    exact hget i i.isLt (hlen ▸ i.isLt)
  · rintro ⟨σ, hσ⟩
    have hread : (fun i => (items.get i).classOf) = (fun j => (others.get j).classOf) ∘ σ :=
      funext fun i => classOf_eq_iff.2 (hσ i)
    rw [pairUp_iff_classes, classes, classes, Multiset.coe_eq_coe, map_classOf_eq_ofFn,
      map_classOf_eq_ofFn others, hread]
    exact ofFn_comp_perm σ _

/-! ## The search -/

/-- The list without its element at a place, which the last one moves to. -/
def swapRemove (i : Nat) (xs : List α) : List α :=
  match xs.getLast? with
  | some last => (xs.set i last).dropLast
  | none => []

/-- Each element in turn is matched with the first unmatched one that equals it. -/
def matchEach : List Value → List Value → Bool
  | [], _ => true
  | v :: vs, unmatched =>
    match unmatched.findIdx? fun w => w.same v with
    | some i => matchEach vs (swapRemove i unmatched)
    | none => false

/-- Equality of sets by elements, one to one and in any order. -/
def sameElements (items others : List Value) : Bool :=
  items.length == others.length && matchEach items others

theorem swapRemove_perm {i : Nat} {xs : List α} (hi : i < xs.length) :
    (swapRemove i xs).Perm (xs.eraseIdx i) := by
  rcases List.eq_nil_or_concat' xs with rfl | ⟨front, last, rfl⟩
  · cases hi
  have hlast : (front ++ [last]).getLast? = some last := List.getLast?_concat
  rw [swapRemove, hlast]
  dsimp only
  rcases Nat.lt_succ_iff_lt_or_eq.1 (by simpa using hi) with hlt | rfl
  · rw [List.set_append_left _ _ hlt, List.dropLast_concat, List.eraseIdx_append_of_lt_length hlt]
    exact (List.set_perm_cons_eraseIdx hlt last).trans (List.perm_append_singleton last _).symm
  · rw [List.set_append_right _ _ (Nat.le_refl _), Nat.sub_self, List.set_cons_zero,
      List.dropLast_concat, List.eraseIdx_append_of_length_le (Nat.le_refl _), Nat.sub_self,
      List.eraseIdx_cons_zero, List.append_nil]

theorem cons_le_iff_le_erase {β : Type} [DecidableEq β] {a : β} {s t : Multiset β} :
    a ::ₘ s ≤ t ↔ a ∈ t ∧ s ≤ t.erase a := by
  constructor
  · intro h
    refine ⟨Multiset.mem_of_le h (Multiset.mem_cons_self a s), ?_⟩
    simpa using Multiset.erase_le_erase a h
  · rintro ⟨ha, hs⟩
    rw [← Multiset.cons_erase ha]
    exact Multiset.cons_le_cons a hs

/-- What is left after an element has been matched has lost a class once. -/
theorem classes_swapRemove {i : Nat} (h : (others.findIdx? fun w => w.same v) = some i) :
    classes (swapRemove i others) = (classes others).erase v.classOf := by
  rw [classes_eq_of_perm (swapRemove_perm (List.findIdx?_eq_some_iff_getElem.1 h).1),
    ← classes_eraseP, List.eraseP_eq_eraseIdx, h]

theorem matchEach_iff : matchEach items others = true ↔ classes items ≤ classes others := by
  induction items generalizing others with
  | nil => exact ⟨fun _ => Multiset.zero_le _, fun _ => rfl⟩
  | cons v items ih =>
    rw [matchEach, classes_cons, cons_le_iff_le_erase, classOf_mem_classes]
    split
    · next i hi =>
      obtain ⟨hlt, hsame, _⟩ := List.findIdx?_eq_some_iff_getElem.1 hi
      rw [ih, classes_swapRemove hi]
      exact ⟨fun h => ⟨⟨_, List.getElem_mem hlt, hsame⟩, h⟩, And.right⟩
    · next hnone =>
      refine ⟨fun h => (by cases h), fun ⟨⟨x, hx, hsame⟩, _⟩ => ?_⟩
      exact absurd hsame (Bool.eq_false_iff.1 (List.findIdx?_eq_none_iff.1 hnone x hx))

theorem sameElements_eq_pairUp (items others : List Value) :
    sameElements items others = pairUp items others := by
  rw [Bool.eq_iff_iff, sameElements, Bool.and_eq_true, beq_iff_eq, matchEach_iff,
    pairUp_iff_classes]
  constructor
  · rintro ⟨hlen, hle⟩
    exact Multiset.eq_of_le_of_card_le hle (by rw [card_classes, card_classes, hlen])
  · intro h
    rw [← card_classes, ← card_classes, h]
    exact ⟨rfl, le_rfl⟩

/-! ## Equality at every depth -/

/-- Equality without a search: what is not a set is equal part by part, and sets are equal when some
one-to-one correspondence of their elements relates equal ones. -/
inductive Equal : Value → Value → Prop
  | null (t : Ty) : Equal (.null t) (.null t)
  | unknown (t : Ty) : Equal (.unknown t) (.unknown t)
  | string (s : String) : Equal (.string s) (.string s)
  | number {n m : Number} (h : n.same m = true) : Equal (.number n) (.number m)
  | bool (b : Bool) : Equal (.bool b) (.bool b)
  | list {t : Ty} {items others : List Value} (h : List.Forall₂ Equal items others) :
      Equal (.list t items) (.list t others)
  | set {t : Ty} {items others : List Value} (σ : Fin items.length ≃ Fin others.length)
      (h : ∀ i, Equal (items.get i) (others.get (σ i))) : Equal (.set t items) (.set t others)
  | map {t : Ty} {entries others : List (String × Value)}
      (hk : Keyed.keys entries = Keyed.keys others)
      (h : List.Forall₂ Equal (entries.map Prod.snd) (others.map Prod.snd)) :
      Equal (.map t entries) (.map t others)
  | object {fields others : List (String × Value)}
      (hk : Keyed.keys fields = Keyed.keys others)
      (h : List.Forall₂ Equal (fields.map Prod.snd) (others.map Prod.snd)) :
      Equal (.object fields) (.object others)

theorem same_of_sameParts (h : SameParts v w) : v.same w = true := by
  cases h with
  | null t => exact same_refl _
  | unknown t => exact same_refl _
  | string s => exact same_refl _
  | number h => rwa [same]
  | bool b => exact same_refl _
  | list h => rw [same, sameItems_iff.2 h, beq_self_eq_true, Bool.and_self]
  | set h => rw [same, h, beq_self_eq_true, Bool.and_self]
  | map h => rw [same, sameEntries_iff.2 h, beq_self_eq_true, Bool.and_self]
  | object h => rw [same, sameEntries_iff.2 h]

theorem forall₂_same_iff_equal (ih : ∀ v ∈ items, ∀ w, v.same w = true ↔ Equal v w) :
    List.Forall₂ (fun v w => v.same w = true) items others ↔ List.Forall₂ Equal items others :=
  ⟨fun h => forall₂_imp_of_mem h fun v hv w _ => (ih v hv w).1,
    fun h => forall₂_imp_of_mem h fun v hv w _ => (ih v hv w).2⟩

theorem entries_same_iff_equal {entries others : List (String × Value)}
    (ih : ∀ e ∈ entries, ∀ w, e.2.same w = true ↔ Equal e.2 w) :
    List.Forall₂ (fun a b => a.1 = b.1 ∧ a.2.same b.2 = true) entries others ↔
      Keyed.keys entries = Keyed.keys others ∧
        List.Forall₂ Equal (entries.map Prod.snd) (others.map Prod.snd) := by
  rw [← forall₂_same_iff_equal (List.forall_mem_map.2 ih)]
  exact Keyed.forall₂_iff_values (R := fun v w : Value => v.same w = true)

theorem same_iff_equal : v.same w = true ↔ Equal v w := by
  induction v using Value.induct generalizing w with
  | list t items ih =>
    constructor
    · intro h
      cases sameParts_of_same h with
      | list hm => exact .list ((forall₂_same_iff_equal fun v hv w => ih v hv).1 hm)
    · intro h
      cases h with
      | list hm =>
        exact same_of_sameParts (.list ((forall₂_same_iff_equal fun v hv w => ih v hv).2 hm))
  | set t items ih =>
    constructor
    · intro h
      cases sameParts_of_same h with
      | set hp =>
        obtain ⟨σ, hσ⟩ := pairUp_iff_exists_equiv.1 hp
        exact .set σ fun i => (ih _ (List.get_mem items i)).1 (hσ i)
    · intro h
      cases h with
      | set σ hσ =>
        refine same_of_sameParts (.set (pairUp_iff_exists_equiv.2 ⟨σ, fun i => ?_⟩))
        exact (ih _ (List.get_mem items i)).2 (hσ i)
  | map t entries ih =>
    constructor
    · intro h
      cases sameParts_of_same h with
      | map hm =>
        obtain ⟨hk, hm⟩ := (entries_same_iff_equal fun e he w => ih e he).1 hm
        exact .map hk hm
    · intro h
      cases h with
      | map hk hm =>
        exact same_of_sameParts (.map ((entries_same_iff_equal fun e he w => ih e he).2 ⟨hk, hm⟩))
  | object fields ih =>
    constructor
    · intro h
      cases sameParts_of_same h with
      | object hm =>
        obtain ⟨hk, hm⟩ := (entries_same_iff_equal fun e he w => ih e he).1 hm
        exact .object hk hm
    · intro h
      cases h with
      | object hk hm =>
        exact same_of_sameParts
          (.object ((entries_same_iff_equal fun e he w => ih e he).2 ⟨hk, hm⟩))
  | number n =>
    constructor
    · intro h
      cases sameParts_of_same h with
      | number hn => exact .number hn
    · intro h
      cases h with
      | number hn => exact same_of_sameParts (.number hn)
  | null t | unknown t | string s | bool b =>
    refine ⟨fun h => ?_, fun h => ?_⟩
    · cases sameParts_of_same h
      constructor
    · cases h
      exact same_refl _

/-- Equality of values is equality at every depth, where the elements of sets correspond one to one.
The search through two sets finds a correspondence exactly if there is one, whatever it has taken
first. So equality is an equivalence. -/
theorem equality_spec :
    (∀ v w : Value, v.same w = true ↔ Equal v w) ∧
      (∀ t u items others, (Value.set t items).same (.set u others) =
        (t == u && sameElements items others)) ∧
      (∀ items others, sameElements items others = true ↔
        ∃ σ : Fin items.length ≃ Fin others.length,
          ∀ i, (items.get i).same (others.get (σ i)) = true) ∧
      Equivalence fun v w : Value => v.same w = true := by
  refine ⟨fun v w => same_iff_equal, fun t u items others => ?_, fun items others => ?_,
    ⟨same_refl, same_symm, same_trans⟩⟩
  · rw [same, sameElements_eq_pairUp]
  · rw [sameElements_eq_pairUp, pairUp_iff_exists_equiv]

/-- Two unknowns in a set match two unknowns elsewhere, but not one unknown twice. -/
example :
    let a : Value := .string "a"
    let x : Value := .unknown .string
    sameElements [x, x, a] [a, x, x] = true ∧
      sameElements [x, x, a] [x, a, .string "b"] = false := by
  decide +kernel

end ResourceSchema.Value
