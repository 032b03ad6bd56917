import Mathlib.Data.List.Forall2

/-!
# Functions that go through a list

A definition by mutual recursion goes through the list of its members by itself. By the equations
that it has for the empty list and for a first member in front of others it is one of the functions
on lists, and what is defined of lists in this way holds of one if it does of each member. On lists
that match member by member it is the same.
-/

namespace ResourceSchema

variable {α β γ σ : Type}

theorem eq_map_of_cons {f : List α → List β} {g : α → β} (hnil : f [] = [])
    (hcons : ∀ x xs, f (x :: xs) = g x :: f xs) (xs : List α) : f xs = xs.map g := by
  induction xs with
  | nil => exact hnil
  | cons x xs ih => rw [hcons, ih, List.map_cons]

theorem eq_flatMap_of_cons {f : List α → List β} {g : α → List β} (hnil : f [] = [])
    (hcons : ∀ x xs, f (x :: xs) = g x ++ f xs) (xs : List α) : f xs = xs.flatMap g := by
  induction xs with
  | nil => exact hnil
  | cons x xs ih => rw [hcons, ih, List.flatMap_cons]

theorem eq_all_of_cons {f : List α → Bool} {g : α → Bool} (hnil : f [] = true)
    (hcons : ∀ x xs, f (x :: xs) = (g x && f xs)) (xs : List α) : f xs = xs.all g := by
  induction xs with
  | nil => exact hnil
  | cons x xs ih => rw [hcons, ih, List.all_cons]

theorem iff_forall_of_cons {P : List α → Prop} {Q : α → Prop} (hnil : P [])
    (hcons : ∀ x xs, P (x :: xs) ↔ Q x ∧ P xs) (xs : List α) : P xs ↔ ∀ x ∈ xs, Q x := by
  induction xs with
  | nil => exact iff_of_true hnil (by simp)
  | cons x xs ih => rw [hcons, ih, List.forall_mem_cons]

section Forall₂

variable {R : α → β → Prop} {xs : List α} {ys : List β}

theorem map_eq_map_of_forall₂ {f : α → γ} {g : β → γ} (hm : List.Forall₂ R xs ys)
    (h : ∀ x ∈ xs, ∀ y, R x y → f x = g y) : xs.map f = ys.map g := by
  have hequal := ((List.forall₂_and_left _ _).2 ⟨h, hm⟩).imp fun x y hxy => hxy.1 y hxy.2
  rwa [← List.forall₂_eq_eq_eq, List.forall₂_map_left_iff, List.forall₂_map_right_iff]

theorem all_eq_all_of_forall₂ {f : α → Bool} {g : β → Bool} (hm : List.Forall₂ R xs ys)
    (h : ∀ x ∈ xs, ∀ y, R x y → f x = g y) : xs.all f = ys.all g := by
  have hmap := congrArg (List.all · id) (map_eq_map_of_forall₂ hm h)
  simpa using hmap

end Forall₂

section Monad

variable {m : Type → Type} [Monad m]

theorem eq_mapM_of_cons [LawfulMonad m] {f : List α → m (List β)} {g : α → m β}
    (hnil : f [] = pure []) (hcons : ∀ x xs, f (x :: xs) = do return (← g x) :: (← f xs))
    (xs : List α) : f xs = xs.mapM g := by
  induction xs with
  | nil => exact hnil
  | cons x xs ih => rw [hcons, ih, List.mapM_cons]

theorem eq_foldlM_of_cons {f : List α → σ → m σ} {g : σ → α → m σ} (hnil : ∀ s, f [] s = pure s)
    (hcons : ∀ x xs s, f (x :: xs) s = g s x >>= f xs) (xs : List α) (s : σ) :
    f xs s = xs.foldlM g s := by
  induction xs generalizing s with
  | nil => exact hnil s
  | cons x xs ih => rw [hcons, List.foldlM_cons, funext ih]

end Monad

end ResourceSchema
