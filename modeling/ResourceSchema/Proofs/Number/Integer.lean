import Mathlib.Data.Option.Basic
import ResourceSchema.Number.Shortest
import ResourceSchema.Proofs.Number.Decimal

/-!
# Integers read back

The text of an integer is a number literal without fraction and exponent and without a leading
zero, so it is read as that integer (`Number.ofText?_integer`).
-/

namespace ResourceSchema

/-- A minus sign, where there is one, and the digits. -/
theorem toList_toString_int (i : Int) :
    (toString i).toList =
      if i < 0 then '-' :: Nat.toDigits 10 i.natAbs else Nat.toDigits 10 i.natAbs := by
  rw [Int.toString_eq_repr, Int.repr_eq_if]
  by_cases hi : 0 ≤ i
  · have habs : i.toNat = i.natAbs := by omega
    rw [if_pos hi, if_neg (by omega), Nat.toList_repr, habs]
  · have habs : (-i).toNat = i.natAbs := by omega
    rw [if_neg hi, if_pos (by omega), String.toList_append, Nat.toList_repr, habs]
    rfl

theorem toString_int_ne_empty (i : Int) : toString i ≠ "" := by
  intro hempty
  have hchars := toList_toString_int i
  rw [hempty, String.toList_empty] at hchars
  split at hchars
  · cases hchars
  · exact Nat.toDigits_ne_nil hchars.symm

theorem mem_toString_int {i : Int} {c : Char} (hc : c ∈ (toString i).toList) :
    c = '-' ∨ c.isDigit = true := by
  have hdigit {n : Nat} (hc : c ∈ Nat.toDigits 10 n) : c.isDigit = true :=
    Nat.isDigit_of_mem_toDigits (by decide) (by decide) hc
  rw [toList_toString_int] at hc
  split at hc
  · exact (List.mem_cons.1 hc).imp_right hdigit
  · exact .inr (hdigit hc)

theorem head?_toDigits_ne_zero {n : Nat} (hn : n ≠ 0) : (Nat.toDigits 10 n).head? ≠ some '0' := by
  induction n using Nat.strongRecOn with
  | ind n ih =>
    rw [Nat.toDigits_eq_if (by decide)]
    split
    · next hlt =>
      have hdigit : ∀ m < 10, m ≠ 0 → m.digitChar ≠ '0' := by decide
      simpa using hdigit n hlt hn
    · next hge =>
      rw [List.head?_append_of_ne_nil _ Nat.toDigits_ne_nil]
      exact ih (n / 10) (by omega) (by omega)

/-- Digits start with a zero only if there are no others. -/
theorem exists_toDigits (n : Nat) :
    ∃ c cs, Nat.toDigits 10 n = c :: cs ∧ c ≠ '-' ∧ (c = '0' → cs = []) := by
  obtain ⟨c, cs, hdigits⟩ := List.exists_cons_of_ne_nil (Nat.toDigits_ne_nil (b := 10) (n := n))
  have hdigit : c.isDigit = true :=
    Nat.isDigit_of_mem_toDigits (by decide) (by decide) (hdigits ▸ List.mem_cons_self)
  refine ⟨c, cs, hdigits, ?_, ?_⟩
  · rintro rfl
    cases hdigit
  · rintro rfl
    by_cases hn : n = 0
    · subst hn
      exact (List.cons.inj hdigits).2.symm
    · exact absurd (by rw [hdigits]; rfl) (head?_toDigits_ne_zero hn)

namespace Number.Literal

theorem absorb_of_lt {ds : List Nat} {n : Nat}
    (h : ds.foldl (fun n d => n * 10 + d) n < 0x10000000000000000) :
    absorb n ds = (ds.foldl (fun n d => n * 10 + d) n, 0) := by
  induction ds generalizing n with
  | nil => rfl
  | cons d ds ih =>
    have hle : n * 10 + d ≤ ds.foldl (fun n d => n * 10 + d) (n * 10 + d) := by
      generalize n * 10 + d = m
      clear ih h
      induction ds generalizing m with
      | nil => exact Nat.le_refl _
      | cons d ds ih => exact Nat.le_trans (by omega) (ih (m * 10 + d))
    rw [List.foldl_cons] at h ⊢
    rw [absorb, if_pos (by omega), ih h]

/-- Digits are read to their end if they do not start with a zero before others. -/
theorem read?_digits {c : Char} {cs : List Char} {d : Nat} {ds : List Nat}
    (hminus : c ≠ '-') (hzero : c = '0' → cs = [])
    (hread : takeDigits (c :: cs) = (d :: ds, [])) :
    read? (c :: cs) = some (⟨false, d :: ds, [], none⟩, []) ∧
      read? ('-' :: c :: cs) = some (⟨true, d :: ds, [], none⟩, []) := by
  by_cases hc : c = '0'
  · obtain rfl := hzero hc
    subst hc
    cases hread
    exact ⟨rfl, rfl⟩
  · constructor <;> simp [read?, hminus, hc, hread, takeExponent?]

theorem read?_toString (i : Int) : ∃ d ds, ofDigits (d :: ds) = i.natAbs ∧
    read? (toString i).toList = some (⟨decide (i < 0), d :: ds, [], none⟩, []) := by
  obtain ⟨d, ds, hread, hvalue⟩ := takeDigits_toDigits i.natAbs
  refine ⟨d, ds, hvalue, ?_⟩
  obtain ⟨c, cs, hdigits, hminus, hzero⟩ := exists_toDigits i.natAbs
  rw [hdigits] at hread
  obtain ⟨hpositive, hnegative⟩ := read?_digits hminus hzero hread
  rw [toList_toString_int, hdigits]
  split
  · next hi => rw [decide_eq_true hi, hnegative]
  · next hi => rw [decide_eq_false hi, hpositive]

end Number.Literal

theorem Number.ofText?_integer {i : Int}
    (h : -0x8000000000000000 ≤ i ∧ i < 0x10000000000000000) :
    ofText? (toString i) = some (.integer i h) := by
  obtain ⟨d, ds, hvalue, hread⟩ := Literal.read?_toString i
  have habsorb : Literal.absorb 0 (d :: ds) = (i.natAbs, 0) := by
    rw [Literal.absorb_of_lt, ← ofDigits, hvalue]
    rw [← ofDigits, hvalue]
    omega
  have hsigned : (if i < 0 then -(i.natAbs : Int) else i.natAbs) = i := by omega
  have hzero : (decide (i < 0) && i.natAbs == 0) = false := by
    by_cases hi : i < 0
    · simp [Int.ne_of_lt hi]
    · simp [hi]
  have hnumber : Literal.toNumber? ⟨decide (i < 0), d :: ds, [], none⟩ = some (.integer i h) := by
    simp only [Literal.toNumber?, habsorb, decide_eq_true_eq, hsigned, hzero, ofInt?, dif_pos h]
    rfl
  rw [ofText?, hread]
  exact hnumber

end ResourceSchema
