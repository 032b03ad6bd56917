import Mathlib.Data.List.Basic
import ResourceSchema.Number.Decimal

/-!
# Digits read back

A text is taken to its end as a run of decimal digits exactly if it has no other characters, and the
digits of a number write that number.
-/

namespace ResourceSchema

variable {c : Char} {cs : List Char}

theorem digitValue?_of_isDigit (h : c.isDigit = true) :
    digitValue? c = some (c.toNat - '0'.toNat) := by
  obtain ⟨hlow, hhigh⟩ := Char.isDigit_iff_toNat.1 h
  have hle : ∀ {a b : Char}, a.toNat ≤ b.toNat → a ≤ b := fun h => UInt32.le_iff_toNat_le.2 h
  rw [digitValue?, if_pos ⟨hle hlow, hle hhigh⟩]

theorem isDigit_of_digitValue? {d : Nat} (h : digitValue? c = some d) : c.isDigit = true := by
  rw [digitValue?] at h
  split at h
  · next hc =>
    apply Char.isDigit_iff_toNat.2
    exact ⟨UInt32.le_iff_toNat_le.1 hc.1, UInt32.le_iff_toNat_le.1 hc.2⟩
  · cases h

theorem takeDigits_of_isDigit (h : ∀ c ∈ cs, c.isDigit = true) :
    takeDigits cs = (cs.map fun c => c.toNat - '0'.toNat, []) := by
  induction cs with
  | nil => rfl
  | cons c cs ih =>
    obtain ⟨hc, hcs⟩ := List.forall_mem_cons.1 h
    rw [takeDigits, digitValue?_of_isDigit hc, ih hcs]
    rfl

/-- Only digits are taken to the end of the text. -/
theorem isDigit_of_takeDigits {ds : List Nat} (h : takeDigits cs = (ds, [])) :
    ∀ c ∈ cs, c.isDigit = true := by
  induction cs generalizing ds with
  | nil => exact nofun
  | cons c cs ih =>
    rw [takeDigits] at h
    split at h
    · next hd =>
      obtain ⟨-, hrest⟩ := Prod.mk.inj h
      exact List.forall_mem_cons.2 ⟨isDigit_of_digitValue? hd, ih (Prod.ext rfl hrest)⟩
    · cases h

theorem ofDigits_map (cs : List Char) :
    ofDigits (cs.map fun c => c.toNat - '0'.toNat) = Nat.ofDigitChars 10 cs 0 := by
  rw [ofDigits, List.foldl_map, Nat.ofDigitChars_eq_foldl]
  simp only [Nat.mul_comm]

/-- The digits of a number are taken from its text, and they write the number. -/
theorem takeDigits_toDigits (n : Nat) : ∃ d ds,
    takeDigits (Nat.toDigits 10 n) = (d :: ds, []) ∧ ofDigits (d :: ds) = n := by
  have hvalue := (ofDigits_map (Nat.toDigits 10 n)).trans Nat.ofDigitChars_ten_toDigits
  have hread := takeDigits_of_isDigit fun c hc =>
    Nat.isDigit_of_mem_toDigits (b := 10) (n := n) (by decide) (by decide) hc
  cases hd : Nat.toDigits 10 n with
  | nil => exact absurd hd Nat.toDigits_ne_nil
  | cons c cs =>
    rw [hd] at hvalue hread
    exact ⟨_, _, hread, hvalue⟩

end ResourceSchema
