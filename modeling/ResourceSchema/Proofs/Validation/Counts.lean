import Mathlib.Data.List.Pairwise
import Mathlib.Data.Set.Pairwise.List
import ResourceSchema.Proofs.Validation.Combinations

/-!
# Counts of attributes that are set

To tell whether exactly one of a group is set, the paths that the expressions match are counted, not
the positions they lead to. The two numbers are the same unless a position with a known value is
reported twice (`ValidateRequest.CountsTwice`), and then there is an error in any case
(`ValidateRequest.Present.exactlyOneOf_spec`).
-/

namespace ResourceSchema

/-- `n` is the number of paths that have a property, where equal paths count as one. -/
def Path.Count (P : Path → Prop) (n : Nat) : Prop :=
  ∃ paths : List Path, paths.length = n ∧ paths.Pairwise (fun p q => Path.same p q = false) ∧
    ∀ p, P p ↔ ∃ q ∈ paths, Path.same q p = true

/-- Leaving out what equals an earlier path leaves a path equal to each. -/
theorem Path.exists_mem_pwFilter (paths : List Path) (p : Path) :
    (∃ q ∈ paths.pwFilter fun p q => Path.same p q = false, Path.same q p = true) ↔
      ∃ q ∈ paths, Path.same q p = true := by
  have hdiffer : ∀ q : Path, Path.same p q = false ↔ ¬Path.same q p = true := fun q => by
    rw [Bool.eq_false_iff]
    exact not_congr ⟨same_symm, same_symm⟩
  have hnone := List.forall_mem_pwFilter (R := fun p q => Path.same p q = false)
    (fun {x y z} hxz => by
      by_cases hxy : Path.same x y = true
      · refine .inr (Bool.eq_false_iff.2 fun hyz => ?_)
        exact Bool.eq_false_iff.1 hxz (same_trans hxy hyz)
      · exact .inl (Bool.eq_false_iff.2 hxy)) p paths
  rw [← not_iff_not]
  simpa only [not_exists, not_and, hdiffer] using hnone

/-- As many paths have a property as there are different ones in a list of them. -/
theorem Path.exists_count {P : Path → Prop} {paths : List Path}
    (hp : ∀ p, P p ↔ ∃ q ∈ paths, Path.same q p = true) :
    ∃ n, Count P n ∧ (n = 0 ↔ paths = []) ∧
      (paths.Pairwise (fun p q => Path.same p q = false) → n = paths.length) := by
  have hkept : ∀ p, P p ↔
      ∃ q ∈ paths.pwFilter fun p q => Path.same p q = false, Path.same q p = true :=
    fun p => (hp p).trans (exists_mem_pwFilter paths p).symm
  refine ⟨_, ⟨_, rfl, List.pairwise_pwFilter paths, hkept⟩, ?_, fun h => ?_⟩
  · rw [List.length_eq_zero_iff]
    refine ⟨fun hempty => List.eq_nil_iff_forall_not_mem.2 fun p hmem => ?_,
      fun h => by rw [h]; rfl⟩
    have hsame := (exists_mem_pwFilter paths p).2 ⟨p, hmem, same_refl p⟩
    rw [hempty] at hsame
    obtain ⟨q, hq, -⟩ := hsame
    cases hq
  · rw [List.pwFilter_eq_self.2 h]

namespace Server

def nameRequest : ValidateRequest := ⟨[.name "name"], .null .string, unnamed⟩

/-- The labels of all disks, and that of the first one. -/
def overlapping : List PathExpr := [labels, .ofPath labelRequest.path]

end Server

namespace ValidateRequest

variable {r : ValidateRequest} {es : List PathExpr} {e : PathExpr} {p : Path} {v : Value} {t : Ty}
  {custom : CustomValidators}

/-- The node itself or a reported position, with the value there. -/
def Covers (r : ValidateRequest) (es : List PathExpr) (p : Path) (v : Value) : Prop :=
  r.config.raw.atPath p = .ok v ∧ Path.same p r.path = true ∨ r.Reported es p v

/-- Two places with one path, which nothing but the place tells apart, are reported. -/
def Doubles (r : ValidateRequest) (e : PathExpr) (v : Value) : Prop :=
  ∃ q q' x x', q ≠ q' ∧ r.config.raw.atPlace? q = some x ∧ r.config.raw.atPlace? q' = some x' ∧
    Path.same (r.config.raw.pathTo q) (r.config.raw.pathTo q') = true ∧
    r.Reports e (r.config.raw.pathTo q) v

/-- A position with a known value is reported twice: by two of the expressions, or by one for equal
elements of a set. -/
inductive CountsTwice (r : ValidateRequest) (es : List PathExpr) : Prop
  | overlap {e e' : PathExpr} {p : Path} {v : Value} (hes : [e, e'].Sublist es)
      (h : r.Reports e p v) (h' : r.Reports e' p v) (hv : v.isKnown = true)
  | double {e : PathExpr} {v : Value} (he : e ∈ es) (h : r.Doubles e v) (hv : v.isKnown = true)

/-- The paths that are counted for an expression. -/
def counted (r : ValidateRequest) (e : PathExpr) : List Path :=
  ((r.matched [e]).filter fun n => n.2.isKnown).map Prod.fst

theorem configured_eq (r : ValidateRequest) (es : List PathExpr) : r.configured es =
    (if r.configValue.isKnown then [r.path] else []) ++ es.flatMap r.counted := by
  have hmatched : ((r.matched es).filter fun n => n.2.isKnown).map Prod.fst =
      es.flatMap r.counted := by
    rw [matched_eq_flatMap, List.filter_flatMap, List.map_flatMap]
    rfl
  rw [← hmatched]
  by_cases hknown : r.configValue.isKnown = true
  · rw [if_pos hknown]
    exact congrArg (List.map Prod.fst) (List.filter_cons_of_pos hknown)
  · rw [if_neg hknown]
    exact congrArg (List.map Prod.fst) (List.filter_cons_of_neg hknown)

theorem mem_counted (hd : r.config.Invariant)
    (ht : r.config.schema.typeAtExpr (e.merge r.path) = .ok t) (hp : p ∈ r.counted e) :
    ∃ v, r.Reports e p v ∧ v.isKnown = true := by
  obtain ⟨n, hn, rfl⟩ := List.mem_map.1 hp
  obtain ⟨hn, hknown⟩ := List.mem_filter.1 hn
  obtain ⟨places, -, -, hat⟩ := enumerates_matched hd ht
  obtain ⟨q, -, -, hreports⟩ := Value.forall₂_exists_left hat hn
  exact ⟨n.2, hreports, hknown⟩

theorem exists_mem_counted (hd : r.config.Invariant)
    (ht : r.config.schema.typeAtExpr (e.merge r.path) = .ok t) (h : r.Reports e p v)
    (hv : v.isKnown = true) : ∃ q ∈ r.counted e, Path.same q p = true := by
  obtain ⟨n, hn, hsame, hvalue⟩ := exists_mem_matched hd ht h
  rw [Value.isKnown_eq_of_same hvalue] at hv
  exact ⟨n.1, List.mem_map_of_mem (List.mem_filter.2 ⟨hn, hv⟩), hsame⟩

/-- The paths counted for one expression differ unless it reports equal elements of a set. -/
theorem pairwise_counted_iff (hd : r.config.Invariant)
    (ht : r.config.schema.typeAtExpr (e.merge r.path) = .ok t) :
    (r.counted e).Pairwise (fun p q => Path.same p q = false) ↔
      ∀ v, r.Doubles e v → v.isKnown = false := by
  have hknown : ∀ (q : List Slot) (n : Path × Value),
      n.1 = r.config.raw.pathTo q ∧ r.Reports e n.1 n.2 →
        (n.2.isKnown = true ↔ ∃ v, r.Reports e (r.config.raw.pathTo q) v ∧ v.isKnown = true) := by
    rintro q ⟨p, v⟩ ⟨rfl, hv⟩
    refine ⟨fun h => ⟨v, hv, h⟩, fun ⟨w, hw, h⟩ => ?_⟩
    rwa [Value.isKnown_eq_of_same (hv.same_value hw (Path.same_refl _))]
  obtain ⟨places, hordered, hplaces, hat⟩ := (enumerates_matched hd ht).filter hknown
  have hnodup : places.Nodup :=
    hordered.imp (Precedes.ne fun _ _ _ => Value.storedOrder_ne hd.raw)
  have hcounted : r.counted e = places.map r.config.raw.pathTo := by
    have hpaths : List.Forall₂ (fun (n : Path × Value) q => n.1 = r.config.raw.pathTo q) _ places :=
      hat.flip.imp fun _ _ h => h.1
    rwa [← List.forall₂_map_right_iff, ← List.forall₂_map_left_iff, List.forall₂_eq_eq_eq] at hpaths
  have hsymm : Std.Symm fun q q' =>
      Path.same (r.config.raw.pathTo q) (r.config.raw.pathTo q') = false :=
    ⟨fun q q' h => Bool.eq_false_iff.2 fun hsame =>
      Bool.eq_false_iff.1 h (Path.same_symm hsame)⟩
  rw [hcounted, List.pairwise_map, ← hnodup.pairwise_coe]
  constructor
  · rintro h v ⟨q, q', x, x', hne, hx, hx', hsame, hv⟩
    rw [Bool.eq_false_iff]
    intro htrue
    obtain ⟨w, hw, hvw⟩ := hv.congr hsame
    have htrue' := Value.isKnown_eq_of_same hvw ▸ htrue
    have hq := (hplaces q).2 ⟨⟨x, hx, v, hv⟩, v, hv, htrue⟩
    have hq' := (hplaces q').2 ⟨⟨x', hx', w, hw⟩, w, hw, htrue'⟩
    exact Bool.eq_false_iff.1 (h hq hq' hne) hsame
  · intro h q hq q' hq' hne
    obtain ⟨⟨x, hx, -⟩, v, hv, htrue⟩ := (hplaces q).1 hq
    obtain ⟨⟨x', hx', -⟩, -⟩ := (hplaces q').1 hq'
    rw [Bool.eq_false_iff]
    intro hsame
    exact Bool.eq_false_iff.1 (h v ⟨q, q', x, x', hne, hx, hx', hsame, hv⟩) htrue

theorem pairwise_configured_iff (hd : r.config.Invariant) (hes : r.Resolves es) :
    (r.configured es).Pairwise (fun p q => Path.same p q = false) ↔ ¬r.CountsTwice es := by
  have hown : ∀ p ∈ (if r.configValue.isKnown then [r.path] else []), p = r.path := by
    intro p hp
    split at hp
    · exact List.mem_singleton.1 hp
    · cases hp
  -- The node's own path is left out of what expressions report.
  rw [configured_eq, List.pairwise_append, List.pairwise_flatMap]
  constructor
  · rintro ⟨-, ⟨hdouble, hoverlap⟩, -⟩ h
    cases h with
    | @overlap e e' p v hsub h h' hv =>
      obtain ⟨t, ht⟩ := hes e (hsub.subset List.mem_cons_self)
      obtain ⟨t', ht'⟩ := hes e' (hsub.subset (List.mem_cons_of_mem e List.mem_cons_self))
      obtain ⟨q, hq, hqp⟩ := exists_mem_counted hd ht h hv
      obtain ⟨q', hq', hqp'⟩ := exists_mem_counted hd ht' h' hv
      have hdiffer := List.pairwise_iff_forall_sublist.1 hoverlap hsub q hq q' hq'
      exact Bool.eq_false_iff.1 hdiffer (Path.same_trans hqp (Path.same_symm hqp'))
    | double he h hv =>
      obtain ⟨t, ht⟩ := hes _ he
      exact Bool.eq_false_iff.1 ((pairwise_counted_iff hd ht).1 (hdouble _ he) _ h) hv
  · intro h
    refine ⟨?_, ⟨fun e he => ?_, ?_⟩, ?_⟩
    · split
      · exact List.pairwise_singleton _ _
      · exact .nil
    · obtain ⟨t, ht⟩ := hes e he
      refine (pairwise_counted_iff hd ht).2 fun v hv => Bool.eq_false_iff.2 fun htrue => ?_
      exact h (.double he hv htrue)
    · rw [List.pairwise_iff_forall_sublist]
      intro e e' hsub q hq q' hq'
      rw [Bool.eq_false_iff]
      intro hsame
      obtain ⟨t, ht⟩ := hes e (hsub.subset List.mem_cons_self)
      obtain ⟨t', ht'⟩ := hes e' (hsub.subset (List.mem_cons_of_mem e List.mem_cons_self))
      obtain ⟨v, hv, hknown⟩ := mem_counted hd ht hq
      obtain ⟨v', hv', -⟩ := mem_counted hd ht' hq'
      obtain ⟨w, hw, hvw⟩ := hv.congr hsame
      obtain rfl := Except.ok.inj (hv'.value.symm.trans hw.value)
      exact h (.overlap hsub hw hv' (Value.isKnown_eq_of_same hvw ▸ hknown))
    · intro p hp q hq
      obtain ⟨e, he, hq⟩ := List.mem_flatMap.1 hq
      obtain ⟨t, ht⟩ := hes e he
      obtain ⟨v, hv, -⟩ := mem_counted hd ht hq
      rw [hown p hp, Bool.eq_false_iff]
      exact fun hsame => Bool.eq_false_iff.1 hv.other (Path.same_symm hsame)

theorem hasError_exactlyOneOf (hes : r.Resolves es) :
    ((Validator.exactlyOneOf es).check custom r).hasError = true ↔
      1 < (r.configured es).length ∨ r.configured es = [] ∧ r.undecided es = false := by
  rw [Validator.check, expressionErrors_eq_nil hes, List.nil_append]
  by_cases hlength : 1 < (r.configured es).length
  · rw [if_pos hlength]
    exact iff_of_true rfl (.inl hlength)
  · rw [if_neg hlength, or_iff_right hlength]
    exact hasError_unset rfl

/-- The covered values of a kind are the value of the node and the reported ones. -/
theorem Present.exists_covers_iff (hr : r.Present) {test : Value → Bool}
    (htest : ∀ v w, v.same w = true → test v = test w) :
    (∃ p v, r.Covers es p v ∧ test v = true) ↔
      test r.configValue = true ∨ ∃ p v, r.Reported es p v ∧ test v = true := by
  obtain ⟨w, hw, hsame⟩ := hr.value
  constructor
  · rintro ⟨p, v, ⟨hp, hown⟩ | hreported, htrue⟩
    · obtain ⟨x, hx, hvx⟩ := Value.atPath_congr (Value.same_refl _) hown hp
      obtain rfl := Except.ok.inj (hw.symm.trans hx)
      exact .inl (htest v _ (Value.same_trans hvx hsame) ▸ htrue)
    · exact .inr ⟨p, v, hreported, htrue⟩
  · rintro (htrue | ⟨p, v, hreported, htrue⟩)
    · exact ⟨r.path, w, .inl ⟨hw, Path.same_refl _⟩, (htest w _ hsame).trans htrue⟩
    · exact ⟨p, v, .inr hreported, htrue⟩

/-- The configured paths are those of the covered positions with known values. -/
theorem Present.exists_mem_configured_iff (hr : r.Present) (hes : r.Resolves es) :
    (∃ v, r.Covers es p v ∧ v.isKnown = true) ↔ ∃ q ∈ r.configured es, Path.same q p = true := by
  have hd := hr.config.invariant
  obtain ⟨w, hw, hsame⟩ := hr.value
  have hown : ∀ q, q ∈ (if r.configValue.isKnown then [r.path] else []) ↔
      q = r.path ∧ r.configValue.isKnown = true := by
    intro q
    split <;> simp_all
  simp only [configured_eq, List.mem_append, hown, List.mem_flatMap]
  constructor
  · rintro ⟨v, ⟨hp, hpath⟩ | ⟨e, he, h⟩, hknown⟩
    · obtain ⟨x, hx, hvx⟩ := Value.atPath_congr (Value.same_refl _) hpath hp
      obtain rfl := Except.ok.inj (hw.symm.trans hx)
      rw [Value.isKnown_eq_of_same (Value.same_trans hvx hsame)] at hknown
      exact ⟨r.path, .inl ⟨rfl, hknown⟩, Path.same_symm hpath⟩
    · obtain ⟨t, ht⟩ := hes e he
      obtain ⟨q, hq, hqp⟩ := exists_mem_counted hd ht h hknown
      exact ⟨q, .inr ⟨e, he, hq⟩, hqp⟩
  · rintro ⟨q, ⟨rfl, hknown⟩ | ⟨e, he, hq⟩, hqp⟩
    · obtain ⟨x, hx, hwx⟩ := Value.atPath_congr (Value.same_refl _) hqp hw
      rw [← Value.isKnown_eq_of_same hsame, Value.isKnown_eq_of_same hwx] at hknown
      exact ⟨x, .inl ⟨hx, Path.same_symm hqp⟩, hknown⟩
    · obtain ⟨t, ht⟩ := hes e he
      obtain ⟨v, hv, hknown⟩ := mem_counted hd ht hq
      obtain ⟨x, hx, hvx⟩ := hv.congr hqp
      exact ⟨x, .inr ⟨e, he, hx⟩, Value.isKnown_eq_of_same hvx ▸ hknown⟩

/-- For a node that is there and expressions that resolve, not exactly one of a group is set exactly
if the number of covered positions with known values is more than one, if it is zero and no covered
value is unknown, or if a position with a known value is reported twice. -/
theorem Present.exactlyOneOf_spec (hr : r.Present) (hes : r.Resolves es)
    (custom : CustomValidators) :
    ∃ n, Path.Count (fun p => ∃ v, r.Covers es p v ∧ v.isKnown = true) n ∧
      (((Validator.exactlyOneOf es).check custom r).hasError = true ↔
        1 < n ∨ n = 0 ∧ (¬∃ p v, r.Covers es p v ∧ v.isUnknown = true) ∨ r.CountsTwice es) := by
  have hd := hr.config.invariant
  obtain ⟨n, hn, hzero, hdiffer⟩ := Path.exists_count fun _ => hr.exists_mem_configured_iff hes
  have hundecided : r.undecided es = false ↔ ¬∃ p v, r.Covers es p v ∧ v.isUnknown = true := by
    rw [hr.exists_covers_iff fun _ _ => Value.isUnknown_eq_of_same, ← undecided_iff hd hes,
      Bool.not_eq_true]
  refine ⟨n, hn, ?_⟩
  rw [hasError_exactlyOneOf hes, hundecided, ← hzero, ← or_assoc]
  by_cases htwice : r.CountsTwice es
  · -- What is counted twice makes two paths by itself.
    rw [iff_true_right (.inr htwice)]
    have hpaths := mt (pairwise_configured_iff hd hes).1 (not_not_intro htwice)
    generalize r.configured es = paths at hpaths ⊢
    rcases paths with _ | ⟨p, _ | ⟨q, rest⟩⟩
    · exact absurd .nil hpaths
    · exact absurd (List.pairwise_singleton _ _) hpaths
    · exact .inl (Nat.succ_lt_succ (Nat.succ_pos _))
  · rw [or_iff_left htwice, hdiffer ((pairwise_configured_iff hd hes).2 htwice)]

theorem present_nameRequest : Server.nameRequest.Present :=
  ⟨Server.reachable_unnamed, _, rfl, Value.same_refl _⟩

/-- The name of a server or the label of its disk: the label is set and nothing else. -/
theorem Present.exactlyOneOf_spec_label :
    Server.nameRequest.Present ∧ Server.nameRequest.Resolves [Server.labels] ∧
      Path.Count (fun p => ∃ v, Server.nameRequest.Covers [Server.labels] p v ∧ v.isKnown = true)
        1 ∧ ¬Server.nameRequest.CountsTwice [Server.labels] := by
  have hes : Server.nameRequest.Resolves [Server.labels] :=
    List.forall_mem_singleton.2 ⟨.string, rfl⟩
  obtain ⟨n, hn, hverdict⟩ := present_nameRequest.exactlyOneOf_spec hes fun _ _ => []
  have hnone : ¬((Validator.exactlyOneOf [Server.labels]).check (fun _ _ => [])
      Server.nameRequest).hasError = true := by decide +kernel
  rw [hverdict, not_or, not_or] at hnone
  obtain ⟨hle, -, honce⟩ := hnone
  have hpos : n ≠ 0 := by
    rintro rfl
    obtain ⟨paths, hlength, -, hpaths⟩ := hn
    have hlabel : Server.nameRequest.Reports Server.labels Server.labelRequest.path
        (.string "a") := ⟨rfl, rfl, .inl rfl⟩
    obtain ⟨q, hq, -⟩ := (hpaths _).1 ⟨_, .inr ⟨_, List.mem_singleton_self _, hlabel⟩, rfl⟩
    rw [List.length_eq_zero_iff.1 hlength] at hq
    cases hq
  obtain rfl : n = 1 := by omega
  exact ⟨present_nameRequest, hes, hn, honce⟩

/-- The label of the one disk is found among the labels of all disks and by its own path. It is the
only position that is set, and yet an error says that there are more. -/
theorem counts_label_twice :
    Server.nameRequest.Present ∧ Server.nameRequest.Resolves Server.overlapping ∧
      Path.Count (fun p => ∃ v, Server.nameRequest.Covers Server.overlapping p v ∧
        v.isKnown = true) 1 ∧
      ((Validator.exactlyOneOf Server.overlapping).check (fun _ _ => [])
        Server.nameRequest).hasError = true := by
  have hes : Server.nameRequest.Resolves Server.overlapping :=
    List.forall_mem_cons.2 ⟨⟨.string, rfl⟩, List.forall_mem_singleton.2 ⟨.string, rfl⟩⟩
  have hconfigured : Server.nameRequest.configured Server.overlapping =
      [Server.labelRequest.path, Server.labelRequest.path] := rfl
  refine ⟨present_nameRequest, hes, ⟨[Server.labelRequest.path], rfl,
    List.pairwise_singleton _ _, fun p => ?_⟩, by decide +kernel⟩
  refine (present_nameRequest.exists_mem_configured_iff hes).trans ?_
  rw [hconfigured, List.exists_mem_cons_iff, List.exists_mem_cons_iff, or_self_left]

end ValidateRequest
end ResourceSchema
