import ResourceSchema.Proofs.Data.Matches
import ResourceSchema.Proofs.Validation.Basic

/-!
# Combinations of attributes

Some validators relate a node to the positions that expressions report: those that the expressions
find in the data, the node's own apart. When the expressions resolve and the node is there, the
reads of the positions succeed, so that a validator finds an error exactly if the values of the node
and of the reported positions go together as it says (`Present.combinations_spec`).
-/

namespace ResourceSchema

namespace Diagnostics

theorem hasError_map {α : Type} {f : α → Diagnostic} (hf : ∀ x, (f x).isError = true)
    (xs : List α) : hasError (xs.map f) = true ↔ ∃ x, x ∈ xs := by
  cases xs with
  | nil => simp [hasError]
  | cons x xs => simp [hasError, hf]

end Diagnostics

theorem Value.isKnown_eq_of_same {v w : Value} (h : v.same w = true) : v.isKnown = w.isKnown := by
  rw [isKnown, isKnown, isNull_eq_of_same h, isUnknown_eq_of_same h]

/-- A value that is neither known nor unknown is null. -/
theorem Value.isNull_iff {v : Value} :
    v.isNull = true ↔ v.isKnown = false ∧ v.isUnknown = false := by
  cases v <;> simp [isNull, isKnown, isUnknown]

namespace Server

/-- A server without a name, and with a disk without a size. -/
def unnamed : Data :=
  ⟨.config, schema, .object [
    ("disks", .list diskTy [.object [("label", .string "a"), ("size", .null .number)]]),
    ("name", .null .string), ("rules", .null (.set (rule "").ty))]⟩

theorem reachable_unnamed : unnamed.Reachable :=
  .ofJson schema_built (j := .object [("disks", .array [.object [("label", .string "a")]])])
    (show Data.ofJson .config schema _ = .ok unnamed from rfl)

def labelRequest : ValidateRequest :=
  ⟨[.name "disks", .index 0, .name "label"], .string "a", unnamed⟩

/-- The size beside a label. -/
def sizeBeside : PathExpr := ⟨[], [.parent, .exact (.name "size")], true⟩

end Server

namespace ValidateRequest

variable {r : ValidateRequest} {es : List PathExpr} {e : PathExpr} {p p' : Path} {v w : Value}
  {t : Ty}

/-- The request is about a node of a configuration that a program can come to have. -/
structure Present (r : ValidateRequest) : Prop where
  config : r.config.Reachable
  value : ∃ w, r.config.raw.atPath r.path = .ok w ∧ w.same r.configValue = true

/-- All expressions resolve, relative to the node. -/
def Resolves (r : ValidateRequest) (es : List PathExpr) : Prop :=
  ∀ e ∈ es, ∃ t, r.config.schema.typeAtExpr (e.merge r.path) = .ok t

/-- An expression reports a position that it finds, with the value there, unless it is the node's
own. -/
structure Reports (r : ValidateRequest) (e : PathExpr) (p : Path) (v : Value) : Prop where
  value : r.config.raw.atPath p = .ok v
  other : Path.same p r.path = false
  finds : Data.Finds (e.merge r.path) p v

/-- Some of the expressions reports the position. -/
def Reported (r : ValidateRequest) (es : List PathExpr) (p : Path) (v : Value) : Prop :=
  ∃ e ∈ es, r.Reports e p v

theorem Reports.congr (h : r.Reports e p v) (hp : Path.same p p' = true) :
    ∃ w, r.Reports e p' w ∧ v.same w = true := by
  obtain ⟨w, hw, hvw⟩ := Value.atPath_congr (Value.same_refl _) hp h.value
  refine ⟨w, ⟨hw, ?_, h.finds.congr hp hvw⟩, hvw⟩
  rw [Bool.eq_false_iff]
  intro hown
  exact Bool.eq_false_iff.1 h.other (Path.same_trans hp hown)

theorem Reports.same_value {e' : PathExpr} (h : r.Reports e p v) (h' : r.Reports e' p' w)
    (hp : Path.same p p' = true) : v.same w = true := by
  obtain ⟨x, hx, hvx⟩ := h.congr hp
  obtain rfl := Except.ok.inj (hx.value.symm.trans h'.value)
  exact hvx

/-! ## The matched paths and the values there -/

theorem expressionErrors_eq_nil (hes : r.Resolves es) : r.expressionErrors es = [] := by
  rw [expressionErrors, List.filterMap_eq_nil_iff]
  intro e he
  obtain ⟨t, ht⟩ := hes e he
  rw [Data.pathMatches_of_typeAtExpr ht]

theorem matched_eq_flatMap (r : ValidateRequest) (es : List PathExpr) :
    r.matched es = es.flatMap fun e => r.matched [e] := by
  simp only [matched, matchedPaths, List.flatMap_cons, List.flatMap_nil, List.append_nil,
    List.filterMap_flatMap]

/-- What the search for an expression finds at a place is reported, unless it is the node's own,
and read. -/
theorem exists_reports {q : List Slot} (hd : r.config.Invariant)
    (hx : r.config.raw.atPlace? q = some v)
    (hfinds : Data.Finds (e.merge r.path).atRoot (r.config.raw.pathTo q) v)
    (hother : Path.same (r.config.raw.pathTo q) r.path = false) :
    ∃ w, r.Reports e (r.config.raw.pathTo q) w ∧ r.config.get (r.config.raw.pathTo q) = .ok w := by
  obtain ⟨w, hw, -, hfinds'⟩ := hfinds.exists_atPath hx (Path.same_refl _)
  obtain ⟨node, hnode, -⟩ := hd.nodeAt_pathTo hx
  refine ⟨w, ⟨hw, hother, Data.finds_atRoot.1 hfinds'⟩, ?_⟩
  exact Data.get_of_atPath (Except.bind_eq_ok.2 ⟨node, hnode, rfl⟩) hw

/-- What is matched for one expression is what it reports, once for each stored position. -/
theorem enumerates_matched (hd : r.config.Invariant)
    (ht : r.config.schema.typeAtExpr (e.merge r.path) = .ok t) :
    Enumerates r.config.raw.storedOrder
      (fun q => ∃ x, r.config.raw.atPlace? q = some x ∧
        ∃ v, r.Reports e (r.config.raw.pathTo q) v)
      (fun q n => n.1 = r.config.raw.pathTo q ∧ r.Reports e n.1 n.2) (r.matched [e]) := by
  have hsearch := Data.enumerates_search hd.raw (e.merge r.path).atRoot
  have hother : ∀ (q : List Slot) (n : Path × Value),
      r.config.raw.atPlace? q = some n.2 ∧ n.1 = r.config.raw.pathTo q →
        ((!n.1.same r.path) = true ↔ Path.same (r.config.raw.pathTo q) r.path = false) := by
    rintro q n ⟨-, hn⟩
    rw [hn, Bool.not_eq_true']
  rw [matched, matchedPaths, List.flatMap_singleton, Data.pathMatches_of_typeAtExpr ht]
  simp only [List.filter_map, List.filterMap_map]
  refine ((hsearch.filter hother).filterMap ?_).congr fun q => ⟨?_, ?_⟩
  · rintro q ⟨p, -⟩ ⟨⟨x, hx, hfinds⟩, hown⟩ ⟨-, rfl⟩
    obtain ⟨w, hw, hget⟩ := exists_reports hd hx hfinds hown
    refine ⟨(r.config.raw.pathTo q, w), ?_, rfl, hw⟩
    rw [Function.comp_apply, hget]
    rfl
  · rintro ⟨⟨x, hx, hfinds⟩, hown⟩
    obtain ⟨w, hw, -⟩ := exists_reports hd hx hfinds hown
    exact ⟨x, hx, w, hw⟩
  · rintro ⟨x, hx, w, hw⟩
    obtain ⟨y, hy, hyx⟩ := Value.atPath_pathTo hx
    obtain rfl := Except.ok.inj (hw.value.symm.trans hy)
    have hfinds := hw.finds.congr (Path.same_refl _) hyx
    exact ⟨⟨x, hx, Data.finds_atRoot.2 hfinds⟩, hw.other⟩

theorem reported_of_mem_matched (hd : r.config.Invariant) (hes : r.Resolves es)
    {n : Path × Value} (h : n ∈ r.matched es) : r.Reported es n.1 n.2 := by
  rw [matched_eq_flatMap] at h
  obtain ⟨e, he, hn⟩ := List.mem_flatMap.1 h
  obtain ⟨t, ht⟩ := hes e he
  obtain ⟨places, -, -, hat⟩ := enumerates_matched hd ht
  obtain ⟨q, -, -, hreports⟩ := Value.forall₂_exists_left hat hn
  exact ⟨e, he, hreports⟩

theorem exists_mem_matched (hd : r.config.Invariant)
    (ht : r.config.schema.typeAtExpr (e.merge r.path) = .ok t) (h : r.Reports e p v) :
    ∃ n ∈ r.matched [e], Path.same n.1 p = true ∧ v.same n.2 = true := by
  obtain ⟨places, -, hplaces, hat⟩ := enumerates_matched hd ht
  obtain ⟨q, hq, hsame⟩ := Value.exists_atPlace? h.value
  obtain ⟨w, hw, -⟩ := h.congr (Path.same_symm hsame)
  have hmem := (hplaces q).2 ⟨v, hq, w, hw⟩
  obtain ⟨n, hn, hpath, hreports⟩ := Value.forall₂_exists_right hat hmem
  rw [← hpath] at hsame
  exact ⟨n, hn, hsame, h.same_value hreports (Path.same_symm hsame)⟩

/-- Matched values pass a test exactly if reported ones do. -/
theorem exists_matched_iff (hd : r.config.Invariant) (hes : r.Resolves es) {test : Value → Bool}
    (htest : ∀ v w, v.same w = true → test v = test w) :
    (∃ n ∈ r.matched es, test n.2 = true) ↔ ∃ p v, r.Reported es p v ∧ test v = true := by
  constructor
  · rintro ⟨n, hn, htrue⟩
    exact ⟨n.1, n.2, reported_of_mem_matched hd hes hn, htrue⟩
  · rintro ⟨p, v, ⟨e, he, h⟩, htrue⟩
    obtain ⟨t, ht⟩ := hes e he
    obtain ⟨n, hn, -, hvn⟩ := exists_mem_matched hd ht h
    rw [htest v n.2 hvn] at htrue
    rw [matched_eq_flatMap]
    exact ⟨n, List.mem_flatMap.2 ⟨e, he, hn⟩, htrue⟩

/-! ## Verdicts -/

variable {custom : CustomValidators}

/-- A validator that finds an error at each matched value of a kind finds one if such a value is
reported. -/
theorem hasError_matched (hd : r.config.Invariant) (hes : r.Resolves es) {test : Value → Bool}
    {finding : Path × Value → Diagnostic} (htest : ∀ v w, v.same w = true → test v = test w)
    (hfinding : ∀ n, (finding n).isError = true) :
    Diagnostics.hasError (r.expressionErrors es ++
        ((r.matched es).filter fun (_, v) => test v).map finding) = true ↔
      ∃ p v, r.Reported es p v ∧ test v = true := by
  rw [expressionErrors_eq_nil hes, List.nil_append, Diagnostics.hasError_map hfinding,
    ← exists_matched_iff hd hes htest]
  simp only [List.mem_filter]

theorem configured_eq_nil_iff (hd : r.config.Invariant) (hes : r.Resolves es) :
    r.configured es = [] ↔
      r.configValue.isKnown = false ∧ ¬∃ p v, r.Reported es p v ∧ v.isKnown = true := by
  rw [← exists_matched_iff hd hes fun _ _ => Value.isKnown_eq_of_same, configured, group,
    List.map_eq_nil_iff, List.filter_eq_nil_iff, List.forall_mem_cons]
  simp

theorem undecided_iff (hd : r.config.Invariant) (hes : r.Resolves es) :
    r.undecided es = true ↔
      r.configValue.isUnknown = true ∨ ∃ p v, r.Reported es p v ∧ v.isUnknown = true := by
  rw [← exists_matched_iff hd hes fun _ _ => Value.isUnknown_eq_of_same, undecided, group,
    List.any_cons, Bool.or_eq_true, List.any_eq_true]

/-- What is found where nothing of a group is set and nothing may be. -/
theorem hasError_unset {finding : Diagnostic} (hfinding : finding.isError = true) :
    (diagnoseIf ((r.configured es).isEmpty && !r.undecided es) finding).hasError = true ↔
      r.configured es = [] ∧ r.undecided es = false := by
  rw [hasError_diagnoseIf, hfinding, Bool.and_true, Bool.and_eq_true, List.isEmpty_iff,
    Bool.not_eq_true']

theorem hasError_atLeastOneOf (hes : r.Resolves es) :
    ((Validator.atLeastOneOf es).check custom r).hasError = true ↔
      r.configured es = [] ∧ r.undecided es = false := by
  rw [Validator.check, expressionErrors_eq_nil hes, List.nil_append]
  exact hasError_unset rfl

/-- For a node that is there and expressions that resolve: a node conflicts with others exactly if
it and some reported value are known, it misses others exactly if it is not null and some reported
value is, and all of a group are missing exactly if the node is null and no reported value is known
or unknown. -/
theorem Present.combinations_spec (hr : r.Present) (hes : r.Resolves es)
    (custom : CustomValidators) :
    (((Validator.conflictsWith es).check custom r).hasError = true ↔
      r.configValue.isKnown = true ∧ ∃ p v, r.Reported es p v ∧ v.isKnown = true) ∧
    (((Validator.alsoRequires es).check custom r).hasError = true ↔
      r.configValue.isNull = false ∧ ∃ p v, r.Reported es p v ∧ v.isNull = true) ∧
    (((Validator.atLeastOneOf es).check custom r).hasError = true ↔
      r.configValue.isNull = true ∧
        ¬∃ p v, r.Reported es p v ∧ (v.isKnown = true ∨ v.isUnknown = true)) := by
  have hd := hr.config.invariant
  refine ⟨?_, ?_, ?_⟩
  · rw [Validator.check]
    by_cases hknown : r.configValue.isKnown = true
    · rw [if_neg (by rw [hknown]; exact Bool.false_ne_true), and_iff_right hknown]
      exact hasError_matched hd hes (fun _ _ => Value.isKnown_eq_of_same) fun _ => rfl
    · rw [if_pos (by simpa using hknown)]
      exact iff_of_false Bool.false_ne_true fun h => hknown h.1
  · rw [Validator.check]
    by_cases hnull : r.configValue.isNull = true
    · rw [if_pos hnull, hnull]
      exact iff_of_false Bool.false_ne_true fun h => Bool.false_ne_true h.1.symm
    · rw [if_neg hnull, and_iff_right (Bool.eq_false_iff.2 hnull)]
      exact hasError_matched hd hes (fun _ _ => Value.isNull_eq_of_same) fun _ => rfl
  · rw [hasError_atLeastOneOf hes, configured_eq_nil_iff hd hes, ← Bool.not_eq_true (undecided _ _),
      undecided_iff hd hes, Value.isNull_iff]
    simp only [and_or_left, exists_or, not_or, Bool.not_eq_true]
    exact and_and_and_comm

/-- A disk has a label and no size, so that a label which requires the size beside it misses it. -/
theorem Present.combinations_spec_label :
    Server.labelRequest.Present ∧ Server.labelRequest.Resolves [Server.sizeBeside] ∧
      ∃ p v, Server.labelRequest.Reported [Server.sizeBeside] p v ∧ v.isNull = true := by
  have hr : Server.labelRequest.Present := ⟨Server.reachable_unnamed, _, rfl, Value.same_refl _⟩
  have hes : Server.labelRequest.Resolves [Server.sizeBeside] :=
    List.forall_mem_singleton.2 ⟨.number, rfl⟩
  obtain ⟨-, hrequires, -⟩ := hr.combinations_spec hes fun _ _ => []
  exact ⟨hr, hes, (hrequires.1 (by decide +kernel)).2⟩

end ValidateRequest
end ResourceSchema
