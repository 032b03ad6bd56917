import ResourceSchema.Proofs.Data.Reads
import ResourceSchema.Proofs.Path.Pruning
import ResourceSchema.Proofs.Schema.Expr
import ResourceSchema.Proofs.Value.Position

/-!
# Paths that an expression finds in data

The search for the paths of an expression stops at what the expression accepts and at nulls and
unknowns, and turns back where no path below can fit. It misses none: what is above a path that
fits is passed through, and the paths found are of the type of the expression.
-/

namespace ResourceSchema

/-! ## The search -/

namespace Server

def diskTy : Ty := .object [("label", .string), ("size", .number)]

/-- A plan for a server with some disks. -/
def diskPlan (disks : List Value) : Data :=
  ⟨.plan, schema, .object [("disks", .list diskTy disks), ("name", .null .string),
    ("rules", .null (.set (rule "").ty))]⟩

def firstDisk : Value := .object [("label", .null .string), ("size", .unknown .number)]

def twoDisks : Data := diskPlan [firstDisk, .unknown diskTy]

/-- The sizes of all disks, relative to the root. -/
def sizes : PathExpr := ⟨[], [.exact (.name "disks"), .anyChild, .exact (.name "size")], true⟩

end Server

namespace Data

variable {d : Data} {e : PathExpr} {p p' : Path} {v w x : Value} {q q' : List Slot} {t : Ty}

/-- An expression finds a position if it accepts the path to it, or passes through it and there is
no data to follow. -/
def Finds (e : PathExpr) (p : Path) (v : Value) : Prop :=
  e.accepts p = true ∨ (v.isNull = true ∨ v.isUnknown = true) ∧ e.passesThrough p = true

theorem isHit_iff : isHit e p v = true ↔ Finds e p v := by
  rw [isHit, Finds, Bool.or_eq_true, Bool.and_eq_true, Bool.or_eq_true, and_comm]

theorem Finds.congr (hp : Path.same p p' = true) (hv : v.same w = true) (h : Finds e p v) :
    Finds e p' w := by
  obtain h | ⟨hdata, h⟩ := h
  · exact .inl (PathExpr.accepts_congr hp h)
  · rw [Value.isNull_eq_of_same hv, Value.isUnknown_eq_of_same hv] at hdata
    exact .inr ⟨hdata, PathExpr.passesThrough_congr hp h⟩

theorem Finds.passesThrough_above (hq : p' ≠ []) (h : Finds e (p ++ p') v) :
    e.passesThrough p = true :=
  PathExpr.passesThrough_of_append hq (h.imp_right And.right)

/-- What has a child is neither null nor unknown, so the expression does not stop there. -/
theorem not_finds_of_inSlot? {s : Slot} (hs : v.inSlot? s = some w)
    (h : e.passesThrough p = true) : ¬Finds e p v := by
  rintro (ha | ⟨hdata, _⟩)
  · exact PathExpr.not_accepts_of_passesThrough h ha
  · cases v <;> first | cases hs | simp [Value.isNull, Value.isUnknown] at hdata

theorem pathTo_above {above rest : List Slot} {s : Slot} (hx : v.atPlace? above = some w)
    (hs : w.inSlot? s = some x) :
    v.pathTo (above ++ s :: rest) = v.pathTo above ++ s.step x :: x.pathTo rest := by
  rw [Value.pathTo_append hx, Value.pathTo_cons hs]

/-- The search gets to each position that the expression finds. -/
theorem reaches_of_finds (hx : v.atPlace? q = some x) (h : Finds e (v.pathTo q) x) :
    Value.Reaches (fun p v => !isHit e p v && e.passesThrough p) [] v q := by
  rintro above s rest w rfl hw
  obtain ⟨w', c, hw', hc, _⟩ := Value.exists_above hx
  obtain rfl := Option.some.inj (hw.symm.trans hw')
  rw [pathTo_above hw hc] at h
  have hpasses := h.passesThrough_above (List.cons_ne_nil _ _)
  have hhit : isHit e (v.pathTo above) w = false :=
    Bool.eq_false_iff.2 fun hit => not_finds_of_inSlot? hc hpasses (isHit_iff.1 hit)
  simp only [List.nil_append, hhit, hpasses, Bool.not_false, Bool.and_self]

/-- The search lists the positions that the expression finds, each once and in pre-order. -/
theorem enumerates_search (hv : v.WellFormed) (e : PathExpr) :
    Enumerates v.storedOrder
      (fun q => ∃ x, v.atPlace? q = some x ∧ Finds e (v.pathTo q) x)
      (fun q found => v.atPlace? q = some found.2 ∧ found.1 = v.pathTo q)
      ((v.walk fun p v => !isHit e p v && e.passesThrough p).filter
        fun (p, v) => isHit e p v) := by
  have hwalk := Value.enumerates_walkFrom hv (fun p v => !isHit e p v && e.passesThrough p) []
  have hhit : ∀ (q : List Slot) (found : Path × Value),
      v.atPlace? q = some found.2 ∧ found.1 = [] ++ v.pathTo q →
        (isHit e found.1 found.2 = true ↔
          ∃ x, v.atPlace? q = some x ∧ Finds e (v.pathTo q) x) := by
    rintro q ⟨p, x⟩ ⟨hx, rfl⟩
    rw [isHit_iff]
    refine ⟨fun h => ⟨x, hx, h⟩, fun ⟨y, hy, h⟩ => ?_⟩
    obtain rfl := Option.some.inj (hx.symm.trans hy)
    exact h
  refine (hwalk.filter hhit).congr fun q => ⟨And.right, fun ⟨x, hx, h⟩ => ?_⟩
  exact ⟨⟨⟨x, hx⟩, reaches_of_finds hx h⟩, x, hx, h⟩

/-- What an expression finds at a path is at a place that it finds. -/
theorem Finds.exists_atPlace? (hp : v.atPath p = .ok x) (h : Finds e p x) : ∃ q,
    v.atPlace? q = some x ∧ Path.same (v.pathTo q) p = true ∧ Finds e (v.pathTo q) x := by
  obtain ⟨q, hq, hsame⟩ := Value.exists_atPlace? hp
  exact ⟨q, hq, hsame, h.congr (Path.same_symm hsame) (Value.same_refl x)⟩

/-- What an expression finds at a place is found at each path that is equal to that of the place,
up to the choice among equal set elements. -/
theorem Finds.exists_atPath (hx : v.atPlace? q = some x) (hp : Path.same (v.pathTo q) p = true)
    (h : Finds e (v.pathTo q) x) : ∃ y, v.atPath p = .ok y ∧ y.same x = true ∧ Finds e p y := by
  obtain ⟨y, hy, hyx⟩ := Value.atPath_pathTo hx
  obtain ⟨z, hz, hyz⟩ := Value.atPath_congr (Value.same_refl v) hp hy
  have hxz := Value.same_trans (Value.same_symm hyx) hyz
  exact ⟨z, hz, Value.same_symm hxz, h.congr hp hxz⟩

theorem Invariant.nodeAt_pathTo (hd : d.Invariant) (hx : d.raw.atPlace? q = some x) :
    ∃ node, d.schema.nodeAt (d.raw.pathTo q) = .ok node ∧ node.ty = x.ty := by
  obtain ⟨y, hy, hyx⟩ := Value.atPath_pathTo hx
  obtain ⟨hty, _⟩ := Value.atPath_spec hd.raw hy
  obtain ⟨node, hnode, hnodety⟩ := Except.bind_eq_ok.1 (hd.typeAt.2 hty)
  exact ⟨node, hnode, (Except.ok.inj hnodety).trans (Value.ty_eq_of_same hyx)⟩

/-- No position that an expression finds is below another. -/
theorem not_isAncestorOf (hx : v.atPlace? q = some x) (hfinds : Finds e (v.pathTo q) x)
    (hw : v.atPlace? q' = some w) (hfinds' : Finds e (v.pathTo q') w) :
    (v.pathTo q).isAncestorOf (v.pathTo q') = false := by
  rw [Bool.eq_false_iff]
  intro h
  obtain ⟨above, s, rest, hpath, hsame⟩ := Path.isAncestorOf_iff.1 h
  rw [hpath] at hfinds'
  have hpasses := hfinds'.passesThrough_above (List.cons_ne_nil s rest)
  obtain ⟨y, hy, hyx⟩ := Value.atPath_pathTo hx
  obtain ⟨z, hz, hyz⟩ := Value.atPath_congr (Value.same_refl v) hsame hy
  have hxz := Value.same_trans (Value.same_symm hyx) hyz
  -- The other place is below what is at `above`, so that there is data to follow.
  obtain ⟨_, hbelow, _⟩ := Value.atPath_pathTo hw
  rw [hpath, Value.atPath_append] at hbelow
  obtain ⟨z', hz', hbelow⟩ := Except.bind_eq_ok.1 hbelow
  obtain rfl := Except.ok.inj (hz.symm.trans hz')
  obtain ⟨c, hc, _⟩ := Except.bind_eq_ok.1 hbelow
  obtain ⟨slot, hslot, _⟩ := Value.exists_inSlot?_of_step hc
  exact not_finds_of_inSlot? hslot hpasses (hfinds.congr hsame hxz)

theorem typeAtExpr_atRoot (schema : Schema) (e : PathExpr) :
    schema.typeAtExpr e.atRoot = schema.typeAtExpr e := by
  have h : ∀ f : PathExpr,
      schema.typeAtExpr f = Schema.typeAtSteps [] (.root schema) f.atRoot.allSteps := fun _ => rfl
  rw [h, h, PathExpr.atRoot_atRoot]

theorem finds_atRoot : Finds e.atRoot p v ↔ Finds e p v := by
  rw [Finds, Finds, PathExpr.accepts, PathExpr.accepts, PathExpr.passesThrough,
    PathExpr.passesThrough, PathExpr.resolve_atRoot, PathExpr.allSteps_atRoot]

theorem pathMatches_of_typeAtExpr (h : d.schema.typeAtExpr e = .ok t) : d.pathMatches e =
    .ok (((d.raw.walk fun p v => !isHit e.atRoot p v && e.atRoot.passesThrough p).filter
      fun (p, v) => isHit e.atRoot p v).map (·.1)) := by
  refine Except.bind_eq_ok.2 ⟨t, Except.mapError_eq_ok.2 ?_, rfl⟩
  exact (typeAtExpr_atRoot d.schema e).trans h

/-- A path that is accepted leads to the type that the expression leads to. -/
theorem ty_of_accepts {node : SchemaNode} (h : d.schema.typeAtExpr e = .ok t)
    (hnode : d.schema.nodeAt p = .ok node) (hp : e.atRoot.accepts p = true) : node.ty = t := by
  rw [PathExpr.accepts_iff_fits, PathExpr.resolve_atRoot] at hp
  exact Except.ok.inj ((SchemaNode.typeAtSteps_of_fits hp hnode).symm.trans h)

/-- The search for the paths of an expression that resolves gives the paths to the positions that
the expression, brought to the root, finds. They come in pre-order, one for each stored position,
and are those of all paths that lead to data and that the expression finds. No one is part of
another, and each resolves, to the type of the expression where the expression accepts it. -/
theorem Reachable.pathMatches_spec (h : d.Reachable) (he : d.schema.typeAtExpr e = .ok t) :
    ∃ places : List (List Slot),
      d.pathMatches e = .ok (places.map d.raw.pathTo) ∧
      places.Pairwise (Precedes d.raw.storedOrder) ∧ places.Nodup ∧
      (∀ q, q ∈ places ↔
        ∃ v, d.raw.atPlace? q = some v ∧ Finds e.atRoot (d.raw.pathTo q) v) ∧
      (∀ p v, d.raw.atPath p = .ok v →
        (Finds e.atRoot p v ↔ ∃ q ∈ places, Path.same (d.raw.pathTo q) p = true)) ∧
      ∀ q ∈ places,
        (∃ v, d.raw.atPath (d.raw.pathTo q) = .ok v ∧ Finds e.atRoot (d.raw.pathTo q) v) ∧
        (∃ u, d.schema.typeAt (d.raw.pathTo q) = .ok u ∧
          (e.atRoot.accepts (d.raw.pathTo q) = true → u = t)) ∧
        ∀ q' ∈ places, (d.raw.pathTo q).isAncestorOf (d.raw.pathTo q') = false := by
  have hd := h.invariant
  obtain ⟨places, hordered, hplaces, hfound⟩ := enumerates_search hd.raw e.atRoot
  have hpaths : List.Forall₂ (fun (f : Path × Value) q => f.1 = d.raw.pathTo q) _ places :=
    hfound.flip.imp fun _ _ h => h.2
  rw [← List.forall₂_map_right_iff, ← List.forall₂_map_left_iff, List.forall₂_eq_eq_eq] at hpaths
  refine ⟨places, ?_, hordered, ?_, hplaces, fun p v hp => ⟨fun h => ?_, ?_⟩, fun q hq => ?_⟩
  · rw [pathMatches_of_typeAtExpr he, hpaths]
  · exact hordered.imp (Precedes.ne fun _ _ _ => Value.storedOrder_ne hd.raw)
  · obtain ⟨q, hq, hsame, hfinds⟩ := h.exists_atPlace? hp
    exact ⟨q, (hplaces q).2 ⟨v, hq, hfinds⟩, hsame⟩
  · rintro ⟨q, hq, hsame⟩
    obtain ⟨x, hx, hfinds⟩ := (hplaces q).1 hq
    obtain ⟨y, hy, _, hfinds'⟩ := hfinds.exists_atPath hx hsame
    obtain rfl := Except.ok.inj (hp.symm.trans hy)
    exact hfinds'
  · obtain ⟨x, hx, hfinds⟩ := (hplaces q).1 hq
    obtain ⟨y, hy, _, hfinds'⟩ := hfinds.exists_atPath hx (Path.same_refl _)
    obtain ⟨node, hnode, _⟩ := hd.nodeAt_pathTo hx
    refine ⟨⟨y, hy, hfinds'⟩, ⟨node.ty, ?_, ?_⟩, ?_⟩
    · exact Except.bind_eq_ok.2 ⟨node, hnode, rfl⟩
    · exact ty_of_accepts he hnode
    · intro q' hq'
      obtain ⟨w, hw, hfinds'⟩ := (hplaces q').1 hq'
      exact not_isAncestorOf hx hfinds hw hfinds'

theorem reachable_twoDisks : Server.twoDisks.Reachable := by
  have hpath : ∀ p : Path, (∀ s ∈ p, s.kind ≠ .element) → p.WellFormed := by
    intro p hp s hs
    cases s <;> first | trivial | exact absurd rfl (hp _ hs)
  have hfirst : (absent .plan Server.schema).set
      [.name "disks", .index 0, .name "size"] (.unknown .number) =
        .ok (Server.diskPlan [Server.firstDisk]) := rfl
  have hsecond : (Server.diskPlan [Server.firstDisk]).set
      [.name "disks", .index 1] (.unknown Server.diskTy) = .ok Server.twoDisks := rfl
  have hd := Reachable.set (.absent .plan Server.schema_built) (hpath _ (by simp [PathStep.kind]))
    (w := .unknown .number) trivial hfirst
  exact hd.set (hpath _ (by simp [PathStep.kind])) (w := .unknown Server.diskTy)
    Server.wellFormed_disksTy hsecond

/-- Sizes of disks are found where a disk is known, and the disk where it is not. -/
theorem Reachable.pathMatches_spec_disk_sizes :
    Server.twoDisks.Reachable ∧ Server.schema.typeAtExpr Server.sizes = .ok .number ∧
      ∃ places : List (List Slot), Server.twoDisks.pathMatches Server.sizes =
          .ok (places.map Server.twoDisks.raw.pathTo) ∧
        [.field "disks", .item 0, .field "size"] ∈ places ∧
        [.field "disks", .item 1] ∈ places ∧ [.field "disks"] ∉ places := by
  obtain ⟨places, hp, _, _, hplaces, _⟩ :=
    reachable_twoDisks.pathMatches_spec (e := Server.sizes) rfl
  refine ⟨reachable_twoDisks, rfl, places, hp, (hplaces _).2 ⟨.unknown .number, rfl, .inl rfl⟩,
    (hplaces _).2 ⟨.unknown Server.diskTy, rfl, .inr ⟨.inr rfl, rfl⟩⟩, fun hq => ?_⟩
  obtain ⟨v, hv, hfinds⟩ := (hplaces _).1 hq
  cases hv
  obtain h | ⟨h | h, _⟩ := hfinds <;> cases h

end Data
end ResourceSchema
