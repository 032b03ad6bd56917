import ResourceSchema.Ty.Step
import ResourceSchema.Value.Error

/-!
# Reading and writing along paths

A read follows the steps of a path; a write rebuilds the nodes on the way. Where a read finds null,
unknown or no element, a write puts the data in: objects with all attributes null, empty
collections, a new last element of a list, a new map key, a new set element.
-/

namespace ResourceSchema.Value

/-- Children of a known value, each with the step to it. -/
def children : Value → List (PathStep × Value)
  | .list _ items => items.zipIdx.map fun (v, i) => (.index i, v)
  | .set _ items => items.map fun v => (.element v, v)
  | .map _ entries => entries.map fun (k, v) => (.key k, v)
  | .object fields => fields.map fun (n, v) => (.name n, v)
  | _ => []

/-- The element at an index; none at a negative one. -/
def itemAt? (items : List Value) (i : Int) : Option Value :=
  if i < 0 then none else items[i.toNat]?

/-- The child a step leads to. The step has to fit the type before the data is looked at. -/
def step (v : Value) (s : PathStep) : Except StepError Value := do
  let _ ← v.ty.step s
  let found ← match v, s with
    | .null _, s => .error (.nullValue s)
    | .unknown _, s => .error (.unknownValue s)
    | .object fields, .name name => .ok (fields.lookup name)
    | .list _ items, .index i => .ok (itemAt? items i)
    | .set _ items, .element w => .ok (items.find? fun v => v.same w)
    | .map _ entries, .key key => .ok (entries.lookup key)
    | v, s => .error (v.ty.stepMismatch s)
  match found with
  | some w => .ok w
  | none => .error (.elementNotFound s)

/-- The value a path leads to, or the error of its first step that fails. -/
def atPath (v : Value) : Path → Except StepError Value
  | [] => .ok v
  | s :: rest => do atPath (← v.step s) rest

/-- What a write finds where a value is null or unknown: no data at all in it. -/
def emptyOf? : Ty → Option Value
  | .list t => some (.list t [])
  | .set t => some (.set t [])
  | .map t => some (.map t [])
  | .object attributes => some (.object (nullFields attributes))
  | _ => none

/-- Puts the new form of an element into a set: at the place of the old one, or at the end, and not
at all when an equal element is there already. -/
def putElement (items : List Value) (position : Option Nat) (new : Value) : List Value :=
  let others := match position with
    | some p => items.eraseIdx p
    | none => items
  if others.any (fun v => v.same new) then others
  else others.insertIdx (position.getD others.length) new

/-- The value with `new` in the place a path leads to; `new` has the type of that place. -/
def setAt (v : Value) : Path → Value → Except SetError Value
  | [], new => if new.ty = v.ty then .ok new else .error (.typeMismatch v.ty new.ty)
  | s :: rest, new => do
    let childTy ← (v.ty.step s).mapError .step
    let parent ← match v with
      | .null t | .unknown t =>
        match emptyOf? t with
        | some parent => .ok parent
        | none => .error (.step (t.stepMismatch s))
      | v => .ok v
    match parent, s with
    | .object fields, .name name =>
      let child := (fields.lookup name).getD (.null childTy)
      return .object (Keyed.assign name (← child.setAt rest new) fields)
    | .list t items, .index i =>
      if i < 0 ∨ items.length < i then .error (.indexOutOfRange i items.length)
      else
        match items[i.toNat]? with
        | some child => return .list t (items.set i.toNat (← child.setAt rest new))
        | none => return .list t (items ++ [← (Value.null childTy).setAt rest new])
    | .map t entries, .key key =>
      let child := (entries.lookup key).getD (.null childTy)
      return .map t (Keyed.insert key (← child.setAt rest new) entries)
    | .set t items, .element w =>
      if w.ty ≠ childTy then .error (.typeMismatch childTy w.ty)
      else
        let position := items.findIdx? fun v => v.same w
        let child := (position.bind fun p => items[p]?).getD w
        return .set t (putElement items position (← child.setAt rest new))
    | parent, s => .error (.step (parent.ty.stepMismatch s))

mutual

/-- The nodes of a value in pre-order, each with its path below `path`. The children of a node are
visited when `descend` says so of it. -/
def walkFrom (descend : Path → Value → Bool) (path : Path) (v : Value) : List (Path × Value) :=
  (path, v) ::
    if descend path v then
      match v with
      | .list _ items => walkItems descend path (fun i _ => .index i) 0 items
      | .set _ items => walkItems descend path (fun _ w => .element w) 0 items
      | .map _ entries => walkEntries descend path .key entries
      | .object fields => walkEntries descend path .name fields
      | _ => []
    else []

def walkItems (descend : Path → Value → Bool) (path : Path) (toStep : Nat → Value → PathStep)
    (index : Nat) : List Value → List (Path × Value)
  | [] => []
  | v :: vs =>
    walkFrom descend (path ++ [toStep index v]) v ++ walkItems descend path toStep (index + 1) vs

def walkEntries (descend : Path → Value → Bool) (path : Path) (toStep : String → PathStep) :
    List (String × Value) → List (Path × Value)
  | [] => []
  | (name, v) :: rest =>
    walkFrom descend (path ++ [toStep name]) v ++ walkEntries descend path toStep rest

end

/-- The nodes of a value in pre-order with their paths; `descend` decides of each whether to go on
to its children. -/
def walk (descend : Path → Value → Bool) (v : Value) : List (Path × Value) :=
  walkFrom descend [] v

end ResourceSchema.Value
