import Mathlib.Data.List.Forall2
import Mathlib.Data.List.Nodup
import ResourceSchema.Keyed

/-!
# Looking up in keyed lists

What each operation on keyed lists does to `List.lookup`, to the keys and to the entries. Sorting
keeps every lookup of a list with distinct keys (`lookup_sorted`); assigning to a key that is there
keeps the keys (`keys_assign`).
-/

namespace ResourceSchema.Keyed

variable {α β : Type} {entries : List (String × α)} {key name : String} {value found : α}

/-- Keys in the order of the entries. -/
def keys (entries : List (String × α)) : List String := entries.map Prod.fst

@[simp] theorem keys_nil : keys ([] : List (String × α)) = [] := rfl

@[simp] theorem keys_cons (e : String × α) (rest : List (String × α)) :
    keys (e :: rest) = e.1 :: keys rest := rfl

@[simp] theorem keys_append (a b : List (String × α)) : keys (a ++ b) = keys a ++ keys b :=
  List.map_append

@[simp] theorem keys_map (f : α → β) (entries : List (String × α)) :
    keys (entries.map fun e => (e.1, f e.2)) = keys entries := by
  rw [keys, List.map_map]
  rfl

theorem mem_keys_of_mem {e : String × α} (h : e ∈ entries) : e.1 ∈ keys entries :=
  List.mem_map_of_mem h

/-! ## Lookups and membership -/

theorem mem_of_lookup (h : entries.lookup key = some value) : (key, value) ∈ entries := by
  obtain ⟨before, after, rfl, _⟩ := List.lookup_eq_some_iff.1 h
  exact List.mem_append_right _ List.mem_cons_self

theorem lookup_eq_none : entries.lookup key = none ↔ key ∉ keys entries := by
  rw [List.lookup_eq_none_iff]
  constructor
  · intro h hk
    obtain ⟨e, he, rfl⟩ := List.mem_map.1 hk
    simpa using h e he
  · intro h e he
    simpa using fun heq : key = e.1 => h (heq ▸ mem_keys_of_mem he)

theorem exists_lookup (h : key ∈ keys entries) : ∃ value, entries.lookup key = some value := by
  cases hl : entries.lookup key with
  | none => exact absurd h (lookup_eq_none.1 hl)
  | some value => exact ⟨value, rfl⟩

theorem lookup_of_mem (hd : (keys entries).Nodup) (h : (key, value) ∈ entries) :
    entries.lookup key = some value := by
  induction entries with
  | nil => cases h
  | cons e rest ih =>
    obtain ⟨k, v⟩ := e
    obtain ⟨hk, hrest⟩ := List.nodup_cons.1 hd
    rcases List.mem_cons.1 h with heq | h
    · cases heq
      exact List.lookup_cons_self
    · have hmem : key ∈ keys rest := mem_keys_of_mem h
      have hne : key ≠ k := fun heq => hk (heq ▸ hmem)
      rw [List.lookup_cons, beq_eq_false_iff_ne.2 hne]
      exact ih hrest h

theorem lookup_mapWithKey (f : String → α → β) (entries : List (String × α)) (key : String) :
    (entries.map fun e => (e.1, f e.1 e.2)).lookup key = (entries.lookup key).map (f key) := by
  induction entries with
  | nil => rfl
  | cons e rest ih =>
    obtain ⟨k, v⟩ := e
    rw [List.map_cons, List.lookup_cons, List.lookup_cons, ih]
    cases h : key == k with
    | false => rfl
    | true => rw [beq_iff_eq.1 h]; rfl

@[simp] theorem lookup_map (f : α → β) (entries : List (String × α)) (key : String) :
    (entries.map fun e => (e.1, f e.2)).lookup key = (entries.lookup key).map f :=
  lookup_mapWithKey (fun _ => f) entries key

/-- Entries with the same keys in the same order match if those of one key do. -/
theorem forall₂_of_keys {R : α → β → Prop} {others : List (String × β)}
    (hk : keys entries = keys others)
    (h : ∀ key x y, (key, x) ∈ entries → (key, y) ∈ others → R x y) :
    List.Forall₂ (fun a b => a.1 = b.1 ∧ R a.2 b.2) entries others := by
  induction entries generalizing others with
  | nil =>
    rw [List.map_eq_nil_iff.1 hk.symm]
    exact .nil
  | cons e rest ih =>
    obtain ⟨k, x⟩ := e
    rcases others with _ | ⟨⟨k', y⟩, others⟩
    · cases hk
    · obtain ⟨hkey, hrest⟩ := List.cons.inj hk
      obtain rfl : k = k' := hkey
      refine .cons ⟨rfl, h k x y List.mem_cons_self List.mem_cons_self⟩ (ih hrest ?_)
      exact fun key x y hx hy => h key x y (List.mem_cons_of_mem _ hx) (List.mem_cons_of_mem _ hy)

/-- Entries match when their keys are the same and the values at the same places match. -/
theorem forall₂_iff_values {R : α → β → Prop} {others : List (String × β)} :
    List.Forall₂ (fun a b => a.1 = b.1 ∧ R a.2 b.2) entries others ↔
      keys entries = keys others ∧
        List.Forall₂ R (entries.map Prod.snd) (others.map Prod.snd) := by
  induction entries generalizing others with
  | nil => cases others <;> simp [keys]
  | cons e rest ih =>
    rcases others with _ | ⟨e', others⟩
    · simp [keys]
    · rw [List.forall₂_cons, ih, keys_cons, keys_cons, List.map_cons, List.map_cons,
        List.forall₂_cons, List.cons.injEq, and_and_and_comm]

/-! ## Sorted entries -/

theorem Increasing.nodup (h : Increasing entries) : (keys entries).Nodup := by
  refine List.pairwise_map.2 (h.imp fun {a b} hlt heq => ?_)
  rw [heq] at hlt
  exact String.lt_irrefl _ hlt

theorem key_cases (key k : String) : key < k ∨ key = k ∨ k < key := by
  by_cases hlt : key < k
  · exact .inl hlt
  · by_cases hgt : k < key
    · exact .inr (.inr hgt)
    · exact .inr (.inl (String.le_antisymm (String.not_lt.1 hgt) (String.not_lt.1 hlt)))

section Head

variable {k : String} {v : α} {rest : List (String × α)}

theorem insert_cons_of_lt (h : key < k) :
    insert key value ((k, v) :: rest) = (key, value) :: (k, v) :: rest := by
  rw [insert, if_pos h]

@[simp] theorem insert_cons_self : insert key value ((key, v) :: rest) = (key, value) :: rest := by
  rw [insert, if_neg (String.lt_irrefl key), if_pos rfl]

theorem insert_cons_of_gt (h : k < key) :
    insert key value ((k, v) :: rest) = (k, v) :: insert key value rest := by
  have hne : key ≠ k := fun heq => String.lt_irrefl k (heq ▸ h)
  rw [insert, if_neg (String.lt_asymm h), if_neg hne]

end Head

@[simp] theorem lookup_insert_self (key : String) (value : α) (entries : List (String × α)) :
    (insert key value entries).lookup key = some value := by
  induction entries with
  | nil => exact List.lookup_cons_self
  | cons e rest ih =>
    obtain ⟨k, v⟩ := e
    unfold insert
    split
    · exact List.lookup_cons_self
    · split
      · exact List.lookup_cons_self
      · next hne =>
        rw [List.lookup_cons, beq_eq_false_iff_ne.2 hne]
        exact ih

theorem lookup_insert_of_ne (hne : name ≠ key) (value : α) (entries : List (String × α)) :
    (insert key value entries).lookup name = entries.lookup name := by
  have hf : (name == key) = false := beq_eq_false_iff_ne.2 hne
  induction entries with
  | nil => simp [insert, List.lookup_cons, hf]
  | cons e rest ih =>
    obtain ⟨k, v⟩ := e
    unfold insert
    split
    · simp [List.lookup_cons, hf]
    · split
      · next heq => subst heq; simp [List.lookup_cons, hf]
      · simp [List.lookup_cons, ih]

theorem mem_sorted {e : String × α} (h : e ∈ sorted entries) : e ∈ entries := by
  suffices hs : ∀ acc : List (String × α),
      e ∈ entries.foldl (fun acc x => insert x.1 x.2 acc) acc → e ∈ entries ∨ e ∈ acc from
    (hs [] h).resolve_right List.not_mem_nil
  clear h
  induction entries with
  | nil => exact fun acc h => .inr h
  | cons x rest ih =>
    intro acc h
    rcases ih _ h with h | h
    · exact .inl (List.mem_cons_of_mem _ h)
    · rcases mem_insert h with rfl | h
      · exact .inl List.mem_cons_self
      · exact .inr h

/-- Of several entries with one key the last one is found. -/
theorem lookup_sorted_eq_reverse (entries : List (String × α)) (key : String) :
    (sorted entries).lookup key = entries.reverse.lookup key := by
  suffices hs : ∀ acc : List (String × α),
      (entries.foldl (fun acc x => insert x.1 x.2 acc) acc).lookup key =
        (entries.reverse.lookup key).or (acc.lookup key) by
    refine (hs []).trans ?_
    rw [List.lookup_nil, Option.or_none]
  induction entries with
  | nil => exact fun acc => rfl
  | cons e rest ih =>
    obtain ⟨k, v⟩ := e
    intro acc
    rw [List.foldl_cons, ih, List.reverse_cons, List.lookup_append, Option.or_assoc]
    congr 1
    by_cases h : key = k
    · subst h
      rw [lookup_insert_self, List.lookup_cons_self, Option.some_or]
    · rw [lookup_insert_of_ne h, List.lookup_cons, beq_eq_false_iff_ne.2 h]
      rfl

theorem lookup_sorted (hd : (keys entries).Nodup) (key : String) :
    (sorted entries).lookup key = entries.lookup key := by
  rw [lookup_sorted_eq_reverse]
  have hdr : (keys entries.reverse).Nodup := by
    unfold keys
    rw [List.map_reverse]
    exact List.nodup_reverse.2 hd
  cases h : entries.lookup key with
  | none =>
    rw [lookup_eq_none] at h ⊢
    unfold keys at h ⊢
    rwa [List.map_reverse, List.mem_reverse]
  | some value => exact lookup_of_mem hdr (List.mem_reverse.2 (mem_of_lookup h))

theorem insert_map (f : α → β) (key : String) (value : α) (entries : List (String × α)) :
    insert key (f value) (entries.map fun e => (e.1, f e.2)) =
      (insert key value entries).map fun e => (e.1, f e.2) := by
  induction entries with
  | nil => rfl
  | cons e rest ih =>
    obtain ⟨k, v⟩ := e
    rw [List.map_cons, insert, insert, ih]
    split
    · rfl
    · split <;> rfl

theorem sorted_map (f : α → β) (entries : List (String × α)) :
    sorted (entries.map fun e => (e.1, f e.2)) = (sorted entries).map fun e => (e.1, f e.2) := by
  suffices hs : ∀ acc : List (String × α),
      (entries.map fun e => (e.1, f e.2)).foldl (fun acc x => insert x.1 x.2 acc)
          (acc.map fun e => (e.1, f e.2)) =
        (entries.foldl (fun acc x => insert x.1 x.2 acc) acc).map fun e => (e.1, f e.2) from hs []
  induction entries with
  | nil => exact fun acc => rfl
  | cons e rest ih =>
    intro acc
    rw [List.map_cons, List.foldl_cons, List.foldl_cons, ← ih, ← insert_map]

theorem insert_eq_append (h : ∀ e ∈ entries, e.1 < key) :
    insert key value entries = entries ++ [(key, value)] := by
  induction entries with
  | nil => rfl
  | cons e rest ih =>
    obtain ⟨hk, hrest⟩ := List.forall_mem_cons.1 h
    rw [insert_cons_of_gt hk, ih hrest, List.cons_append]

/-- An entry that is there is put in its own place. -/
theorem insert_eq_self (h : Increasing entries) (hl : entries.lookup key = some value) :
    insert key value entries = entries := by
  induction entries with
  | nil => cases hl
  | cons e rest ih =>
    obtain ⟨k, v⟩ := e
    obtain ⟨hk, hrest⟩ := List.pairwise_cons.1 h
    rw [List.lookup_cons] at hl
    by_cases heq : key = k
    · subst heq
      rw [beq_self_eq_true] at hl
      cases hl
      exact insert_cons_self
    · rw [beq_eq_false_iff_ne.2 heq] at hl
      rw [insert_cons_of_gt (hk _ (mem_of_lookup hl)), ih hrest hl]

/-- Of two values for one key the later one stays. -/
@[simp] theorem insert_insert (key : String) (value found : α) (entries : List (String × α)) :
    insert key value (insert key found entries) = insert key value entries := by
  induction entries with
  | nil => exact insert_cons_self
  | cons e rest ih =>
    obtain ⟨k, v⟩ := e
    rcases key_cases key k with h | rfl | h
    · rw [insert_cons_of_lt h, insert_cons_self, insert_cons_of_lt h]
    · rw [insert_cons_self, insert_cons_self, insert_cons_self]
    · rw [insert_cons_of_gt h, insert_cons_of_gt h, insert_cons_of_gt h, ih]

theorem insert_comm_of_lt (h : key < name) (value found : α) (entries : List (String × α)) :
    insert key value (insert name found entries) =
      insert name found (insert key value entries) := by
  induction entries with
  | nil => rw [insert, insert, insert_cons_of_lt h, insert_cons_of_gt h, insert]
  | cons e rest ih =>
    obtain ⟨k, v⟩ := e
    rcases key_cases key k with hk | rfl | hk
    · rw [insert_cons_of_lt hk, insert_cons_of_gt h]
      rcases key_cases name k with hn | rfl | hn
      · rw [insert_cons_of_lt hn, insert_cons_of_lt h]
      · rw [insert_cons_self, insert_cons_of_lt h]
      · rw [insert_cons_of_gt hn, insert_cons_of_lt hk]
    · rw [insert_cons_self, insert_cons_of_gt h, insert_cons_of_gt h, insert_cons_self]
    · have hn : k < name := String.lt_trans hk h
      rw [insert_cons_of_gt hk, insert_cons_of_gt hn, insert_cons_of_gt hk, insert_cons_of_gt hn,
        ih]

/-- Values for two keys may be put in their places in either order. -/
theorem insert_comm (h : key ≠ name) (value found : α) (entries : List (String × α)) :
    insert key value (insert name found entries) =
      insert name found (insert key value entries) := by
  rcases key_cases key name with hlt | heq | hgt
  · exact insert_comm_of_lt hlt value found entries
  · exact absurd heq h
  · exact (insert_comm_of_lt hgt found value entries).symm

theorem sorted_eq_self (h : Increasing entries) : sorted entries = entries := by
  suffices hs : ∀ acc : List (String × α), Increasing (acc ++ entries) →
      entries.foldl (fun acc x => insert x.1 x.2 acc) acc = acc ++ entries from hs [] h
  clear h
  induction entries with
  | nil => exact fun acc _ => (List.append_nil acc).symm
  | cons e rest ih =>
    intro acc hacc
    have hbefore : ∀ a ∈ acc, a.1 < e.1 := fun a ha =>
      (List.pairwise_append.1 hacc).2.2 a ha e List.mem_cons_self
    rw [List.append_cons] at hacc ⊢
    rw [List.foldl_cons, insert_eq_append hbefore]
    exact ih _ hacc

/-! ## Members in order of declaration -/

section Head

variable {k : String} {v : α} {rest : List (String × α)}

@[simp] theorem assign_cons_self : assign key value ((key, v) :: rest) = (key, value) :: rest := by
  rw [assign, if_pos rfl]

theorem assign_cons_of_ne (h : key ≠ k) :
    assign key value ((k, v) :: rest) = (k, v) :: assign key value rest := by
  rw [assign, if_neg h]

end Head

@[simp] theorem lookup_assign_self (key : String) (value : α) (entries : List (String × α)) :
    (assign key value entries).lookup key = some value := by
  induction entries with
  | nil => exact List.lookup_cons_self
  | cons e rest ih =>
    obtain ⟨k, v⟩ := e
    unfold assign
    split
    · next heq => subst heq; exact List.lookup_cons_self
    · next hne =>
      rw [List.lookup_cons, beq_eq_false_iff_ne.2 hne]
      exact ih

theorem lookup_assign_of_ne (hne : name ≠ key) (value : α) (entries : List (String × α)) :
    (assign key value entries).lookup name = entries.lookup name := by
  have hf : (name == key) = false := beq_eq_false_iff_ne.2 hne
  induction entries with
  | nil => simp [assign, List.lookup_cons, hf]
  | cons e rest ih =>
    obtain ⟨k, v⟩ := e
    unfold assign
    split
    · next heq => subst heq; simp [List.lookup_cons, hf]
    · simp [List.lookup_cons, ih]

theorem mem_assign {e : String × α} (h : e ∈ assign key value entries) :
    e = (key, value) ∨ e ∈ entries := by
  induction entries with
  | nil => simpa [assign] using h
  | cons head rest ih =>
    obtain ⟨k, v⟩ := head
    unfold assign at h
    split at h
    · next heq =>
      subst heq
      rcases List.mem_cons.1 h with h | h
      · exact .inl h
      · exact .inr (List.mem_cons_of_mem _ h)
    · rcases List.mem_cons.1 h with h | h
      · exact .inr (h ▸ List.mem_cons_self)
      · exact (ih h).imp_right (List.mem_cons_of_mem _)

theorem keys_assign (value : α) (h : key ∈ keys entries) :
    keys (assign key value entries) = keys entries := by
  induction entries with
  | nil => cases h
  | cons e rest ih =>
    obtain ⟨k, v⟩ := e
    unfold assign
    split
    · rfl
    · next hne => rw [keys_cons, keys_cons, ih (List.mem_of_ne_of_mem hne h)]

theorem assign_map (f : α → β) (key : String) (value : α) (entries : List (String × α)) :
    assign key (f value) (entries.map fun e => (e.1, f e.2)) =
      (assign key value entries).map fun e => (e.1, f e.2) := by
  induction entries with
  | nil => rfl
  | cons e rest ih =>
    obtain ⟨k, v⟩ := e
    rw [List.map_cons, assign, assign, ih]
    split <;> rfl

theorem assign_eq_self (h : entries.lookup key = some value) :
    assign key value entries = entries := by
  induction entries with
  | nil => cases h
  | cons e rest ih =>
    obtain ⟨k, v⟩ := e
    unfold assign
    split
    · next heq =>
      subst heq
      rw [List.lookup_cons_self] at h
      cases h
      rfl
    · next hne =>
      rw [List.lookup_cons, beq_eq_false_iff_ne.2 hne] at h
      rw [ih h]

theorem assign_append_of_not_mem {before after : List (String × α)} (h : key ∉ keys before) :
    assign key value (before ++ (key, found) :: after) = before ++ (key, value) :: after := by
  induction before with
  | nil => exact assign_cons_self
  | cons e rest ih =>
    obtain ⟨k, v⟩ := e
    obtain ⟨hne, hrest⟩ := not_or.1 (List.mem_cons.not.1 h)
    rw [List.cons_append, assign_cons_of_ne hne, ih hrest, List.cons_append]

@[simp] theorem assign_assign (key : String) (value found : α) (entries : List (String × α)) :
    assign key value (assign key found entries) = assign key value entries := by
  induction entries with
  | nil => exact assign_cons_self
  | cons e rest ih =>
    obtain ⟨k, v⟩ := e
    by_cases h : key = k
    · subst h
      rw [assign_cons_self, assign_cons_self, assign_cons_self]
    · rw [assign_cons_of_ne h, assign_cons_of_ne h, assign_cons_of_ne h, ih]

/-- Assignments to two keys commute if one of them has its place already. -/
theorem assign_comm (hne : key ≠ name) (hk : key ∈ keys entries) (value found : α) :
    assign key value (assign name found entries) =
      assign name found (assign key value entries) := by
  induction entries with
  | nil => cases hk
  | cons e rest ih =>
    obtain ⟨k, v⟩ := e
    by_cases h : key = k
    · subst h
      rw [assign_cons_self, assign_cons_of_ne hne.symm, assign_cons_of_ne hne.symm,
        assign_cons_self]
    · rw [assign_cons_of_ne h]
      by_cases h' : name = k
      · subst h'
        rw [assign_cons_self, assign_cons_of_ne h, assign_cons_self]
      · rw [assign_cons_of_ne h', assign_cons_of_ne h, assign_cons_of_ne h',
          ih (List.mem_of_ne_of_mem h hk)]

/-- Gives each key its value, one after another. -/
def assignAll (entries acc : List (String × α)) : List (String × α) :=
  entries.foldl (fun acc e => assign e.1 e.2 acc) acc

theorem lookup_assignAll (hd : (keys entries).Nodup) (acc : List (String × α)) (name : String) :
    (assignAll entries acc).lookup name = (entries.lookup name).or (acc.lookup name) := by
  induction entries generalizing acc with
  | nil => rfl
  | cons e rest ih =>
    obtain ⟨k, v⟩ := e
    obtain ⟨hk, hrest⟩ := List.nodup_cons.1 hd
    rw [assignAll, List.foldl_cons, ← assignAll, ih hrest, List.lookup_cons]
    by_cases h : name = k
    · subst h
      rw [lookup_eq_none.2 hk, lookup_assign_self, beq_self_eq_true]
      rfl
    · rw [lookup_assign_of_ne h, beq_eq_false_iff_ne.2 h]

/-- Values for all keys in their order replace all values. -/
theorem assignAll_eq_self {acc : List (String × α)} (hd : (keys entries).Nodup)
    (hk : keys acc = keys entries) : assignAll entries acc = entries := by
  suffices hs : ∀ before : List (String × α), (keys (before ++ entries)).Nodup →
      assignAll entries (before ++ acc) = before ++ entries from hs [] hd
  clear hd
  induction entries generalizing acc with
  | nil =>
    obtain rfl := List.map_eq_nil_iff.1 hk
    exact fun _ _ => rfl
  | cons e rest ih =>
    obtain ⟨k, v⟩ := e
    rcases acc with _ | ⟨⟨k', v'⟩, acc⟩
    · cases hk
    obtain ⟨hkey, hrest⟩ := List.cons.inj hk
    obtain rfl : k' = k := hkey
    intro before hd
    have hfresh : k' ∉ keys before := fun hb => by
      rw [keys_append, List.nodup_append'] at hd
      exact hd.2.2 hb List.mem_cons_self
    have hstep : assign k' v (before ++ (k', v') :: acc) = before ++ [(k', v)] ++ acc := by
      rw [assign_append_of_not_mem hfresh, List.append_assoc]
      rfl
    rw [assignAll, List.foldl_cons, hstep, ← assignAll, List.append_cons before (k', v) rest]
    rw [List.append_cons] at hd
    exact ih hrest _ hd

theorem nodup_assign (hd : (keys entries).Nodup) : (keys (assign key value entries)).Nodup := by
  induction entries with
  | nil => exact List.nodup_singleton key
  | cons e rest ih =>
    obtain ⟨k, v⟩ := e
    obtain ⟨hk, hrest⟩ := List.nodup_cons.1 hd
    unfold assign
    split
    · exact hd
    · next hne =>
      refine List.nodup_cons.2 ⟨fun hm => ?_, ih hrest⟩
      obtain ⟨x, hx, hxk⟩ := List.mem_map.1 hm
      rcases mem_assign hx with rfl | hx
      · exact hne hxk
      · exact hk (hxk ▸ mem_keys_of_mem hx)

/-- Strictly increasing keys are a matter of the keys alone. -/
theorem increasing_iff_keys : Increasing entries ↔ (keys entries).Pairwise (· < ·) :=
  List.pairwise_map.symm

theorem increasing_assign (h : Increasing entries) (hk : key ∈ keys entries) :
    Increasing (assign key value entries) := by
  rw [increasing_iff_keys, keys_assign value hk]
  exact increasing_iff_keys.1 h

theorem assign_eq_append (h : key ∉ keys entries) :
    assign key value entries = entries ++ [(key, value)] := by
  induction entries with
  | nil => rfl
  | cons e rest ih =>
    obtain ⟨k, v⟩ := e
    obtain ⟨hne, hrest⟩ := not_or.1 (List.mem_cons.not.1 h)
    rw [assign_cons_of_ne hne, ih hrest, List.cons_append]

/-- Entries with distinct keys are their own assignment. -/
theorem assigned_eq_self (hd : (keys entries).Nodup) : assigned entries = entries := by
  suffices hs : ∀ acc : List (String × α), (keys (acc ++ entries)).Nodup →
      assignAll entries acc = acc ++ entries from hs [] hd
  clear hd
  induction entries with
  | nil => exact fun acc _ => (List.append_nil acc).symm
  | cons e rest ih =>
    intro acc hacc
    have hfresh : e.1 ∉ keys acc := fun he => by
      rw [keys_append, List.nodup_append'] at hacc
      exact hacc.2.2 he List.mem_cons_self
    rw [List.append_cons] at hacc ⊢
    rw [assignAll, List.foldl_cons, assign_eq_append hfresh, ← assignAll]
    exact ih _ hacc

end ResourceSchema.Keyed
