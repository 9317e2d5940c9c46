/-!
# Ordered maps

An `OrderedMap` remembers the order in which its keys were first inserted. Inserting a key again
replaces its value and keeps its place; merging inserts the entries of one map into another in
order, so on a common key the second map's value stands at the first map's place.
-/

namespace SpectralAlgebra

/-- A finite map whose entries stand in the order their keys first came in. -/
structure OrderedMap (κ α : Type) where
  entries : List (κ × α)
  nodup_keys : (entries.map Prod.fst).Nodup

namespace OrderedMap

variable {κ α β : Type}

theorem ext_entries {m n : OrderedMap κ α} (h : m.entries = n.entries) : m = n := by
  cases m
  cases n
  cases h
  rfl

def empty : OrderedMap κ α := ⟨[], .nil⟩

instance : EmptyCollection (OrderedMap κ α) := ⟨empty⟩

instance : Inhabited (OrderedMap κ α) := ⟨empty⟩

def singleton (k : κ) (v : α) : OrderedMap κ α := ⟨[(k, v)], by simp⟩

def keys (m : OrderedMap κ α) : List κ := m.entries.map Prod.fst

def values (m : OrderedMap κ α) : List α := m.entries.map Prod.snd

def size (m : OrderedMap κ α) : Nat := m.entries.length

def isEmpty (m : OrderedMap κ α) : Bool := m.entries.isEmpty

def mapValues (f : α → β) (m : OrderedMap κ α) : OrderedMap κ β where
  entries := m.entries.map fun e => (e.1, f e.2)
  nodup_keys := by
    simpa [Function.comp_def] using m.nodup_keys

@[simp] theorem keys_mapValues (f : α → β) (m : OrderedMap κ α) :
    (m.mapValues f).keys = m.keys := by
  simp [keys, mapValues, Function.comp_def]

theorem mapValues_mapValues {γ : Type} (f : α → β) (g : β → γ) (m : OrderedMap κ α) :
    (m.mapValues f).mapValues g = m.mapValues fun v => g (f v) := by
  simp [mapValues]

theorem mapValues_congr {f g : α → β} {m : OrderedMap κ α} (h : ∀ e ∈ m.entries, f e.2 = g e.2) :
    m.mapValues f = m.mapValues g :=
  ext_entries (List.map_congr_left fun e he => by rw [h e he])

@[simp] theorem keys_empty : (empty : OrderedMap κ α).keys = [] := rfl

@[simp] theorem keys_singleton (k : κ) (v : α) : (singleton k v).keys = [k] := rfl

section Lookup

variable [DecidableEq κ]

def find (k : κ) : List (κ × α) → Option α
  | [] => none
  | (k', v) :: rest => if k' = k then some v else find k rest

def get? (m : OrderedMap κ α) (k : κ) : Option α := find k m.entries

def contains (m : OrderedMap κ α) (k : κ) : Bool := (m.get? k).isSome

/-- Writes a value at its key's place, or at the end when the key is new. -/
def write (k : κ) (v : α) : List (κ × α) → List (κ × α)
  | [] => [(k, v)]
  | (k', v') :: rest => if k' = k then (k, v) :: rest else (k', v') :: write k v rest

theorem mem_keys_write {k x : κ} {v : α} :
    ∀ {l : List (κ × α)}, x ∈ (write k v l).map Prod.fst ↔ x ∈ l.map Prod.fst ∨ x = k
  | [] => by simp [write]
  | (k', v') :: rest => by
    by_cases h : k' = k
    · subst h
      simp only [write, ↓reduceIte, List.map_cons, List.mem_cons]
      exact ⟨.inl, fun h => h.elim id .inl⟩
    · simp only [write, h, ↓reduceIte, List.map_cons, List.mem_cons, mem_keys_write, or_assoc]

theorem nodup_write {k : κ} {v : α} :
    ∀ {l : List (κ × α)}, (l.map Prod.fst).Nodup → ((write k v l).map Prod.fst).Nodup
  | [], _ => by simp [write]
  | (k', v') :: rest, hl => by
    rw [List.map_cons, List.nodup_cons] at hl
    by_cases h : k' = k
    · subst h
      simpa [write] using hl
    · rw [write, if_neg h, List.map_cons, List.nodup_cons, mem_keys_write, not_or]
      exact ⟨⟨hl.1, h⟩, nodup_write hl.2⟩

/-- Replaces the value of a key at its place, or adds the key at the end. -/
def insert (m : OrderedMap κ α) (k : κ) (v : α) : OrderedMap κ α :=
  ⟨write k v m.entries, nodup_write m.nodup_keys⟩

def insertAll (m : OrderedMap κ α) (pairs : List (κ × α)) : OrderedMap κ α :=
  pairs.foldl (fun m e => m.insert e.1 e.2) m

/-- The map of a list of pairs: a repeated key keeps its first place and takes its last value. -/
def ofList (pairs : List (κ × α)) : OrderedMap κ α := empty.insertAll pairs

/-- The entries of both maps; those of the second win. -/
def merge (m n : OrderedMap κ α) : OrderedMap κ α := m.insertAll n.entries

theorem mem_keys_insert {m : OrderedMap κ α} {k x : κ} {v : α} :
    x ∈ (m.insert k v).keys ↔ x ∈ m.keys ∨ x = k :=
  mem_keys_write

theorem find_write {k x : κ} {v : α} :
    ∀ {l : List (κ × α)}, find x (write k v l) = if x = k then some v else find x l
  | [] => by
    simp only [write, find, eq_comm]
  | (k', v') :: rest => by
    by_cases h : k' = k
    · subst h
      simp only [write, ↓reduceIte, find, eq_comm (a := x)]
      split <;> rfl
    · simp only [write, h, ↓reduceIte, find, find_write]
      by_cases hx : k' = x
      · subst hx
        simp [h]
      · simp [hx]

/-- An insertion is seen at its own key and nowhere else. -/
theorem get?_insert {m : OrderedMap κ α} {k x : κ} {v : α} :
    (m.insert k v).get? x = if x = k then some v else m.get? x :=
  find_write

theorem find_isSome {k : κ} :
    ∀ {l : List (κ × α)}, (find k l).isSome ↔ k ∈ l.map Prod.fst
  | [] => by simp [find]
  | (k', v) :: rest => by
    by_cases h : k' = k
    · simp [find, h]
    · simp only [find, h, ↓reduceIte, find_isSome, List.map_cons, List.mem_cons]
      exact ⟨.inr, fun hk => hk.resolve_left fun e => h e.symm⟩

theorem contains_iff {m : OrderedMap κ α} {k : κ} : m.contains k ↔ k ∈ m.keys :=
  find_isSome

theorem exists_get?_iff {m : OrderedMap κ α} {k : κ} : (∃ v, m.get? k = some v) ↔ k ∈ m.keys := by
  rw [← contains_iff, contains, Option.isSome_iff_exists]

theorem find_eq_some_iff {k : κ} {v : α} :
    ∀ {l : List (κ × α)}, (l.map Prod.fst).Nodup → (find k l = some v ↔ (k, v) ∈ l)
  | [], _ => by simp [find]
  | (k', v') :: rest, hl => by
    rw [List.map_cons, List.nodup_cons] at hl
    by_cases h : k' = k
    · subst h
      have hv : (k', v) ∉ rest := fun hm => hl.1 (List.mem_map.mpr ⟨_, hm, rfl⟩)
      simp [find, hv, eq_comm]
    · simp only [find, h, ↓reduceIte, find_eq_some_iff hl.2, List.mem_cons, Prod.mk.injEq]
      exact ⟨.inr, fun hm => hm.resolve_left fun e => h e.1.symm⟩

/-- Where no key is repeated, what is found does not depend on the order of the entries. -/
theorem find_eq_of_perm {k : κ} {l l' : List (κ × α)} (hl : (l.map Prod.fst).Nodup)
    (h : l.Perm l') : find k l = find k l' := by
  have hl' : (l'.map Prod.fst).Nodup := (h.map Prod.fst).nodup_iff.1 hl
  ext v
  rw [find_eq_some_iff hl, find_eq_some_iff hl', h.mem_iff]

theorem find_map (f : α → β) (k : κ) :
    ∀ l : List (κ × α), find k (l.map fun e => (e.1, f e.2)) = (find k l).map f
  | [] => rfl
  | (k', v) :: rest => by
    simp only [List.map_cons, find, find_map]
    split <;> rfl

theorem get?_eq_some_iff {m : OrderedMap κ α} {k : κ} {v : α} :
    m.get? k = some v ↔ (k, v) ∈ m.entries :=
  find_eq_some_iff m.nodup_keys

theorem get?_insertAll {x : κ} :
    ∀ {pairs : List (κ × α)} {m : OrderedMap κ α}, (pairs.map Prod.fst).Nodup →
      (m.insertAll pairs).get? x = (find x pairs).or (m.get? x)
  | [], _, _ => rfl
  | (k, v) :: rest, m, hn => by
    rw [List.map_cons, List.nodup_cons] at hn
    change ((m.insert k v).insertAll rest).get? x = _
    rw [get?_insertAll hn.2, get?_insert]
    by_cases h : k = x
    · subst h
      have hf : find k rest = none := by
        rw [← Option.not_isSome_iff_eq_none, find_isSome]
        exact hn.1
      simp [find, hf]
    · simp [find, h, Ne.symm h]

/-- After many insertions, what stands under a key is what the pairs have for it, else what was
there before. -/
theorem get?_insertAll_ofList {x : κ} : ∀ {pairs : List (κ × α)} {m : OrderedMap κ α},
    (m.insertAll pairs).get? x = ((ofList pairs).get? x).or (m.get? x)
  | [], _ => rfl
  | (k, v) :: rest, m => by
    change ((m.insert k v).insertAll rest).get? x
      = (((empty.insert k v).insertAll rest).get? x).or (m.get? x)
    rw [get?_insertAll_ofList, get?_insertAll_ofList, get?_insert, get?_insert, Option.or_assoc]
    split <;> rfl

/-- All pairs with a key may have one value without being one pair. -/
theorem get?_insertAll_of_forall {k : κ} {v : α} :
    ∀ {pairs : List (κ × α)} {m : OrderedMap κ α}, (∀ e ∈ pairs, e.1 = k → e.2 = v) →
      k ∈ pairs.map Prod.fst ∨ m.get? k = some v → (m.insertAll pairs).get? k = some v
  | [], m, _, h => h.resolve_left List.not_mem_nil
  | e :: rest, m, hv, h => by
    change ((m.insert e.1 e.2).insertAll rest).get? k = some v
    refine get?_insertAll_of_forall (fun e he => hv e (List.mem_cons_of_mem _ he)) ?_
    by_cases hk : k = e.1
    · rw [get?_insert, if_pos hk, hv e List.mem_cons_self hk.symm]
      exact .inr rfl
    · rw [get?_insert, if_neg hk]
      simpa [hk] using h

/-- What stands under a key after a merge: the second map's value, else the first's. -/
theorem get?_merge {m n : OrderedMap κ α} {x : κ} :
    (m.merge n).get? x = (n.get? x).or (m.get? x) :=
  get?_insertAll n.nodup_keys

theorem mem_keys_insertAll {x : κ} :
    ∀ {pairs : List (κ × α)} {m : OrderedMap κ α},
      x ∈ (m.insertAll pairs).keys ↔ x ∈ m.keys ∨ x ∈ pairs.map Prod.fst
  | [], _ => by simp [insertAll]
  | (k, v) :: rest, m => by
    change x ∈ ((m.insert k v).insertAll rest).keys ↔ _
    rw [mem_keys_insertAll, mem_keys_insert, List.map_cons, List.mem_cons, or_assoc]

theorem mem_keys_merge {m n : OrderedMap κ α} {x : κ} :
    x ∈ (m.merge n).keys ↔ x ∈ m.keys ∨ x ∈ n.keys :=
  mem_keys_insertAll

theorem mem_entries_insertAll {e : κ × α} :
    ∀ {pairs : List (κ × α)} {m : OrderedMap κ α},
      e ∈ (m.insertAll pairs).entries → e ∈ m.entries ∨ e ∈ pairs
  | [], _, h => .inl h
  | (k, v) :: rest, m, h => by
    rcases mem_entries_insertAll (m := m.insert k v) h with h | h
    · rw [← get?_eq_some_iff (k := e.1) (v := e.2), get?_insert] at h
      split at h
      · rename_i hk
        obtain rfl := Option.some.inj h
        exact .inr (List.mem_cons.2 (.inl (Prod.ext hk rfl)))
      · exact .inl (get?_eq_some_iff.1 h)
    · exact .inr (List.mem_cons_of_mem _ h)

theorem mem_of_mem_entries_ofList {e : κ × α} {pairs : List (κ × α)}
    (h : e ∈ (ofList pairs).entries) : e ∈ pairs :=
  (mem_entries_insertAll h).resolve_left (by simp [empty])

/-- Where no key is repeated every pair is found. -/
theorem get?_ofList_eq_some_iff {k : κ} {v : α} {pairs : List (κ × α)}
    (hn : (pairs.map Prod.fst).Nodup) : (ofList pairs).get? k = some v ↔ (k, v) ∈ pairs := by
  rw [ofList, get?_insertAll hn, ← find_eq_some_iff hn]
  exact iff_of_eq (congrArg (· = some v) Option.or_none)

theorem mem_keys_ofList {x : κ} {pairs : List (κ × α)} :
    x ∈ (ofList pairs).keys ↔ x ∈ pairs.map Prod.fst := by
  simp [ofList, mem_keys_insertAll]

theorem ofList_append (as bs : List (κ × α)) : ofList (as ++ bs) = (ofList as).insertAll bs :=
  List.foldl_append

/-- Of several pairs with a key the last one counts. -/
theorem get?_ofList_of_last {k : κ} {v : α} (before : List (κ × α)) {after : List (κ × α)}
    (h : k ∉ after.map Prod.fst) : (ofList (before ++ (k, v) :: after)).get? k = some v := by
  have hnone : (ofList after).get? k = none := by
    rw [← Option.not_isSome_iff_eq_none, Option.isSome_iff_exists, exists_get?_iff,
      mem_keys_ofList]
    exact h
  rw [ofList_append]
  change (((ofList before).insert k v).insertAll after).get? k = _
  rw [get?_insertAll_ofList, hnone, Option.none_or, get?_insert, if_pos rfl]

theorem write_of_notMem {k : κ} {v : α} :
    ∀ {l : List (κ × α)}, k ∉ l.map Prod.fst → write k v l = l ++ [(k, v)]
  | [], _ => rfl
  | (k', v') :: rest, h => by
    rw [List.map_cons, List.mem_cons, not_or] at h
    rw [write, if_neg (Ne.symm h.1), write_of_notMem h.2, List.cons_append]

theorem keys_write_of_mem {k : κ} {v : α} :
    ∀ {l : List (κ × α)}, k ∈ l.map Prod.fst → (write k v l).map Prod.fst = l.map Prod.fst
  | (k', v') :: rest, h => by
    by_cases hk : k' = k
    · rw [write, if_pos hk, List.map_cons, List.map_cons, hk]
    · rw [List.map_cons, List.mem_cons] at h
      have hr : k ∈ rest.map Prod.fst := h.resolve_left (Ne.symm hk)
      rw [write, if_neg hk, List.map_cons, List.map_cons, keys_write_of_mem hr]

/-- New keys go to the end in the order of the pairs. -/
theorem entries_insertAll :
    ∀ {pairs : List (κ × α)} {m : OrderedMap κ α}, ((m.entries ++ pairs).map Prod.fst).Nodup →
      (m.insertAll pairs).entries = m.entries ++ pairs
  | [], _, _ => (List.append_nil _).symm
  | (k, v) :: rest, m, h => by
    have hw : (m.insert k v).entries = m.entries ++ [(k, v)] := by
      refine write_of_notMem fun hm => ?_
      rw [List.map_append, List.nodup_append] at h
      exact h.2.2 k hm k (by simp) rfl
    change ((m.insert k v).insertAll rest).entries = _
    rw [entries_insertAll (by simpa [hw] using h), hw, List.append_assoc, List.singleton_append]

theorem keys_insert {m : OrderedMap κ α} {k : κ} {v : α} :
    (m.insert k v).keys = if k ∈ m.keys then m.keys else m.keys ++ [k] := by
  split
  · rename_i h
    exact keys_write_of_mem h
  · rename_i h
    exact (congrArg (List.map Prod.fst) (write_of_notMem h)).trans List.map_append

theorem keys_insertAll :
    ∀ {pairs : List (κ × α)} {m : OrderedMap κ α},
      (m.insertAll pairs).keys = m.keys ++ ((pairs.map Prod.fst).removeAll m.keys).eraseDups
  | [], m => (List.append_nil m.keys).symm
  | (k, v) :: rest, m => by
    change ((m.insert k v).insertAll rest).keys = _
    rw [keys_insertAll, keys_insert, List.map_cons, List.cons_removeAll]
    by_cases hk : k ∈ m.keys
    · simp [hk]
    · have hr : (rest.map Prod.fst).removeAll (m.keys ++ [k])
          = ((rest.map Prod.fst).removeAll m.keys).filter fun x => !x == k := by
        simp [List.removeAll, List.filter_filter, Bool.and_comm, Bool.beq_eq_decide_eq]
      rw [if_neg hk, hr]
      simp [hk, List.eraseDups_cons]

theorem keys_ofList {pairs : List (κ × α)} :
    (ofList pairs).keys = (pairs.map Prod.fst).eraseDups := by
  simp [ofList, keys_insertAll]

theorem entries_ofList {pairs : List (κ × α)} (h : (pairs.map Prod.fst).Nodup) :
    (ofList pairs).entries = pairs :=
  entries_insertAll h

@[simp] theorem ofList_entries (m : OrderedMap κ α) : ofList m.entries = m :=
  ext_entries (entries_ofList m.nodup_keys)

/-- Keys in a known order and the values under them make up the entries. -/
theorem entries_eq_map {m : OrderedMap κ α} {xs : List β} {f : β → κ} {g : β → α}
    (hk : m.keys = xs.map f)
    (hv : ∀ x ∈ xs, m.get? (f x) = some (g x)) : m.entries = xs.map fun x => (f x, g x) := by
  have hlen : m.entries.length = xs.length := by
    simpa [keys] using congrArg List.length hk
  refine List.ext_getElem (by rw [hlen, List.length_map]) fun i hi hi' => ?_
  rw [List.getElem_map]
  have hx : xs[i] ∈ xs := List.getElem_mem _
  have hkey : m.entries[i].1 = f xs[i] := by
    have h := List.getElem_of_eq hk (by simpa [keys] using hi)
    simpa [keys] using h
  have hval : m.get? m.entries[i].1 = some m.entries[i].2 :=
    get?_eq_some_iff.2 (List.getElem_mem hi)
  rw [hkey, hv _ hx] at hval
  exact Prod.ext hkey (Option.some.inj hval).symm

/-- A map is known by its keys in their order and by what stands under them. -/
theorem ext_get? {m n : OrderedMap κ α} (hk : m.keys = n.keys)
    (hg : ∀ k, m.get? k = n.get? k) : m = n := by
  have h := entries_eq_map (f := Prod.fst) (g := Prod.snd) hk fun e he =>
    (hg e.1).trans (get?_eq_some_iff.2 he)
  exact ext_entries (h.trans (List.map_id _))

theorem get?_mapValues (f : α → β) (m : OrderedMap κ α) (k : κ) :
    (m.mapValues f).get? k = (m.get? k).map f :=
  find_map f k m.entries

theorem mapValues_insert (f : α → β) (m : OrderedMap κ α) (k : κ) (v : α) :
    (m.insert k v).mapValues f = (m.mapValues f).insert k (f v) := by
  have key : ∀ l : List (κ × α), (write k v l).map (fun e => (e.1, f e.2))
      = write k (f v) (l.map fun e => (e.1, f e.2)) := by
    intro l
    induction l with
    | nil => rfl
    | cons e rest ih =>
      simp only [write, List.map_cons]
      split
      · rfl
      · rw [List.map_cons, ih]
  exact ext_entries (key m.entries)

theorem mapValues_insertAll (f : α → β) :
    ∀ (pairs : List (κ × α)) (m : OrderedMap κ α), (m.insertAll pairs).mapValues f
      = (m.mapValues f).insertAll (pairs.map fun e => (e.1, f e.2))
  | [], _ => rfl
  | e :: rest, m => by
    change ((m.insert e.1 e.2).insertAll rest).mapValues f = _
    rw [mapValues_insertAll f rest, mapValues_insert]
    rfl

theorem mapValues_ofList (f : α → β) (pairs : List (κ × α)) :
    (ofList pairs).mapValues f = ofList (pairs.map fun e => (e.1, f e.2)) :=
  mapValues_insertAll f pairs empty

end Lookup

end OrderedMap

end SpectralAlgebra
