import Mathlib.Data.List.Sort
import Mathlib.Data.String.Basic
import SpectralAlgebra.Encoding

/-!
# The order of fields

The fields of a JSON object have no order, so two values are the same if they agree once the fields
of all their objects are put in the order of their names (`Json.Same`). Objects that are the same
have the same under every name (`Json.lookup_same`). What is read of texts, truth values and
enumerations does not depend on the order of fields (`Json.Unordered`), and attributes are the same
as objects just if they are the same as maps (`Json.ofAttributes_same_iff`).
-/

namespace SpectralAlgebra

/-- Maps with the same values have the same entries up to their order. -/
theorem OrderedMap.perm_of_get?_eq {κ α : Type} [DecidableEq κ] {m n : OrderedMap κ α}
    (h : ∀ k, m.get? k = n.get? k) : m.entries.Perm n.entries := by
  refine (List.perm_ext_iff_of_nodup m.nodup_keys.of_map n.nodup_keys.of_map).2 fun e => ?_
  rw [← get?_eq_some_iff (k := e.1) (v := e.2), h, get?_eq_some_iff]

namespace Json

mutual
/-- The value with the fields of every object in it in the order of their names. -/
def sorted : Json → Json
  | arr items => arr (sortedItems items)
  | obj fields => obj ((sortedFields fields).insertionSort fun e e' => e.1 ≤ e'.1)
  | j => j

def sortedItems : List Json → List Json
  | [] => []
  | j :: items => j.sorted :: sortedItems items

def sortedFields : List (String × Json) → List (String × Json)
  | [] => []
  | (name, j) :: fields => (name, j.sorted) :: sortedFields fields
end

example :
    (obj [("b", .null), ("a", obj [("d", .bool true), ("c", .int 1)])]).sorted
      = obj [("a", obj [("c", .int 1), ("d", .bool true)]), ("b", .null)] := rfl

/-- The two are one value, in whatever order the fields of their objects stand. -/
def Same (a b : Json) : Prop := a.sorted = b.sorted

theorem sortedItems_eq : ∀ items : List Json, sortedItems items = items.map sorted
  | [] => rfl
  | j :: items => by rw [sortedItems, sortedItems_eq, List.map_cons]

theorem sorted_arr (items : List Json) : (arr items).sorted = arr (items.map sorted) := by
  rw [sorted, sortedItems_eq]

theorem sortedFields_eq :
    ∀ fields : List (String × Json), sortedFields fields = fields.map fun e => (e.1, e.2.sorted)
  | [] => rfl
  | (name, j) :: fields => by rw [sortedFields, sortedFields_eq, List.map_cons]

theorem sorted_obj (fields : List (String × Json)) : (obj fields).sorted
    = obj ((fields.map fun e => (e.1, e.2.sorted)).insertionSort fun e e' => e.1 ≤ e'.1) := by
  rw [sorted, sortedFields_eq]

theorem keys_map_sorted (fields : List (String × Json)) :
    (fields.map fun e => (e.1, e.2.sorted)).map Prod.fst = fields.map Prod.fst := by
  rw [List.map_map]
  rfl

/-! ## Objects -/

section Objects

variable {fields fields' : List (String × Json)} {a b : Attributes} {j : Json}

theorem perm_of_same (h : Same (obj fields) (obj fields')) :
    (fields.map fun e => (e.1, e.2.sorted)).Perm (fields'.map fun e => (e.1, e.2.sorted)) := by
  rw [Same, sorted_obj, sorted_obj] at h
  have hp := List.perm_insertionSort (fun e e' => e.1 ≤ e'.1)
    (fields.map fun e => (e.1, e.2.sorted))
  rw [obj.inj h] at hp
  exact hp.symm.trans (List.perm_insertionSort _ _)

/-- Fields whose names differ have one order only. -/
theorem same_of_perm (hn : (fields.map Prod.fst).Nodup)
    (h : (fields.map fun e => (e.1, e.2.sorted)).Perm (fields'.map fun e => (e.1, e.2.sorted))) :
    Same (obj fields) (obj fields') := by
  rw [← keys_map_sorted] at hn
  have hsort : ∀ l : List (String × Json), (l.insertionSort fun e e' => e.1 ≤ e'.1).Perm l :=
    List.perm_insertionSort _
  rw [Same, sorted_obj, sorted_obj]
  refine congrArg obj (List.Perm.eq_of_pairwise (fun e e' he he' hle hle' => ?_)
    (List.pairwise_insertionSort _ _) (List.pairwise_insertionSort _ _)
    ((hsort _).trans (h.trans (hsort _).symm)))
  have he' := h.symm.subset ((hsort _).subset he')
  exact List.inj_on_of_nodup_map hn ((hsort _).subset he) he' (le_antisymm hle hle')

/-- What is the same as an object is an object. -/
theorem exists_obj_of_same (h : Same j (obj fields)) : ∃ fields', j = obj fields' := by
  cases j with
  | obj fields' => exact ⟨fields', rfl⟩
  | _ => simp [Same, sorted] at h

theorem lookup_eq_find (name : String) :
    ∀ fields : List (String × Json), lookup name fields = OrderedMap.find name fields
  | [] => rfl
  | (n, j) :: fields => by rw [lookup, OrderedMap.find, lookup_eq_find]

/-- Objects that are the same have the same under every name. -/
theorem lookup_same (hn : (fields'.map Prod.fst).Nodup) (h : Same (obj fields) (obj fields'))
    (name : String) : (lookup name fields).map sorted = (lookup name fields').map sorted := by
  rw [← keys_map_sorted] at hn
  rw [lookup_eq_find, lookup_eq_find, ← OrderedMap.find_map, ← OrderedMap.find_map]
  exact (OrderedMap.find_eq_of_perm hn (perm_of_same h).symm).symm

/-- Attributes are the same as objects just if they are the same as maps. -/
theorem ofAttributes_same_iff : Same (ofAttributes a) (ofAttributes b) ↔
    ∀ name, (a.get? name).map sorted = (b.get? name).map sorted := by
  constructor
  · intro h name
    have hl := lookup_same b.nodup_keys h name
    rwa [lookup_eq_find, lookup_eq_find] at hl
  · intro h
    refine same_of_perm a.nodup_keys (OrderedMap.perm_of_get?_eq (m := a.mapValues sorted)
      (n := b.mapValues sorted) fun name => ?_)
    rw [OrderedMap.get?_mapValues, OrderedMap.get?_mapValues, h name]

/-- Attributes are read from whatever is the same as their object, as the same map. -/
theorem attributes?_same (h : Same j (ofAttributes a)) :
    ∃ b, attributes? j = some b ∧ ∀ name, (b.get? name).map sorted = (a.get? name).map sorted := by
  obtain ⟨fields, rfl⟩ := exists_obj_of_same h
  have hkeys := (perm_of_same h).map Prod.fst
  rw [keys_map_sorted, keys_map_sorted] at hkeys
  have hn : (fields.map Prod.fst).Nodup := hkeys.nodup_iff.2 a.nodup_keys
  refine ⟨.ofList fields, rfl, ofAttributes_same_iff.1 ?_⟩
  rwa [ofAttributes, OrderedMap.entries_ofList hn]

end Objects

/-! ## Readers -/

/-- What is read does not depend on the order of fields. -/
def Unordered {α : Type} (read : Json → Option α) : Prop := ∀ j, read j.sorted = read j

section Readers

variable {α : Type} {read : Json → Option α}

theorem Unordered.field? (h : Unordered read) :
    ∀ c : Option Json, Json.field? read (c.map sorted) = Json.field? read c
  | none => rfl
  | some j => h j

theorem Unordered.optional? (h : Unordered read) :
    ∀ c : Option Json, Json.optional? read (c.map sorted) = Json.optional? read c
  | none | some .null => rfl
  | some (.bool _) | some (.int _) | some (.real _) | some (.str _) => rfl
  | some (.arr items) => congrArg (Option.map some) (h (.arr items))
  | some (.obj fields) => congrArg (Option.map some) (h (.obj fields))

theorem variant?_of_two_le {fields : List (String × Json)} (h : 2 ≤ fields.length) :
    (obj fields).variant? = none := by
  match fields, h with
  | _ :: _ :: _, _ => rfl

theorem variant?_sorted (j : Json) :
    j.sorted.variant? = j.variant?.map fun v => (v.1, v.2.map sorted) := by
  cases j with
  | obj fields =>
    match fields with
    | [] => rfl
    | [(tag, content)] => rfl
    | e :: e' :: rest =>
      rw [sorted_obj, variant?_of_two_le]
      · rfl
      · rw [List.length_insertionSort, List.length_map]
        exact Nat.le_add_left 2 rest.length
  | _ => rfl

theorem isUnit_sorted : ∀ c : Option Json, isUnit (c.map sorted) = isUnit c
  | none => rfl
  | some j => by cases j <;> rfl

theorem oneOf?_unordered (cases : List (String × α)) : Unordered (oneOf? cases) := fun j => by
  rw [oneOf?, oneOf?, variant?_sorted]
  cases j.variant? with
  | none => rfl
  | some v => simp only [Option.map_some, Option.bind_eq_bind, Option.bind_some, isUnit_sorted]

theorem string?_unordered : Unordered string? := fun j => by cases j <;> rfl

theorem bool?_unordered : Unordered bool? := fun j => by cases j <;> rfl

end Readers

end Json

end SpectralAlgebra
