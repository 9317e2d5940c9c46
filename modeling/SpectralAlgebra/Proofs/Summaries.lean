import SpectralAlgebra.Proofs.FieldOrder
import SpectralAlgebra.Proofs.Reading

/-!
# Summaries are read back

A summary is written as a record: its identities as hyphenated digits, its kind only where it has
one, and its attributes as they are. What is read does not depend on the order in which the fields
of objects stand (`NodeSummary.decode?_same`), so a summary comes back equal, its attributes
compared as maps, and summaries that are not equal are written differently
(`NodeSummary.same_encode_iff`). `Node.summary_read_back` says this of the summaries of nodes.
-/

namespace SpectralAlgebra

/-! ## Identities -/

namespace NodeId

theorem hexValue?_digitChar {d : Nat} (hd : d < 16) : hexValue? (Nat.digitChar d) = some d := by
  have all : ∀ x : Fin 16, hexValue? (Nat.digitChar x) = some x.val := by decide
  exact all ⟨d, hd⟩

theorem hexNumber?_append (ds : List Char) : ∀ (cs : List Char) (high : Nat),
    hexNumber? high (cs ++ ds) = (hexNumber? high cs).bind fun n => hexNumber? n ds
  | [], _ => rfl
  | c :: cs, high => by
    rw [List.cons_append, hexNumber?, hexNumber?, Option.bind_assoc]
    exact congrArg _ (funext fun d => hexNumber?_append ds cs (16 * high + d))

/-- Digits are read as the number they were written for, behind whatever stands before them. -/
theorem hexNumber?_hexDigits : ∀ {count n : Nat} (high : Nat), n < 16 ^ count →
    hexNumber? high (hexDigits count n) = some (high * 16 ^ count + n)
  | 0, n, high, hn => by
    obtain rfl : n = 0 := by omega
    simp [hexDigits, hexNumber?]
  | count + 1, n, high, hn => by
    have hn16 : 16 * (high * 16 ^ count + n / 16) + n % 16 = high * 16 ^ (count + 1) + n := by
      rw [Nat.pow_succ, ← Nat.mul_assoc]
      omega
    rw [hexDigits, hexNumber?_append, hexNumber?_hexDigits high (by omega), Option.bind_some,
      hexNumber?, hexValue?_digitChar (Nat.mod_lt n (by decide)), Option.bind_some, hexNumber?,
      hn16]

theorem ofHex?_hexDigits (x : NodeId) : ofHex? (hexDigits 32 x.bits.toNat) = some x := by
  rw [ofHex?, if_pos (length_hexDigits 32 _), hexNumber?_hexDigits 0 x.bits.isLt]
  simp

theorem hyphen_not_mem_hexDigits (x : NodeId) : '-' ∉ hexDigits 32 x.bits.toNat := by
  simpa only [hex, String.toList_ofList] using x.not_mem_hex (by decide)

theorem length_hyphenate {digits : List Char} (h : digits.length = 32) :
    (hyphenate digits).length = 36 := by
  simp [hyphenate, h]

/-- Without its hyphens a hyphenated text is the digits again. -/
theorem filter_hyphenate {digits : List Char} (h : '-' ∉ digits) :
    (hyphenate digits).filter (· ≠ '-') = digits := by
  have hkeep : ∀ {l : List Char}, l ⊆ digits → l.filter (· ≠ '-') = l := fun hl =>
    List.filter_eq_self.2 fun c hc => decide_eq_true (ne_of_mem_of_not_mem (hl hc) h)
  have hpart : ∀ k, (digits.drop k).take 4 ⊆ digits := fun k =>
    List.Subset.trans (List.take_subset _ _) (List.drop_subset _ _)
  have hjoin : ∀ k, (digits.drop k).take 4 ++ digits.drop (k + 4) = digits.drop k := fun k => by
    rw [← List.drop_drop, List.take_append_drop]
  simp only [hyphenate, List.filter_append, List.filter_cons_of_neg, ne_eq, not_true_eq_false,
    decide_false, Bool.false_eq_true, not_false_eq_true]
  rw [hkeep (List.take_subset _ _), hkeep (hpart 8), hkeep (hpart 12), hkeep (hpart 16),
    hkeep (List.drop_subset _ _)]
  simp only [List.append_assoc, hjoin]
  exact List.take_append_drop 8 digits

theorem ofString?_ofList {cs : List Char} (h : cs.length = 36) :
    ofString? (String.ofList cs) = ofHyphenated? cs := by
  simp [ofString?, h]

theorem ofString?_hyphenated (x : NodeId) : ofString? x.hyphenated = some x := by
  have hfilter := filter_hyphenate x.hyphen_not_mem_hexDigits
  rw [hyphenated, ofString?_ofList (length_hyphenate (length_hexDigits 32 x.bits.toNat)),
    ofHyphenated?]
  simp only [hfilter, ↓reduceIte, ofHex?_hexDigits]

theorem decode?_encode (x : NodeId) : decode? x.encode = some x := by
  rw [decode?, encode, Json.string?, Option.bind_some, ofString?_hyphenated]

theorem decode?_unordered : Json.Unordered decode? := fun j => by
  rw [decode?, decode?, Json.string?_unordered]

end NodeId

namespace Json

theorem nodeIds?_encode : ∀ ids : List NodeId, nodeIds? (arr (ids.map NodeId.encode)) = some ids
  | [] => rfl
  | x :: ids => by
    have ih := nodeIds?_encode ids
    rw [nodeIds?] at ih ⊢
    rw [List.map_cons, List.mapM_cons, NodeId.decode?_encode, ih]
    rfl

theorem nodeIds?_unordered : Unordered nodeIds? := fun j => by
  cases j with
  | arr items =>
    have hread : NodeId.decode? ∘ sorted = NodeId.decode? := funext NodeId.decode?_unordered
    rw [sorted_arr, nodeIds?, nodeIds?, List.mapM_map, hread]
  | _ => rfl

end Json

/-! ## Families and kinds -/

theorem Family.decode?_encode : ∀ f : Family, Family.decode? f.encode = some f
  | parameter => rfl
  | model => rfl

theorem Family.decode?_unordered : Json.Unordered Family.decode? := Json.oneOf?_unordered _

theorem ConvolutionKind.decode?_encode :
    ∀ k : ConvolutionKind, ConvolutionKind.decode? k.encode = some k
  | flux => rfl
  | norm => rfl

theorem ConvolutionKind.decode?_unordered : Json.Unordered ConvolutionKind.decode? :=
  Json.oneOf?_unordered _

namespace ModelKind

theorem decode?_encode : ∀ k : ModelKind, decode? k.encode = some k
  | additive => rfl
  | multiplicative => rfl
  | convolution k => congrArg (Option.map convolution) k.decode?_encode

/-- An absent kind is left out, and what is left out is read as absent. -/
theorem optional?_encode : ∀ k : Option ModelKind, Json.optional? decode? (k.map encode) = some k
  | none => rfl
  | some additive => rfl
  | some multiplicative => rfl
  | some (convolution k) => congrArg (Option.map some) (decode?_encode (convolution k))

theorem decode?_convolution {j : Json} {content : Option Json}
    (h : j.variant? = some ("convolution", content)) :
    decode? j = (Json.field? ConvolutionKind.decode? content).map convolution := by
  rw [decode?, h]
  rfl

theorem decode?_plain {j : Json} (h : ∀ content, j.variant? ≠ some ("convolution", content)) :
    decode? j = Json.oneOf? [("additive", additive), ("multiplicative", multiplicative)] j := by
  rw [decode?]
  split
  · rename_i content hj
    exact absurd hj (h content)
  · rfl

theorem decode?_unordered : Json.Unordered decode? := fun j => by
  by_cases h : ∃ content, j.variant? = some ("convolution", content)
  · obtain ⟨content, hj⟩ := h
    have hs : j.sorted.variant? = some ("convolution", content.map Json.sorted) := by
      rw [Json.variant?_sorted, hj, Option.map_some]
    rw [decode?_convolution hj, decode?_convolution hs, ConvolutionKind.decode?_unordered.field?]
  · rw [not_exists] at h
    have hs : ∀ content, j.sorted.variant? ≠ some ("convolution", content) := fun content hs => by
      rw [Json.variant?_sorted] at hs
      obtain ⟨⟨tag, content'⟩, hj, he⟩ := Option.map_eq_some_iff.1 hs
      cases he
      exact h content' hj
    rw [decode?_plain h, decode?_plain hs, Json.oneOf?_unordered]

end ModelKind

/-! ## Summaries -/

namespace NodeSummary

/-- The two summaries are equal, their attributes compared as maps. -/
structure Same (s t : NodeSummary) : Prop where
  id : s.id = t.id
  family : s.family = t.family
  name : s.name = t.name
  formula : s.formula = t.formula
  isOperation : s.isOperation = t.isOperation
  kind : s.kind = t.kind
  attributes : ∀ key, (s.attributes.get? key).map Json.sorted
    = (t.attributes.get? key).map Json.sorted
  operands : s.operands = t.operands

theorem Same.symm {s t : NodeSummary} (h : s.Same t) : t.Same s :=
  ⟨h.id.symm, h.family.symm, h.name.symm, h.formula.symm, h.isOperation.symm, h.kind.symm,
    fun key => (h.attributes key).symm, h.operands.symm⟩

theorem Same.trans {s t u : NodeSummary} (h : s.Same t) (h' : t.Same u) : s.Same u :=
  ⟨h.id.trans h'.id, h.family.trans h'.family, h.name.trans h'.name, h.formula.trans h'.formula,
    h.isOperation.trans h'.isOperation, h.kind.trans h'.kind,
    fun key => (h.attributes key).trans (h'.attributes key), h.operands.trans h'.operands⟩

theorem keys_fields (s : NodeSummary) :
    s.fields.map Prod.fst = fieldNames.filter fun name => name ≠ "kind" || s.kind.isSome := by
  obtain ⟨id, family, name, formula, isOperation, kind, attributes, operands⟩ := s
  cases kind <;> rfl

theorem nodup_keys_fields (s : NodeSummary) : (s.fields.map Prod.fst).Nodup := by
  rw [keys_fields]
  exact List.Nodup.filter _ (by decide)

theorem lookup_of_mem {s : NodeSummary} {name : String} {j : Json} (h : (name, j) ∈ s.fields) :
    Json.lookup name s.fields = some j :=
  (Json.lookup_eq_find name s.fields).trans ((OrderedMap.find_eq_some_iff s.nodup_keys_fields).2 h)

theorem lookup_kind (s : NodeSummary) :
    Json.lookup "kind" s.fields = s.kind.map ModelKind.encode := by
  obtain ⟨id, family, name, formula, isOperation, kind, attributes, operands⟩ := s
  cases kind <;> rfl

theorem decode?_obj (fields : List (String × Json)) : decode? (.obj fields) = (do
    some {
      id := ← Json.field? NodeId.decode? (Json.lookup "id" fields)
      family := ← Json.field? Family.decode? (Json.lookup "type" fields)
      name := ← Json.field? Json.string? (Json.lookup "name" fields)
      formula := ← Json.field? Json.string? (Json.lookup "fmt" fields)
      isOperation := ← Json.field? Json.bool? (Json.lookup "is_operation" fields)
      kind := ← Json.optional? ModelKind.decode? (Json.lookup "kind" fields)
      attributes := ← Json.field? Json.attributes? (Json.lookup "attrs" fields)
      operands := ← Json.field? Json.nodeIds? (Json.lookup "predecessors" fields) }) :=
  rfl

/-- A field of the record is read wherever it stands, and as what was written. -/
theorem field?_of_mem {α : Type} {read : Json → Option α} {s : NodeSummary}
    {fields : List (String × Json)} {name : String} {j : Json} {a : α} (hr : Json.Unordered read)
    (h : Json.Same (.obj fields) s.encode) (hm : (name, j) ∈ s.fields) (ha : read j = some a) :
    Json.field? read (Json.lookup name fields) = some a := by
  rw [← hr.field?, Json.lookup_same s.nodup_keys_fields h name, hr.field?, lookup_of_mem hm]
  exact ha

/-- Whatever is the same as a summary's record is read as an equal summary. -/
theorem decode?_same {s : NodeSummary} {j : Json} (h : Json.Same j s.encode) :
    ∃ t, decode? j = some t ∧ t.Same s := by
  obtain ⟨fields, rfl⟩ := Json.exists_obj_of_same h
  have hkey := Json.lookup_same s.nodup_keys_fields h
  have hid : Json.field? NodeId.decode? (Json.lookup "id" fields) = some s.id :=
    field?_of_mem NodeId.decode?_unordered h (by simp [NodeSummary.fields]) s.id.decode?_encode
  have hfamily : Json.field? Family.decode? (Json.lookup "type" fields) = some s.family :=
    field?_of_mem Family.decode?_unordered h (by simp [NodeSummary.fields])
      s.family.decode?_encode
  have hname : Json.field? Json.string? (Json.lookup "name" fields) = some s.name :=
    field?_of_mem Json.string?_unordered h (j := .str s.name) (by simp [NodeSummary.fields]) rfl
  have hformula : Json.field? Json.string? (Json.lookup "fmt" fields) = some s.formula :=
    field?_of_mem Json.string?_unordered h (j := .str s.formula) (by simp [NodeSummary.fields]) rfl
  have hoperation :
      Json.field? Json.bool? (Json.lookup "is_operation" fields) = some s.isOperation :=
    field?_of_mem Json.bool?_unordered h (j := .bool s.isOperation)
      (by simp [NodeSummary.fields]) rfl
  have hkind : Json.optional? ModelKind.decode? (Json.lookup "kind" fields) = some s.kind := by
    rw [← ModelKind.decode?_unordered.optional?, hkey, ModelKind.decode?_unordered.optional?,
      lookup_kind, ModelKind.optional?_encode]
  have hoperands :
      Json.field? Json.nodeIds? (Json.lookup "predecessors" fields) = some s.operands :=
    field?_of_mem Json.nodeIds?_unordered h (by simp [NodeSummary.fields])
      (Json.nodeIds?_encode s.operands)
  have hattrs := hkey "attrs"
  rw [lookup_of_mem (j := .ofAttributes s.attributes) (by simp [NodeSummary.fields])] at hattrs
  obtain ⟨c, hc, hsame⟩ := Option.map_eq_some_iff.1 hattrs
  obtain ⟨a, ha, hget⟩ := Json.attributes?_same hsame
  refine ⟨{ s with attributes := a }, ?_, ⟨rfl, rfl, rfl, rfl, rfl, rfl, hget, rfl⟩⟩
  rw [decode?_obj, hid, hfamily, hname, hformula, hoperation, hkind, hoperands, hc]
  simp only [Json.field?, Option.bind_some, ha]
  rfl

/-- Equal summaries, and no others, have the same record. -/
theorem same_encode_iff {s t : NodeSummary} : Json.Same s.encode t.encode ↔ s.Same t := by
  constructor
  · intro h
    obtain ⟨u, hu, hut⟩ := decode?_same h
    obtain ⟨u', hu', hus⟩ := decode?_same (s := s) rfl
    obtain rfl := Option.some.inj (hu.symm.trans hu')
    exact hus.symm.trans hut
  · intro h
    have hattrs : (Json.ofAttributes s.attributes).sorted
        = (Json.ofAttributes t.attributes).sorted := Json.ofAttributes_same_iff.2 h.attributes
    simp only [Json.Same, encode, fields, Json.sorted_obj, List.map_append, List.map_cons,
      List.map_nil, h.id, h.family, h.name, h.formula, h.isOperation, h.kind, h.operands, hattrs]

end NodeSummary

/-- The record of a node's summary has all fields but, for a parameter, its kind. It is read back as
an equal summary, in whatever order its fields stand, and no unequal summary has the same record. -/
theorem Node.summary_read_back {V : Type} (edits : Edits) (n : Node V) :
    (∃ fields, (n.summary edits).encode = .obj fields ∧ fields.map Prod.fst
      = NodeSummary.fieldNames.filter fun name => name ≠ "kind" ∨ n.family = .model) ∧
    (∀ j, Json.Same j (n.summary edits).encode →
      ∃ s, NodeSummary.decode? j = some s ∧ s.Same (n.summary edits)) ∧
    ∀ s t : NodeSummary, Json.Same s.encode t.encode ↔ s.Same t := by
  refine ⟨⟨_, rfl, ?_⟩, fun j => NodeSummary.decode?_same,
    fun s t => NodeSummary.same_encode_iff⟩
  rw [NodeSummary.keys_fields]
  cases n <;> rfl

namespace Recorded

/-- A norm convolution with an attribute that is called like a field of the record. -/
def smear : Node Float :=
  .model (.leaf ⟨.fresh 0, "Smear", "S", .ofList [("unit", .str "keV"),
    ("kind", .obj [("order", .int 2), ("axes", .arr [.null, .bool true])])],
    ⟨.convolution .norm, ∅, .normConvolution fun _ source grid _ _ => source grid⟩⟩)

/-- Its record, in the order of the names. -/
def record : Json :=
  .obj [("attrs", .obj [("kind", .obj [("axes", .arr [.null, .bool true]), ("order", .int 2)]),
      ("unit", .str "keV")]),
    ("fmt", .str "S"), ("id", .str "9e3779b9-7f4a-7c15-f39c-c0605cedc835"),
    ("is_operation", .bool false), ("kind", .obj [("convolution", .str "norm")]),
    ("name", .str "Smear"), ("predecessors", .arr []), ("type", .str "model")]

end Recorded

open Recorded in
theorem Node.summary_read_back_recorded : Json.Same record (smear.summary ∅).encode ∧
    ∃ s, NodeSummary.decode? record = some s ∧ s.Same (smear.summary ∅) := by
  have h : Json.Same record (smear.summary ∅).encode := rfl
  exact ⟨h, (summary_read_back ∅ smear).2.1 record h⟩

end SpectralAlgebra
