import SpectralAlgebra.Model

/-!
# What can be made

A leaf is made if its own data pass the checks: the default of a parameter is one that its prior
admits, the parameters of a model have different names, its kind is its generator's, and no
attribute has a reserved key (`Parameter.make_eq_ok_iff`, `Model.make_eq_ok_iff`).

A model is made as a leaf or by combining two models, so its leaves have the kind that their
generators make, and every composite the resolution that its operands' kinds allow
(`Model.Constructible.wellKinded`). Proofs about all models go by recursion on the tree from there.
-/

namespace SpectralAlgebra

/-! ## Leaves -/

theorem Except.bind_eq_ok {ε α β : Type} {x : Except ε α} {f : α → Except ε β} {b : β} :
    (x >>= f) = .ok b ↔ ∃ a, x = .ok a ∧ f a = .ok b := by
  rcases x with e | a
  · constructor
    · intro h
      cases h
    · rintro ⟨_, h, _⟩
      cases h
  · constructor
    · exact fun h => ⟨a, rfl, h⟩
    · rintro ⟨_, h, hf⟩
      cases h
      exact hf

theorem Except.check_bind_eq_ok {ε β : Type} {x : Except ε Unit} {f : Unit → Except ε β} {b : β} :
    (x >>= f) = .ok b ↔ x = .ok () ∧ f () = .ok b :=
  bind_eq_ok.trans ⟨fun ⟨_, h⟩ => h, fun h => ⟨_, h⟩⟩

theorem Except.mapError_eq_ok {ε ε' α : Type} {x : Except ε α} {f : ε → ε'} {a : α} :
    x.mapError f = .ok a ↔ x = .ok a := by
  rcases x with e | a
  · constructor <;> intro h <;> cases h
  · constructor <;> intro h <;> cases h <;> rfl

/-- A value that the prior allows: it is finite, and lies in the support or compares equal to the
constant. -/
def Prior.Admits (prior : Prior) (x : Float) : Prop :=
  x.isFinite = true ∧ match prior with
    | fixed value => (x == value) = true
    | distribution d => d.support.contains x = true

instance : ∀ (prior : Prior) (x : Float), Decidable (prior.Admits x)
  | .fixed value, x => inferInstanceAs (Decidable (x.isFinite = true ∧ (x == value) = true))
  | .distribution d, x =>
    inferInstanceAs (Decidable (x.isFinite = true ∧ d.support.contains x = true))

theorem Prior.check_eq_ok_iff {prior : Prior} {name : String} {x : Float} :
    prior.check name x = .ok () ↔ prior.Admits x := by
  unfold check Admits
  by_cases hf : x.isFinite = true
  · rcases prior with value | d
    · by_cases hv : (x == value) = true <;> simp [hf, hv]
    · by_cases hd : d.support.contains x = true <;> simp [hf, hd, Distribution.produces]
  · simp [hf]

/-- None of the keys is one that a node keeps for itself. -/
def Unreserved (attributes : Attributes) : Prop := ∀ key ∈ reservedAttributes, key ∉ attributes.keys

instance (attributes : Attributes) : Decidable (Unreserved attributes) :=
  inferInstanceAs (Decidable (∀ key ∈ reservedAttributes, key ∉ attributes.keys))

theorem checkAttributes_eq_ok_iff {attributes : Attributes} :
    checkAttributes attributes = .ok () ↔ Unreserved attributes := by
  unfold checkAttributes Unreserved
  split
  · rename_i key hk
    have hkey := List.find?_some hk
    simp only [reduceCtorEq, false_iff]
    exact fun h => h key (List.contains_iff_mem.1 hkey) (List.mem_of_find?_eq_some hk)
  · rename_i hk
    simp only [true_iff]
    intro key hkey hmem
    exact List.find?_eq_none.1 hk key hmem (List.contains_iff_mem.2 hkey)

theorem Parameter.make_eq_ok_iff {id : NodeId} {name formula : String} {default : Float}
    {prior : Prior} {derived : Option Derived} {attributes : Attributes} {p : Parameter} :
    make id name formula default prior derived attributes = .ok p ↔
      prior.Admits default ∧ Unreserved attributes ∧
        p = .leaf ⟨id, name, formula, attributes, ⟨default, prior, derived⟩⟩ := by
  simp only [make, Except.check_bind_eq_ok, Except.mapError_eq_ok, Prior.check_eq_ok_iff,
    checkAttributes_eq_ok_iff, Except.ok.injEq, eq_comm (b := p)]

namespace Model

variable {V : Type}

/-- Names are declared if they are new and differ, and stand in the order they come in. -/
theorem declare_eq_ok_iff {model : String} :
    ∀ {parameters : List (String × Parameter)} {before declared : OrderedMap String Parameter},
      declare model parameters before = .ok declared ↔
        ((before.entries ++ parameters).map Prod.fst).Nodup ∧
          declared.entries = before.entries ++ parameters
  | [], before, declared => by
    simp only [declare, Except.ok.injEq, List.append_nil, before.nodup_keys, true_and]
    exact ⟨fun h => h ▸ rfl, fun h => (OrderedMap.ext_entries h).symm⟩
  | (name, p) :: rest, before, declared => by
    by_cases hc : before.contains name = true
    · have hmem : name ∈ before.keys := OrderedMap.contains_iff.1 hc
      rw [declare, if_pos hc]
      refine ⟨fun h => (nomatch h), fun h => ?_⟩
      have hn := h.1
      rw [List.map_append, List.nodup_append] at hn
      exact absurd rfl (hn.2.2 name hmem name List.mem_cons_self)
    · have hmem : name ∉ before.keys := fun h => hc (OrderedMap.contains_iff.2 h)
      have hentries : (before.insert name p).entries = before.entries ++ [(name, p)] :=
        OrderedMap.write_of_notMem hmem
      rw [declare, if_neg hc, declare_eq_ok_iff, hentries, List.append_assoc, List.singleton_append]

theorem make_eq_ok_iff {id : NodeId} {name formula : String} {kind : ModelKind}
    {parameters : List (String × Parameter)} {generator : Generator V} {attributes : Attributes}
    {m : Model V} : make id name formula kind parameters generator attributes = .ok m ↔
      generator.kind = kind ∧ Unreserved attributes ∧ ∃ hn : (parameters.map Prod.fst).Nodup,
        m = .leaf ⟨id, name, formula, attributes, ⟨kind, ⟨parameters, hn⟩, generator⟩⟩ := by
  unfold make
  split
  · rename_i hk
    refine ⟨fun h => ?_, fun h => absurd h.1 hk⟩
    cases h
  · rename_i hk
    rw [ne_eq, Decidable.not_not] at hk
    simp only [hk, true_and]
    refine Except.bind_eq_ok.trans ⟨?_, ?_⟩
    · rintro ⟨declared, hd, h⟩
      rw [Except.check_bind_eq_ok, Except.mapError_eq_ok, checkAttributes_eq_ok_iff] at h
      obtain ⟨hn, hentries⟩ := declare_eq_ok_iff.1 hd
      obtain rfl : declared = ⟨parameters, hn⟩ := OrderedMap.ext_entries hentries
      exact ⟨h.1, hn, (Except.ok.inj h.2).symm⟩
    · rintro ⟨ha, hn, rfl⟩
      refine ⟨⟨parameters, hn⟩, declare_eq_ok_iff.2 ⟨hn, rfl⟩, ?_⟩
      rw [Except.check_bind_eq_ok, Except.mapError_eq_ok, checkAttributes_eq_ok_iff]
      exact ⟨ha, rfl⟩

end Model

/-! ## Models -/

namespace Model

variable {V : Type}

/-- The models that making leaves and combining lead to. -/
inductive Constructible : Model V → Prop where
  | make {id : NodeId} {name formula : String} {kind : ModelKind}
      {parameters : List (String × Parameter)} {generator : Generator V} {attributes : Attributes}
      {m : Model V} (h : Model.make id name formula kind parameters generator attributes = .ok m) :
      Constructible m
  | combine {id : NodeId} {o : Operator} {lh rh m : Model V} (hl : Constructible lh)
      (hr : Constructible rh) (h : Model.combine id o lh rh = .ok m) : Constructible m

theorem Constructible.leaf {l : Leaf (ModelData V)} (hk : l.data.generator.kind = l.data.kind)
    (ha : Unreserved l.attributes) : Constructible (.leaf l) :=
  .make (make_eq_ok_iff.2 ⟨hk, ha, l.data.parameters.nodup_keys, rfl⟩)

/-- The kinds all through a model are those of its generators and those that the algebra gives. -/
def WellKinded : Model V → Prop
  | .leaf l => l.data.generator.kind = l.data.kind
  | .op _ o r lh rh =>
    WellKinded lh ∧ WellKinded rh ∧ Resolution.infer o (kind lh) (kind rh) = .ok r

theorem WellKinded.leaf {l : Leaf (ModelData V)} :
    ∀ {m : Model V}, m.WellKinded → l ∈ m.leaves → l.data.generator.kind = l.data.kind
  | .leaf l', h, hl => by
    obtain rfl := List.mem_singleton.1 hl
    exact h
  | .op _ _ _ _ _, ⟨hx, hy, _⟩, hl => (List.mem_append.1 hl).elim hx.leaf hy.leaf

theorem wellKinded_of_make {id : NodeId} {name formula : String} {kind : ModelKind}
    {parameters : List (String × Parameter)} {generator : Generator V} {attributes : Attributes}
    {m : Model V} (h : make id name formula kind parameters generator attributes = .ok m) :
    m.WellKinded := by
  obtain ⟨hk, -, -, rfl⟩ := make_eq_ok_iff.1 h
  exact hk

theorem combine_eq_ok {id : NodeId} {o : Operator} {lh rh m : Model V}
    (h : combine id o lh rh = .ok m) :
    ∃ r, Resolution.infer o lh.kind rh.kind = .ok r ∧ m = .op id o r lh rh := by
  unfold combine at h
  split at h
  · rename_i r hr
    exact ⟨r, hr, (Except.ok.inj h).symm⟩
  · cases h

theorem Constructible.wellKinded {m : Model V} (h : m.Constructible) : m.WellKinded := by
  induction h with
  | make h => exact wellKinded_of_make h
  | combine _ _ h ihl ihr =>
    obtain ⟨r, hr, rfl⟩ := combine_eq_ok h
    exact ⟨ihl, ihr, hr⟩

end Model

end SpectralAlgebra
