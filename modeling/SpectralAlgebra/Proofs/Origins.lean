import SpectralAlgebra.Model

/-!
# Where the entries of a site come from

A site's names come from the parameters below a node: a leaf is sampled under its tagged name, a
derived quantity under the name that its template makes, and a composite under its rendering. The
site of a parameter or a model has an entry for each of these origins and no other entries
(`Parameter.site_covers`, `Model.site_covers`). Merging lets one origin stand for all that have its
name, so what is under a name is settled only where no two of them share it
(`Site.Covers.get?_deterministic`).
-/

namespace SpectralAlgebra

/-- What an entry of a site comes from. Of a composite only the operator and the names of the
operands count. -/
inductive Origin where
  | leaf (l : Leaf ParameterData)
  | derived (l : Leaf ParameterData) (d : Derived)
  | composite (name : String) (o : Operator) (lh rh : String)

namespace Origin

def name : Origin → String
  | leaf l => l.taggedName
  | derived l d => d.siteName l.taggedName
  | composite name .. => name

def deterministic? : Origin → Option DeterministicSite
  | leaf _ => none
  | derived l d => some ⟨[l.taggedName], d.combine⟩
  | composite _ o lh rh => some ⟨[lh, rh], o.combinator⟩

/-- No two different origins share a name. -/
def Distinct (origins : List Origin) : Prop :=
  ∀ a ∈ origins, ∀ b ∈ origins, a.name = b.name → a = b

end Origin

namespace Parameter

/-- The parts of an expression, operands before what they are operands of. -/
def parts : Parameter → List Parameter
  | .leaf l => [.leaf l]
  | .op id o r lh rh => parts lh ++ parts rh ++ [.op id o r lh rh]

/-- The origins of the entries that a parameter adds to those of its operands. -/
def ownOrigins : Parameter → List Origin
  | .leaf l => .leaf l :: l.data.derived.toList.map (.derived l)
  | .op id o r lh rh => [.composite (Expr.op id o r lh rh).name o lh.name rh.name]

def origins (ps : List Parameter) : List Origin := ps.flatMap ownOrigins

theorem self_mem_parts : ∀ p : Parameter, p ∈ p.parts
  | .leaf _ => List.mem_singleton_self _
  | .op .. => List.mem_append_right _ (List.mem_singleton_self _)

theorem parts_trans {p : Parameter} : ∀ {q r : Parameter}, q ∈ r.parts → p ∈ q.parts → p ∈ r.parts
  | _, .leaf l, hq, hp => by
    obtain rfl := List.mem_singleton.1 hq
    exact hp
  | q, .op id o r lh rh, hq, hp => by
    simp only [parts, List.mem_append, List.mem_singleton] at hq
    rcases hq with (hq | hq) | rfl
    · exact List.mem_append_left _ (List.mem_append_left _ (parts_trans hq hp))
    · exact List.mem_append_left _ (List.mem_append_right _ (parts_trans hq hp))
    · exact hp

theorem lh_mem_parts (id : NodeId) (o : Operator) (r : Unit) (lh rh : Parameter) :
    lh ∈ parts (.op id o r lh rh) :=
  List.mem_append_left _ (List.mem_append_left _ (self_mem_parts lh))

theorem rh_mem_parts (id : NodeId) (o : Operator) (r : Unit) (lh rh : Parameter) :
    rh ∈ parts (.op id o r lh rh) :=
  List.mem_append_left _ (List.mem_append_right _ (self_mem_parts rh))

theorem mem_origins {q : Origin} {ps : List Parameter} :
    q ∈ origins ps ↔ ∃ p ∈ ps, q ∈ p.ownOrigins :=
  List.mem_flatMap

theorem leaf_mem_origins {l : Leaf ParameterData} {ps : List Parameter} :
    .leaf l ∈ origins ps ↔ .leaf l ∈ ps := by
  refine mem_origins.trans ⟨?_, fun h => ⟨_, h, List.mem_cons_self⟩⟩
  rintro ⟨l' | _, hp, hq⟩
  · simp only [ownOrigins, List.mem_cons, Origin.leaf.injEq, List.mem_map, reduceCtorEq, and_false,
      exists_false, or_false] at hq
    exact hq ▸ hp
  · simp [ownOrigins] at hq

theorem derived_mem_origins {l : Leaf ParameterData} {d : Derived} {ps : List Parameter} :
    .derived l d ∈ origins ps ↔ .leaf l ∈ ps ∧ l.data.derived = some d := by
  refine mem_origins.trans ⟨?_, fun ⟨h, hd⟩ => ⟨_, h, by simp [ownOrigins, hd]⟩⟩
  rintro ⟨l' | _, hp, hq⟩
  · simp only [ownOrigins, List.mem_cons, reduceCtorEq, List.mem_map, Option.mem_toList,
      Origin.derived.injEq, false_or] at hq
    obtain ⟨d', hd, rfl, rfl⟩ := hq
    exact ⟨hp, hd⟩
  · simp [ownOrigins] at hq

theorem composite_mem_origins {name lhName rhName : String} {o : Operator} {ps : List Parameter} :
    .composite name o lhName rhName ∈ origins ps ↔ ∃ id r lh rh, .op id o r lh rh ∈ ps ∧
      name = (Expr.op id o r lh rh).name ∧ lhName = lh.name ∧ rhName = rh.name := by
  refine mem_origins.trans ⟨?_, ?_⟩
  · rintro ⟨_ | ⟨id, o', r, lh, rh⟩, hp, hq⟩
    · simp [ownOrigins] at hq
    · simp only [ownOrigins, List.mem_singleton, Origin.composite.injEq] at hq
      obtain ⟨rfl, rfl, rfl, rfl⟩ := hq
      exact ⟨id, r, lh, rh, hp, rfl, rfl, rfl⟩
  · rintro ⟨id, r, lh, rh, hp, rfl, rfl, rfl⟩
    exact ⟨_, hp, List.mem_singleton_self _⟩

/-- An operation is rendered longer than its operands. -/
theorem length_operand_lt (id : NodeId) (o : Operator) (r : Unit) (lh rh : Parameter) :
    lh.name.length < (Expr.op id o r lh rh).name.length ∧
      rh.name.length < (Expr.op id o r lh rh).name.length := by
  have henc : ∀ (p : Parameter) (label : String),
      label.length ≤ (Expr.enclose o p label).length := by
    intro p label
    unfold Expr.enclose
    split
    · simp only [String.length_append]
      omega
    · exact Nat.le_refl _
  have hl := henc lh lh.name
  have hr := henc rh rh.name
  simp only [Expr.name, Expr.render, String.length_append] at hl hr ⊢
  have : " ".length = 1 := rfl
  omega

end Parameter

/-- A site has entries for all origins, and every entry is one of theirs. -/
structure Site.Covers (s : Site) (origins : List Origin) : Prop where
  sample : ∀ n prior, s.sample.get? n = some prior →
    ∃ l, .leaf l ∈ origins ∧ l.taggedName = n ∧ l.data.prior = prior
  deterministic : ∀ n d, s.deterministic.get? n = some d →
    ∃ q ∈ origins, q.name = n ∧ q.deterministic? = some d
  leaf_mem : ∀ l, .leaf l ∈ origins → l.taggedName ∈ s.sample.keys
  other_mem : ∀ q ∈ origins, q.deterministic?.isSome → q.name ∈ s.deterministic.keys

namespace Site

theorem covers_empty : (∅ : Site).Covers [] where
  sample := fun _ _ h => by cases h
  deterministic := fun _ _ h => by cases h
  leaf_mem := fun _ h => by simp at h
  other_mem := fun _ h => by simp at h

theorem Covers.merge {s t : Site} {qs rs : List Origin} (hs : s.Covers qs) (ht : t.Covers rs) :
    (s.merge t).Covers (qs ++ rs) where
  sample := fun n prior h => by
    rw [Site.merge, OrderedMap.get?_merge, Option.or_eq_some_iff] at h
    rcases h with h | ⟨-, h⟩
    · obtain ⟨l, hl, hn⟩ := ht.sample n prior h
      exact ⟨l, List.mem_append_right _ hl, hn⟩
    · obtain ⟨l, hl, hn⟩ := hs.sample n prior h
      exact ⟨l, List.mem_append_left _ hl, hn⟩
  deterministic := fun n d h => by
    rw [Site.merge, OrderedMap.get?_merge, Option.or_eq_some_iff] at h
    rcases h with h | ⟨-, h⟩
    · obtain ⟨q, hq, hn⟩ := ht.deterministic n d h
      exact ⟨q, List.mem_append_right _ hq, hn⟩
    · obtain ⟨q, hq, hn⟩ := hs.deterministic n d h
      exact ⟨q, List.mem_append_left _ hq, hn⟩
  leaf_mem := fun l h => OrderedMap.mem_keys_merge.2 <|
    (List.mem_append.1 h).imp (hs.leaf_mem l) (ht.leaf_mem l)
  other_mem := fun q h hd => OrderedMap.mem_keys_merge.2 <|
    (List.mem_append.1 h).imp (hs.other_mem q · hd) (ht.other_mem q · hd)

theorem Covers.addDeterministic {s : Site} {qs : List Origin} (hs : s.Covers qs) {q : Origin}
    {d : DeterministicSite} (hq : q.deterministic? = some d) :
    (s.addDeterministic q.name d).Covers (qs ++ [q]) where
  sample := fun n prior h => by
    obtain ⟨l, hl, hn⟩ := hs.sample n prior h
    exact ⟨l, List.mem_append_left _ hl, hn⟩
  deterministic := fun n d' h => by
    rw [Site.addDeterministic, OrderedMap.get?_insert] at h
    split at h
    · rename_i hn
      exact ⟨q, by simp, hn.symm, hq.trans h⟩
    · obtain ⟨q', hq', hn⟩ := hs.deterministic n d' h
      exact ⟨q', List.mem_append_left _ hq', hn⟩
  leaf_mem := fun l h => by
    rcases List.mem_append.1 h with h | h
    · exact hs.leaf_mem l h
    · obtain rfl := List.mem_singleton.1 h
      cases hq
  other_mem := fun q' h hd => OrderedMap.mem_keys_insert.2 <|
    (List.mem_append.1 h).imp (hs.other_mem q' · hd) fun h => congrArg _ (List.mem_singleton.1 h)

theorem Covers.get?_deterministic {s : Site} {origins : List Origin} (h : s.Covers origins)
    (hd : Origin.Distinct origins) {q : Origin} (hq : q ∈ origins) {d : DeterministicSite}
    (hqd : q.deterministic? = some d) : s.deterministic.get? q.name = some d := by
  obtain ⟨d', hd'⟩ := OrderedMap.exists_get?_iff.2 (h.other_mem q hq (by simp [hqd]))
  obtain ⟨q', hq', hn, hqd'⟩ := h.deterministic _ _ hd'
  obtain rfl := hd q' hq' q hq hn
  rw [hd', ← hqd', hqd]

end Site

namespace Parameter

theorem origins_append (ps qs : List Parameter) : origins (ps ++ qs) = origins ps ++ origins qs :=
  List.flatMap_append

theorem sample_covers (l : Leaf ParameterData) :
    Site.Covers ⟨OrderedMap.singleton l.taggedName l.data.prior, ∅⟩ [.leaf l] where
  sample := fun n prior h => by
    have he := OrderedMap.get?_eq_some_iff.1 h
    simp only [OrderedMap.singleton, List.mem_singleton, Prod.mk.injEq] at he
    exact ⟨l, List.mem_singleton_self _, he.1.symm, he.2.symm⟩
  deterministic := fun _ _ h => by cases h
  leaf_mem := fun l' h => by
    cases List.mem_singleton.1 h
    exact List.mem_singleton_self _
  other_mem := fun q h hq => by
    cases List.mem_singleton.1 h
    simp [Origin.deterministic?] at hq

theorem site_covers : ∀ p : Parameter, (site p).Covers (origins p.parts)
  | .leaf l => by
    have hs := sample_covers l
    rcases hd : l.data.derived with _ | d
    · simpa [site, origins, parts, ownOrigins, hd] using hs
    · have h := hs.addDeterministic (q := .derived l d) rfl
      simp only [site, origins, parts, ownOrigins, hd, List.flatMap_cons, List.flatMap_nil,
        Option.toList_some, List.map_cons, List.map_nil, List.append_nil]
      exact h
  | .op id o r lh rh => by
    rw [parts, origins_append, origins_append]
    exact ((site_covers lh).merge (site_covers rh)).addDeterministic
      (q := .composite (Expr.op id o r lh rh).name o lh.name rh.name) rfl

end Parameter

namespace Site

variable {s : Site} {ps : List Parameter}

theorem Covers.name_mem (h : s.Covers (Parameter.origins ps)) {p : Parameter} (hp : p ∈ ps) :
    p.name ∈ s.sample.keys ∨ p.name ∈ s.deterministic.keys := by
  rcases p with l | ⟨id, o, r, lh, rh⟩
  · exact .inl (h.leaf_mem l (Parameter.leaf_mem_origins.2 hp))
  · exact .inr (h.other_mem (.composite (Expr.op id o r lh rh).name o lh.name rh.name)
      (Parameter.composite_mem_origins.2 ⟨id, r, lh, rh, hp, rfl, rfl, rfl⟩) rfl)

/-- Where operands come with what they are operands of, all dependencies are sites. -/
theorem Covers.dependency_mem (h : s.Covers (Parameter.origins ps))
    (hops : ∀ {id o r lh rh}, .op id o r lh rh ∈ ps → lh ∈ ps ∧ rh ∈ ps) {n y : String}
    {d : DeterministicSite} (hn : s.deterministic.get? n = some d) (hy : y ∈ d.dependencies) :
    y ∈ s.sample.keys ∨ y ∈ s.deterministic.keys := by
  obtain ⟨q, hq, rfl, hqd⟩ := h.deterministic n d hn
  rcases q with l | ⟨l, dl⟩ | ⟨name, o, lhName, rhName⟩
  · simp [Origin.deterministic?] at hqd
  · cases hqd
    obtain rfl := List.mem_singleton.1 hy
    exact h.name_mem (p := .leaf l) (Parameter.derived_mem_origins.1 hq).1
  · cases hqd
    obtain ⟨id, r, lh, rh, hp, -, rfl, rfl⟩ := Parameter.composite_mem_origins.1 hq
    obtain ⟨hlh, hrh⟩ := hops hp
    simp only [List.mem_cons, List.not_mem_nil, or_false] at hy
    rcases hy with rfl | rfl
    · exact h.name_mem hlh
    · exact h.name_mem hrh

end Site

namespace Model

variable {V : Type}

/-- Every parameter below a model: the parts of the parameters of its leaves. -/
def parameterParts (m : Model V) : List Parameter :=
  m.leaves.flatMap fun l => l.data.parameters.values.flatMap Parameter.parts

def origins (m : Model V) : List Origin := Parameter.origins m.parameterParts

theorem parameterParts_op (id : NodeId) (o : Operator) (r : Resolution) (lh rh : Model V) :
    parameterParts (.op id o r lh rh) = parameterParts lh ++ parameterParts rh :=
  List.flatMap_append

/-- The site of a model has the entries of everything below it. -/
theorem site_covers : ∀ m : Model V, (site m).Covers m.origins
  | .leaf l => by
    have key : ∀ (ps : List Parameter) (s : Site) (qs : List Origin), s.Covers qs →
        (ps.foldl (fun s p => s.merge (Parameter.site p)) s).Covers
          (qs ++ Parameter.origins (ps.flatMap Parameter.parts)) := by
      intro ps
      induction ps with
      | nil => intro s qs hs; simpa [Parameter.origins] using hs
      | cons p ps ih =>
        intro s qs hs
        rw [List.foldl_cons, List.flatMap_cons, Parameter.origins_append, ← List.append_assoc]
        exact ih _ _ (hs.merge (Parameter.site_covers p))
    have h := key l.data.parameters.values ∅ [] Site.covers_empty
    simpa [site, origins, parameterParts, Expr.leaves] using h
  | .op id o r lh rh => by
    rw [origins, parameterParts_op, Parameter.origins_append]
    exact (site_covers lh).merge (site_covers rh)

theorem parts_subset {m : Model V} {p q : Parameter} (hp : p ∈ m.parameterParts)
    (hq : q ∈ p.parts) : q ∈ m.parameterParts := by
  simp only [parameterParts, List.mem_flatMap] at hp ⊢
  obtain ⟨l, hl, p', hp', h⟩ := hp
  exact ⟨l, hl, p', hp', Parameter.parts_trans h hq⟩

theorem operands_mem_parameterParts {m : Model V} {id : NodeId} {o : Operator} {r : Unit}
    {lh rh : Parameter} (h : .op id o r lh rh ∈ m.parameterParts) :
    lh ∈ m.parameterParts ∧ rh ∈ m.parameterParts :=
  ⟨parts_subset h (Parameter.lh_mem_parts ..), parts_subset h (Parameter.rh_mem_parts ..)⟩

end Model

end SpectralAlgebra
