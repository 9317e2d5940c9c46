import Mathlib.Data.List.Forall2
import SpectralAlgebra.Proofs.Origins
import SpectralAlgebra.Proofs.Placement
import SpectralAlgebra.Proofs.Reports

/-!
# Replaying sites rebuilds the parameters

A compiled model's parameter values can be found in two ways: by evaluating every parameter's
expression, or by replaying the model's site and looking up names. Where no two origins share a
name the two agree (`CompiledModel.paramValues_eq`), so replaying the defaults gives back the
defaults.

A derived quantity needs a sample site and a composite needs names shorter than its own, so there
is no cycle (`Model.acyclic_site`). The order of evaluation then has the values of the dependencies
ready for each deterministic site, and what is written under a name is the value of every
expression of that name (`Model.replay_site`).
-/

namespace SpectralAlgebra

open Relation

namespace Site

/-- Values for the sample sites make up an assignment: every sample site has its value given, or is
left out and held at that value. -/
def Assigns (s : Site) (samples : Values) (σ : String → Float) : Prop :=
  ∀ n prior, s.sample.get? n = some prior →
    samples.get? n = some (σ n) ∨ samples.get? n = none ∧ prior.fixedValue? = some (σ n)

section Replaying

theorem replaySamples_eq {samples : Values} {σ : String → Float} :
    ∀ {entries : List (String × Prior)} {values : Values},
      (∀ e ∈ entries, sampleValue samples e.1 e.2 = .ok (σ e.1)) →
        replaySamples samples entries values
          = .ok (values.insertAll (entries.map fun e => (e.1, σ e.1)))
  | [], _, _ => rfl
  | (name, prior) :: rest, values, h => by
    have hx : sampleValue samples name prior = .ok (σ name) := h _ List.mem_cons_self
    rw [replaySamples, hx]
    exact replaySamples_eq fun e he => h e (List.mem_cons_of_mem _ he)

theorem sampleValue_eq_ok {samples : Values} {name : String} {prior : Prior} {x : Float}
    (h : samples.get? name = some x ∨ samples.get? name = none ∧ prior.fixedValue? = some x) :
    sampleValue samples name prior = .ok x := by
  rcases h with h | ⟨h, hf⟩
  · rw [sampleValue, h]
  · rw [sampleValue, h]
    simp only [hf]

theorem mem_keys_of_replaySamples {samples values' : Values} {n : String} :
    ∀ {entries : List (String × Prior)} {values : Values},
      replaySamples samples entries values = .ok values' →
        n ∈ values.keys ∨ n ∈ entries.map Prod.fst → n ∈ values'.keys
  | [], values, h, hn => by
    obtain rfl := Except.ok.inj h
    exact hn.resolve_right List.not_mem_nil
  | e :: rest, values, h, hn => by
    obtain ⟨x, -, h⟩ := Except.bind_eq_ok.1 h
    refine mem_keys_of_replaySamples h ?_
    rw [OrderedMap.mem_keys_insert]
    rcases hn with hn | hn
    · exact .inl (.inl hn)
    · exact (List.mem_cons.1 hn).imp .inr id

theorem replaySamples_assigns {s : Site} {samples : Values} {σ : String → Float}
    (h : s.Assigns samples σ) :
    ∃ values, replaySamples samples s.sample.entries ∅ = .ok values ∧
      ∀ n x, values.get? n = some x → n ∈ s.sample.keys ∧ x = σ n := by
  refine ⟨_, replaySamples_eq (σ := σ) fun e he => ?_, fun n x hx => ?_⟩
  · exact sampleValue_eq_ok (h e.1 e.2 (OrderedMap.get?_eq_some_iff.2 he))
  · have he := OrderedMap.mem_of_mem_entries_ofList (OrderedMap.get?_eq_some_iff.1 hx)
    obtain ⟨e, hmem, hp⟩ := List.mem_map.1 he
    cases hp
    exact ⟨List.mem_map.2 ⟨e, hmem, rfl⟩, rfl⟩

theorem collect_eq_ok {values : Values} :
    ∀ {names : List String}, (∀ n ∈ names, n ∈ values.keys) →
      ∃ xs, collect values names = .ok xs ∧
        List.Forall₂ (fun n x => values.get? n = some x) names xs
  | [], _ => ⟨[], rfl, .nil⟩
  | n :: rest, h => by
    obtain ⟨x, hx⟩ := OrderedMap.exists_get?_iff.2 (h n List.mem_cons_self)
    obtain ⟨xs, hxs, hf⟩ := collect_eq_ok fun m hm => h m (List.mem_cons_of_mem n hm)
    refine ⟨x :: xs, ?_, .cons hx hf⟩
    simp only [collect, hx, hxs]
    rfl

theorem mem_keys_of_replayDeterministic {s : Site} {values' : Values} {n : String} :
    ∀ {names : List String} {values : Values}, (∀ m ∈ names, m ∈ s.deterministic.keys) →
      replayDeterministic s names values = .ok values' →
        n ∈ values.keys ∨ n ∈ names → n ∈ values'.keys
  | [], values, _, h, hn => by
    obtain rfl := Except.ok.inj h
    exact hn.resolve_right List.not_mem_nil
  | m :: rest, values, hk, h, hn => by
    obtain ⟨d, hd⟩ := OrderedMap.exists_get?_iff.2 (hk m List.mem_cons_self)
    rw [replayDeterministic, hd] at h
    obtain ⟨xs, -, h⟩ := Except.bind_eq_ok.1 h
    refine mem_keys_of_replayDeterministic (fun m hm => hk m (List.mem_cons_of_mem _ hm)) h ?_
    rw [OrderedMap.mem_keys_insert]
    rcases hn with hn | hn
    · exact .inl (.inl hn)
    · exact (List.mem_cons.1 hn).imp .inr id

/-- If every dependency has a value when its turn comes, the deterministic sites all get one, and
whatever each combination keeps true of the values under their names stays true. -/
theorem replayDeterministic_eq_ok {s : Site} {P : String → Float → Prop}
    (hstep : ∀ n d xs, s.deterministic.get? n = some d → List.Forall₂ P d.dependencies xs →
      P n (d.combine xs)) :
    ∀ {names : List String} {values : Values}, (∀ n ∈ names, n ∈ s.deterministic.keys) →
      (∀ front n back, names = front ++ n :: back → ∀ d, s.deterministic.get? n = some d →
        ∀ y ∈ d.dependencies, y ∈ values.keys ∨ y ∈ front) →
      (∀ n x, values.get? n = some x → P n x) →
        ∃ values', replayDeterministic s names values = .ok values' ∧
          ∀ n x, values'.get? n = some x → P n x
  | [], values, _, _, hv => ⟨values, rfl, hv⟩
  | n :: rest, values, hk, hd, hv => by
    obtain ⟨d, hn⟩ := OrderedMap.exists_get?_iff.2 (hk n List.mem_cons_self)
    have hready : ∀ y ∈ d.dependencies, y ∈ values.keys := fun y hy =>
      (hd [] n rest rfl d hn y hy).resolve_right (by simp)
    obtain ⟨xs, hxs, hf⟩ := collect_eq_ok hready
    have hPn : P n (d.combine xs) := hstep n d xs hn (hf.imp fun y x hy => hv y x hy)
    have hd' : ∀ front m back, rest = front ++ m :: back →
        ∀ d', s.deterministic.get? m = some d' → ∀ y ∈ d'.dependencies,
          y ∈ (values.insert n (d.combine xs)).keys ∨ y ∈ front := by
      intro front m back hrest d' hm y hy
      rw [OrderedMap.mem_keys_insert]
      rcases hd (n :: front) m back (by rw [hrest, List.cons_append]) d' hm y hy with hy | hy
      · exact .inl (.inl hy)
      · exact (List.mem_cons.1 hy).imp .inr id
    have hv' : ∀ m x, (values.insert n (d.combine xs)).get? m = some x → P m x := by
      intro m x hm
      rw [OrderedMap.get?_insert] at hm
      split at hm
      · rename_i he
        cases hm
        exact he ▸ hPn
      · exact hv m x hm
    obtain ⟨values', hr, hP⟩ := replayDeterministic_eq_ok hstep
      (fun m hm => hk m (List.mem_cons_of_mem n hm)) hd' hv'
    refine ⟨values', ?_, hP⟩
    simp only [replayDeterministic, hn, hxs]
    exact hr

/-- A site whose dependencies are sites and that has no cycle is replayed from an assignment, and
what the samples have and every combination keeps is true of all its values. -/
theorem replay_eq_ok {s : Site} {P : String → Float → Prop} {samples : Values}
    {σ : String → Float} (hs : s.Assigns samples σ)
    (hdeps : ∀ {n y d}, s.deterministic.get? n = some d → y ∈ d.dependencies →
      y ∈ s.sample.keys ∨ y ∈ s.deterministic.keys)
    (hacyclic : ∀ x, ¬ TransGen s.DependsOn x x) (hsample : ∀ n ∈ s.sample.keys, P n (σ n))
    (hstep : ∀ n d xs, s.deterministic.get? n = some d → List.Forall₂ P d.dependencies xs →
      P n (d.combine xs)) :
    ∃ values, s.replay samples = .ok values ∧ ∀ n x, values.get? n = some x → P n x := by
  obtain ⟨values, hv, hσ⟩ := replaySamples_assigns hs
  obtain ⟨names, hnames⟩ := exists_order hacyclic
  obtain ⟨hperm, hordered⟩ := order_eq_ok hnames
  have hready : ∀ front n back, names = front ++ n :: back →
      ∀ d, s.deterministic.get? n = some d → ∀ y ∈ d.dependencies,
        y ∈ values.keys ∨ y ∈ front := by
    intro front n back hsplit d hn y hy
    by_cases hk : y ∈ s.deterministic.keys
    · exact .inr (hordered front n back hsplit y ⟨d, hn, hy, hk⟩)
    · exact .inl (mem_keys_of_replaySamples hv (.inr ((hdeps hn hy).resolve_right hk)))
  obtain ⟨values', hr, hP⟩ :=
    replayDeterministic_eq_ok hstep (fun n hn => hperm.mem_iff.1 hn) hready
      fun n x hx => (hσ n x hx).2 ▸ hsample n (hσ n x hx).1
  refine ⟨values', ?_, hP⟩
  unfold replay
  rw [hv, hnames]
  exact hr

/-- A replay that succeeds has a value for every site. -/
theorem mem_keys_of_replay {s : Site} {samples values : Values} {n : String}
    (h : s.replay samples = .ok values)
    (hn : n ∈ s.sample.keys ∨ n ∈ s.deterministic.keys) : n ∈ values.keys := by
  obtain ⟨sampled, hs, h⟩ := Except.bind_eq_ok.1 h
  obtain ⟨names, hnames, h⟩ := Except.bind_eq_ok.1 h
  obtain ⟨hperm, -⟩ := order_eq_ok hnames
  refine mem_keys_of_replayDeterministic (fun m hm => hperm.mem_iff.1 hm) h ?_
  exact hn.imp (fun hn => mem_keys_of_replaySamples hs (.inr hn)) fun hn => hperm.mem_iff.2 hn

end Replaying

end Site

namespace Parameter

/-- The value of an expression whose leaves have the given values. -/
def valueOf (value : Leaf ParameterData → Float) : Parameter → Float
  | .leaf l => value l
  | .op _ .add _ lh rh => valueOf value lh + valueOf value rh
  | .op _ .mul _ lh rh => valueOf value lh * valueOf value rh

/-- The value of an expression under an assignment of values to names. -/
def valueAt (σ : String → Float) : Parameter → Float := valueOf fun l => σ l.taggedName

theorem valueOf_op (value : Leaf ParameterData → Float) (id : NodeId) (o : Operator)
    (lh rh : Parameter) :
    valueOf value (.op id o () lh rh) = o.apply (valueOf value lh) (valueOf value rh) := by
  cases o <;> rfl

theorem valueOf_congr {value value' : Leaf ParameterData → Float} : ∀ {p : Parameter},
    (∀ l, .leaf l ∈ p.parts → value l = value' l) → valueOf value p = valueOf value' p
  | .leaf l, h => h l (self_mem_parts _)
  | .op id o r lh rh, h => by
    have hl : valueOf value lh = valueOf value' lh := valueOf_congr fun l hl => h l
      (by simp only [parts, List.mem_append, hl, true_or])
    have hr : valueOf value rh = valueOf value' rh := valueOf_congr fun l hl => h l
      (by simp only [parts, List.mem_append, hl, true_or, or_true])
    rw [valueOf_op, valueOf_op, hl, hr]

end Parameter

/-- The default in effect of a leaf. -/
def Edits.defaultOf (edits : Edits) (l : Leaf ParameterData) : Float :=
  (edits.defaults.get? l.id).getD l.data.default

theorem Parameter.default_eq (edits : Edits) :
    ∀ p : Parameter, default edits p = valueOf edits.defaultOf p
  | .leaf _ => rfl
  | .op _ _ _ lh rh => by
    rw [default, valueOf_op, default_eq edits lh, default_eq edits rh]

namespace Model

variable {V : Type} {m : Model V}

/-- Where names are distinct, dependencies on deterministic sites have shorter names. -/
theorem length_lt_of_dependsOn (hd : Origin.Distinct m.origins) {x y : String}
    (h : (site m).DependsOn x y) : y.length < x.length := by
  obtain ⟨d, hx, hy, hk⟩ := h
  obtain ⟨q, hq, rfl, hqd⟩ := m.site_covers.deterministic x d hx
  obtain ⟨dy, hdy⟩ := OrderedMap.exists_get?_iff.2 hk
  obtain ⟨q', hq', rfl, hqd'⟩ := m.site_covers.deterministic y dy hdy
  rcases q with l | ⟨l, dl⟩ | ⟨name, o, lhName, rhName⟩
  · simp [Origin.deterministic?] at hqd
  · -- a derived quantity depends on its leaf alone, which is no deterministic site
    cases hqd
    have hl : .leaf l ∈ m.origins :=
      Parameter.leaf_mem_origins.2 (Parameter.derived_mem_origins.1 hq).1
    obtain rfl := hd q' hq' (.leaf l) hl (List.mem_singleton.1 hy)
    simp [Origin.deterministic?] at hqd'
  · cases hqd
    obtain ⟨id, r, lh, rh, -, hn, rfl, rfl⟩ := Parameter.composite_mem_origins.1 hq
    have hlen := Parameter.length_operand_lt id o r lh rh
    rw [← hn] at hlen
    rcases List.mem_pair.1 hy with hy | hy
    · exact hy ▸ hlen.1
    · exact hy ▸ hlen.2

theorem acyclic_site (hd : Origin.Distinct m.origins) (x : String) :
    ¬ TransGen (site m).DependsOn x x :=
  Site.acyclic_of_lt (f := String.length) (fun _ _ => length_lt_of_dependsOn hd) x

theorem dependency_mem_site {n y : String} {d : DeterministicSite}
    (hn : (site m).deterministic.get? n = some d) (hy : y ∈ d.dependencies) :
    y ∈ (site m).sample.keys ∨ y ∈ (site m).deterministic.keys :=
  m.site_covers.dependency_mem operands_mem_parameterParts hn hy

/-- What replaying has to make of a name: every part of that name has the value as its own. -/
def Rebuilt (m : Model V) (σ : String → Float) (n : String) (x : Float) : Prop :=
  ∀ p ∈ m.parameterParts, p.name = n → x = Parameter.valueAt σ p

theorem rebuilt_sample (hd : Origin.Distinct m.origins) {σ : String → Float} {n : String}
    (hn : n ∈ (site m).sample.keys) : m.Rebuilt σ n (σ n) := by
  intro p hp hpn
  obtain ⟨prior, hprior⟩ := OrderedMap.exists_get?_iff.2 hn
  obtain ⟨l, hl, hln, -⟩ := m.site_covers.sample n prior hprior
  rcases p with l' | ⟨id, o, r, lh, rh⟩
  · exact congrArg σ hpn.symm
  · have hq := Parameter.composite_mem_origins.2 ⟨id, r, lh, rh, hp, rfl, rfl, rfl⟩
    cases hd _ hq _ hl (hpn.trans hln.symm)

theorem rebuilt_deterministic (hd : Origin.Distinct m.origins) {σ : String → Float} {n : String}
    {d : DeterministicSite} {xs : List Float} (hn : (site m).deterministic.get? n = some d)
    (hxs : List.Forall₂ (m.Rebuilt σ) d.dependencies xs) : m.Rebuilt σ n (d.combine xs) := by
  intro p hp hpn
  rcases p with l | ⟨id, o, r, lh, rh⟩
  · obtain ⟨q, hq, hqn, hqd⟩ := m.site_covers.deterministic n d hn
    obtain rfl := hd q hq (.leaf l) (Parameter.leaf_mem_origins.2 hp) (hqn.trans hpn.symm)
    cases hqd
  · have hq := Parameter.composite_mem_origins.2 ⟨id, r, lh, rh, hp, rfl, rfl, rfl⟩
    have hget := m.site_covers.get?_deterministic hd hq rfl
    obtain rfl := Option.some.inj (hn.symm.trans (hpn ▸ hget))
    obtain ⟨hlh, hrh⟩ := operands_mem_parameterParts hp
    rcases hxs with _ | ⟨hx, _ | ⟨hy, ⟨⟩⟩⟩
    rw [hx lh hlh rfl, hy rh hrh rfl]
    exact (Parameter.valueOf_op ..).symm

/-- A replay that succeeds has a value for every part. -/
theorem exists_replayed {samples values : Site.Values} (h : (site m).replay samples = .ok values)
    {p : Parameter} (hp : p ∈ m.parameterParts) : ∃ x, values.get? p.name = some x :=
  OrderedMap.exists_get?_iff.2 (Site.mem_keys_of_replay h (m.site_covers.name_mem hp))

/-- Replaying a site whose names are distinct gives every part the value of its expression. -/
theorem replay_site (hd : Origin.Distinct m.origins) {samples : Site.Values}
    {σ : String → Float} (hs : (site m).Assigns samples σ) :
    ∃ values, (site m).replay samples = .ok values ∧
      ∀ p ∈ m.parameterParts, values.get? p.name = some (Parameter.valueAt σ p) := by
  obtain ⟨values, hr, hrebuilt⟩ := Site.replay_eq_ok hs dependency_mem_site
    (acyclic_site hd) (fun n hn => rebuilt_sample hd hn) fun n d xs => rebuilt_deterministic hd
  refine ⟨values, hr, fun p hp => ?_⟩
  obtain ⟨x, hx⟩ := exists_replayed hr hp
  rw [hx, hrebuilt _ x hx p hp rfl]

/-- What is declared under a tagged name is declared by a leaf of that name. -/
theorem mem_parameters {e : String × OrderedMap String Parameter}
    (he : e ∈ (parameters m).entries) : ∃ l ∈ m.leaves, e = (l.taggedName, l.data.parameters) := by
  rw [parameters_eq] at he
  obtain ⟨l, hl, rfl⟩ := List.mem_map.1 (OrderedMap.mem_of_mem_entries_ofList he)
  exact ⟨l, hl, rfl⟩

theorem declared_mem_parameterParts {l : Leaf (ModelData V)} (hl : l ∈ m.leaves) {p : Parameter}
    (hp : p ∈ l.data.parameters.values) : p ∈ m.parameterParts :=
  List.mem_flatMap.2 ⟨l, hl, List.mem_flatMap.2 ⟨p, hp, Parameter.self_mem_parts p⟩⟩

theorem mem_parameterParts_of_mem_parameters {e : String × OrderedMap String Parameter}
    (he : e ∈ (parameters m).entries) {c : String × Parameter} (hc : c ∈ e.2.entries) :
    c.2 ∈ m.parameterParts := by
  obtain ⟨l, hl, rfl⟩ := mem_parameters he
  exact declared_mem_parameterParts hl (List.mem_map.2 ⟨c, hc, rfl⟩)

end Model

namespace CompiledModel

variable {V : Type}

theorem fillParameters_eq_ok {values : Site.Values} {g : String → Float} :
    ∀ {entries : List (String × String)} {filled : Params Float},
      (∀ e ∈ entries, values.get? e.2 = some (g e.2)) →
        fillParameters values entries filled
          = .ok (filled.insertAll (entries.map fun e => (e.1, g e.2)))
  | [], _, _ => rfl
  | e :: rest, filled, h => by
    have he := h e List.mem_cons_self
    simp only [fillParameters, he]
    exact fillParameters_eq_ok fun e he => h e (List.mem_cons_of_mem _ he)

theorem fillComponents_eq_ok {values : Site.Values} {g : String → Float} :
    ∀ {entries : List (String × OrderedMap String String)} {filled : ParamValues Float},
      (∀ c ∈ entries, ∀ e ∈ c.2.entries, values.get? e.2 = some (g e.2)) →
        fillComponents values entries filled
          = .ok (filled.insertAll (entries.map fun c => (c.1, c.2.mapValues g)))
  | [], _, _ => rfl
  | c :: rest, filled, h => by
    have hc : fillParameters values c.2.entries ∅ = .ok (c.2.mapValues g) := by
      rw [fillParameters_eq_ok (h c List.mem_cons_self)]
      exact congrArg _ (OrderedMap.ofList_entries (c.2.mapValues g))
    simp only [fillComponents, hc]
    exact fillComponents_eq_ok fun c hc => h c (List.mem_cons_of_mem _ hc)

theorem valuesWith_congr {c : CompiledModel V} {edits : Edits} {g g' : Parameter → Float}
    (h : ∀ p ∈ c.model.parameterParts, g p = g' p) :
    c.valuesWith edits g = c.valuesWith edits g' := by
  unfold valuesWith reported
  refine congrArg _ (List.map_congr_left fun e he => Prod.ext rfl ?_)
  exact OrderedMap.mapValues_congr fun n hn =>
    h _ (Model.mem_parameterParts_of_mem_parameters he hn)

/-- After a replay the parameters have the values that were found under their names. -/
theorem paramValues_eq_valuesWith {c : CompiledModel V} (edits : Edits)
    {samples values : Site.Values} (hr : c.site.replay samples = .ok values) :
    c.paramValues edits samples
      = .ok (c.valuesWith edits fun p => (values.get? p.name).getD 0) := by
  let g : String → Float := fun n => (values.get? n).getD 0
  have hfill : ∀ e ∈ (c.parameters edits).entries, ∀ n ∈ e.2.entries,
      values.get? n.2 = some (g n.2) := by
    intro e he n hn
    obtain ⟨e', he', rfl⟩ := List.mem_map.1 (OrderedMap.mem_of_mem_entries_ofList he)
    obtain ⟨n', hn', rfl⟩ := List.mem_map.1 hn
    have hp := Model.mem_parameterParts_of_mem_parameters he' hn'
    obtain ⟨x, hx⟩ := Model.exists_replayed hr hp
    simp only [g, hx, Option.getD_some]
  have hvalues : (c.parameters edits).mapValues (fun ps => ps.mapValues g)
      = c.valuesWith edits fun p => g p.name := by
    rw [parameters, mapValues_reported]
    exact congrArg _ (funext fun ps => OrderedMap.mapValues_mapValues ..)
  unfold paramValues
  rw [hr]
  refine (fillComponents_eq_ok hfill).trans (congrArg _ ?_)
  rw [← hvalues]
  exact OrderedMap.ofList_entries ((c.parameters edits).mapValues fun ps => ps.mapValues g)

theorem paramValues_eq_valueAt {c : CompiledModel V} (edits : Edits) {samples : Site.Values}
    {σ : String → Float} (hd : Origin.Distinct c.model.origins) (hs : c.site.Assigns samples σ) :
    c.paramValues edits samples = .ok (c.valuesWith edits (Parameter.valueAt σ)) := by
  obtain ⟨values, hr, hv⟩ := Model.replay_site hd hs
  rw [paramValues_eq_valuesWith edits hr]
  exact congrArg _ (valuesWith_congr fun p hp => by rw [hv p hp, Option.getD_some])

theorem valuesWith_defaults {c : CompiledModel V} {edits : Edits} {σ : String → Float}
    (h : ∀ l, .leaf l ∈ c.model.origins → σ l.taggedName = edits.defaultOf l) :
    c.valuesWith edits (Parameter.valueAt σ) = c.defaults edits := by
  refine valuesWith_congr fun p hp => ?_
  rw [Parameter.default_eq]
  exact Parameter.valueOf_congr fun l hl =>
    h l (Parameter.leaf_mem_origins.2 (Model.parts_subset hp hl))

/-- Where no two origins of a compiled model share a name, the parameter values are found for every
assignment of values to the sample sites: under every component's name, for each parameter that the
component declares, the value of the parameter's expression. Under the current defaults they are the
default values, in the same order. -/
theorem paramValues_eq [Add V] [Mul V] {m : Model V} {c c' : CompiledModel V} {edits₀ : Edits}
    {options : CompileOptions} (hc : c.Later c') (h : make edits₀ m options = .ok c)
    (edits : Edits) {samples : Site.Values} {σ : String → Float}
    (hd : Origin.Distinct m.origins) (hs : (Model.site m).Assigns samples σ) :
    ∃ params, c'.paramValues edits samples = .ok params ∧
      m.Reports edits (fun ps => ps.mapValues (Parameter.valueAt σ)) params ∧
      ((∀ l, .leaf l ∈ m.origins → σ l.taggedName = edits.defaultOf l) →
        params = c'.defaults edits) := by
  obtain ⟨hr, -⟩ := hc.compiled h edits
  obtain rfl : c'.model = m := hc.model_eq.trans (model_of_make h)
  exact ⟨_, paramValues_eq_valueAt edits hd hs, reports_reported hr _, valuesWith_defaults⟩

namespace Scaled

def norm : Leaf ParameterData := ⟨.fresh 0, "K", "K", ∅, ⟨2, .distribution (.uniform 0 10), none⟩⟩

def offset : Leaf ParameterData := ⟨.fresh 1, "f", "f", ∅, ⟨3, .fixed 3, none⟩⟩

def sum : Parameter := .op (.fresh 2) .add () (.leaf norm) (.leaf offset)

def scaled : Parameter := .op (.fresh 3) .mul () sum (.leaf norm)

def component : Leaf (ModelData Float) :=
  ⟨.fresh 4, "Const", "C", ∅, .additive, .ofList [("norm", scaled), ("K", .leaf norm)],
    .additive fun _ grid _ => grid.tail⟩

def constant : Model Float := .leaf component

def assigned (n : String) : Float := if n = norm.taggedName then 5 else 3

theorem mem_origins {q : Origin} (h : q ∈ constant.origins) :
    q = .leaf norm ∨ q = .leaf offset
      ∨ q = .composite sum.name .add norm.taggedName offset.taggedName
      ∨ q = .composite scaled.name .mul sum.name norm.taggedName := by
  have ho : constant.origins = [.leaf norm, .leaf offset,
      .composite sum.name .add norm.taggedName offset.taggedName, .leaf norm,
      .composite scaled.name .mul sum.name norm.taggedName, .leaf norm] := rfl
  rw [ho] at h
  simp only [List.mem_cons, List.not_mem_nil, or_false] at h
  rcases h with h | h | h | h | h | h <;> simp [h]

theorem distinct : Origin.Distinct constant.origins := by
  have hn : [norm.taggedName, offset.taggedName, sum.name, scaled.name].Nodup := by
    decide +kernel
  simp only [List.nodup_cons, List.mem_cons, List.not_mem_nil, not_or, or_false] at hn
  obtain ⟨⟨h₁, h₂, h₃⟩, ⟨h₄, h₅⟩, h₆, -⟩ := hn
  intro a ha b hb h
  rcases mem_origins ha with rfl | rfl | rfl | rfl <;>
    rcases mem_origins hb with rfl | rfl | rfl | rfl <;>
    simp only [Origin.name, eq_self, h₁, h₂, h₃, h₄, h₅, h₆, Ne.symm h₁, Ne.symm h₂, Ne.symm h₃,
      Ne.symm h₄, Ne.symm h₅, Ne.symm h₆] at h ⊢

theorem assigns : (Model.site constant).Assigns (.singleton norm.taggedName 5) assigned := by
  have hne : norm.taggedName ≠ offset.taggedName := by decide +kernel
  intro n prior h
  obtain ⟨l, hl, rfl, rfl⟩ := (Model.site_covers constant).sample n prior h
  rcases mem_origins hl with hl | hl | hl | hl <;> cases hl
  · exact .inl (by simp [OrderedMap.get?, OrderedMap.singleton, OrderedMap.find, assigned])
  · refine .inr ⟨?_, ?_⟩
    · simp [OrderedMap.get?, OrderedMap.singleton, OrderedMap.find, hne]
    · rw [assigned, if_neg (Ne.symm hne)]
      rfl

theorem covers : ∀ l ∈ constant.leaves,
    l.taggedName ∈ ((LabelSpace.make ∅ (.model constant)).mapping ∅ .name).keys := by
  decide +kernel

end Scaled

open Scaled in
/-- The constant is left out and stands in the sum all the same. -/
theorem paramValues_eq_scaled : Origin.Distinct constant.origins ∧
    (Model.site constant).Assigns (.singleton norm.taggedName 5) assigned ∧
    ∃ c params own, make ∅ constant {} = .ok c ∧
      c.paramValues ∅ (.singleton norm.taggedName 5) = .ok params ∧ params.keys = ["Const"] ∧
      params.get? "Const" = some own ∧ own.entries = [("norm", 40), ("K", 5)] := by
  obtain ⟨ev, hev⟩ := Model.exists_compile {} covers
  have hc := make_eq_ok.2 ⟨ev, hev, rfl⟩
  obtain ⟨params, hp, hreports, -⟩ := paramValues_eq .refl hc ∅ distinct assigns
  have hname : constant.componentName ∅ component = "Const" := by decide +kernel
  have hlast : constant.ShownLast ∅ component := ⟨[], [], rfl, nofun⟩
  refine ⟨distinct, assigns, _, params, _, hc, hp, ?_, hname ▸ hreports.get?_eq _ hlast, ?_⟩
  · refine hreports.keys_eq.trans ?_
    decide +kernel
  · decide +kernel

end CompiledModel

end SpectralAlgebra
