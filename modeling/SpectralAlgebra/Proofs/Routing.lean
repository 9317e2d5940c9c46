import SpectralAlgebra.Proofs.Equations
import SpectralAlgebra.Proofs.Interpreter
import SpectralAlgebra.Proofs.Introspection

/-!
# Parameters reach their components

A parameter's value is found under the component's resolved name, which three translations have to
agree on: the one that keys the parameter values, the one that named the evaluator when it was
compiled, and the label space that is consulted later. Where resolved names are distinct they do,
and every function of a leaf is called with the leaf's own parameters and their values, with no
other entry, on the main grid as on every grid that a norm convolution asks for.

That is said by the interpreter, which looks nothing up and calls each leaf's function with values
that are given for the leaf: a compiled model evaluates to what its tree is interpreted as, with the
current defaults of the leaf's own parameters or with the values that a replay found for them
(`CompiledModel.routes_parameters`).
-/

namespace SpectralAlgebra

variable {V : Type}

/-- No two leaves are shown under one name. -/
def Model.NamedApart (edits : Edits) (m : Model V) : Prop :=
  ∀ l ∈ m.leaves, ∀ l' ∈ m.leaves,
    m.componentName edits l = m.componentName edits l' → l = l'

namespace CompiledModel

variable {edits edits₀ : Edits} {options : CompileOptions}

/-- Under the parameter values, the compiled model gives what its tree is interpreted as when every
leaf's function is called with the leaf's own values. A flux source that is handed in is asked under
the given ones. -/
def Routes [Add V] [Mul V] (edits : Edits) (c : CompiledModel V) (params : ParamValues V)
    (own : Leaf (ModelData V) → Params V) : Prop :=
  ∀ grid flux? source?, c.evaluateWith params grid flux? source? =
    if grid.length < 2 then .error (.degenerateGrid grid.length)
    else c.model.interpret c.options.checkShapes (c.model.componentName edits)
      (fun m => substitute m.name (c.labels.mapping edits .name)) own flux?
      (source?.map fun source => source params) grid

theorem Later.routes [Add V] [Mul V] {m : Model V} {c c' : CompiledModel V} (hc : c.Later c')
    (h : make edits₀ m options = .ok c) (hm : m.Constructible) {params : ParamValues V}
    {own : Leaf (ModelData V) → Params V} (hown : ∀ l ∈ m.leaves,
      lookupParams (m.componentName edits l) l.data.parameters.keys params = .ok (own l)) :
    c'.Routes edits params own := by
  obtain ⟨hr, hev⟩ := hc.compiled h edits
  obtain rfl : c'.model = m := hc.model_eq.trans (model_of_make h)
  have hanswers := Model.compile_interpreted hm.wellKinded
    (fun l hl => Model.get?_of_reached hr hl) hown hev
  intro grid flux? source?
  exact ite_congr rfl (fun _ => rfl) fun _ => hanswers grid flux? source?

section

variable {m : Model Float} {c c' : CompiledModel Float} (hc : c.Later c')
  (h : make edits₀ m options = .ok c) (hm : m.Constructible) (ha : m.NamedApart edits)
include hc h hm ha

theorem routes_valuesWith (value : Parameter → Float) :
    c'.Routes edits (c'.valuesWith edits value) fun l => l.data.parameters.mapValues value := by
  refine hc.routes h hm fun l hl => ?_
  obtain ⟨hr, -⟩ := hc.compiled h edits
  obtain rfl : c'.model = m := hc.model_eq.trans (model_of_make h)
  have hget : (c'.valuesWith edits value).get? (c'.model.componentName edits l)
      = some (l.data.parameters.mapValues value) := by
    rw [← resolve_eq hr hl]
    refine get?_reported (fun ps => ps.mapValues value) hl fun l' hl' hn => ?_
    rw [resolve_eq hr hl, resolve_eq hr hl'] at hn
    exact ha l' hl' l hl hn
  refine lookupParams_of_get? hget fun name hn => ?_
  rwa [OrderedMap.keys_mapValues]

/-- Where no two leaves are shown under one name, every function of a leaf is called with the
parameters that the leaf declares and nothing else: under the default values with their current
defaults, and under the values found for samples with those that a replay gives to their names. -/
theorem routes_parameters :
    c'.Routes edits (c'.defaults edits)
      (fun l => l.data.parameters.mapValues (Parameter.valueOf edits.defaultOf)) ∧
    ∀ samples params, c'.paramValues edits samples = .ok params →
      ∃ values value, c'.site.replay samples = .ok values ∧
        (∀ l ∈ m.leaves, ∀ p ∈ l.data.parameters.values, values.get? p.name = some (value p)) ∧
        c'.Routes edits params fun l => l.data.parameters.mapValues value := by
  refine ⟨?_, fun samples params hp => ?_⟩
  · rw [← funext (Parameter.default_eq edits)]
    exact routes_valuesWith hc h hm ha _
  · obtain ⟨values, hreplay, -⟩ := Except.bind_eq_ok.1 hp
    obtain rfl := Except.ok.inj ((paramValues_eq_valuesWith edits hreplay).symm.trans hp)
    refine ⟨values, fun p => (values.get? p.name).getD 0, hreplay, fun l hl p hpl => ?_,
      routes_valuesWith hc h hm ha _⟩
    obtain rfl : c'.model = m := hc.model_eq.trans (model_of_make h)
    obtain ⟨x, hx⟩ := Model.exists_replayed hreplay (Model.declared_mem_parameterParts hl hpl)
    simp only [hx, Option.getD_some]

end

namespace Smeared

def norm (k : Nat) (x : Float) : Leaf ParameterData :=
  ⟨.fresh k, "K", "K", ∅, ⟨x, .distribution (.uniform 0 10), none⟩⟩

def line (k : Nat) (x : Float) : Leaf (ModelData Float) :=
  ⟨.fresh k, "a", "a", ∅, .additive, .singleton "norm" (.leaf (norm (k + 1) x)),
    .additive fun _ grid own => grid.tail.map (· * (own.get? "norm").getD 0)⟩

/-- A norm convolution that asks for the flux on a wider grid. -/
def smear : Leaf (ModelData Float) :=
  ⟨.fresh 4, "smear", "s", ∅, .convolution .norm, ∅,
    .normConvolution fun _ source grid _ _ => (source (0 :: grid)).map List.tail⟩

/-- Two lines named `a`, the first of them twice. -/
def smeared : Model Float :=
  .op (.fresh 7) .mul ⟨.additive, .normAdd⟩ (.leaf smear)
    (.op (.fresh 6) .add ⟨.additive, .addAdd⟩
      (.op (.fresh 5) .add ⟨.additive, .addAdd⟩ (.leaf (line 0 2)) (.leaf (line 2 3)))
      (.leaf (line 0 2)))

def space : LabelSpace Float := .make ∅ (.model smeared)

/-- The first line has got another default. -/
def edited : Edits := { defaults := .singleton (.fresh 1) 5 }

def samples : Site.Values := .ofList [((norm 1 2).taggedName, 7), ((norm 3 3).taggedName, 4)]

theorem constructible : smeared.Constructible := by
  have hsmear : Model.Constructible (.leaf smear) := .leaf rfl (by decide)
  have hline : ∀ k x, Model.Constructible (.leaf (line k x)) := fun k x => .leaf rfl nofun
  have hsum : Model.Constructible _ := .combine (hline 0 2) (hline 2 3)
    (show Model.combine (.fresh 5) .add _ _ = .ok _ from rfl)
  have hlines : Model.Constructible _ := .combine hsum (hline 0 2)
    (show Model.combine (.fresh 6) .add _ _ = .ok _ from rfl)
  exact .combine hsmear hlines (show Model.combine (.fresh 7) .mul _ _ = .ok smeared from rfl)

theorem covers : ∀ l ∈ smeared.leaves, l.taggedName ∈ (space.mapping ∅ .name).keys := by
  decide +kernel

theorem namedApart : smeared.NamedApart edited := by
  have hleaves : ∀ l ∈ smeared.leaves, l = if l.id = .fresh 4 then smear else
      if l.id = .fresh 0 then line 0 2 else line 2 3 := by
    change ∀ l ∈ [smear, line 0 2, line 2 3, line 0 2], _
    simp only [List.forall_mem_cons, List.not_mem_nil, false_implies, implies_true, and_true]
    exact ⟨rfl, rfl, rfl, rfl⟩
  have hid : ∀ l ∈ smeared.leaves, ∀ l' ∈ smeared.leaves,
      smeared.componentName edited l = smeared.componentName edited l' → l.id = l'.id := by
    decide +kernel
  intro l hl l' hl' h
  rw [hleaves l hl, hleaves l' hl', hid l hl l' hl' h]

theorem exists_replay : ∃ values, (Model.site smeared).replay samples = .ok values :=
  Model.exists_replay (Site.acyclic_of_not_dependsOn (Site.not_dependsOn_of_forall
    (by decide +kernel))) (by decide +kernel)

theorem get?_replayed {values : Site.Values}
    (h : (Model.site smeared).replay samples = .ok values) {n : String} {x : Float}
    (hn : n ∈ (Model.site smeared).sample.keys) (hx : samples.get? n = some x) :
    values.get? n = some x := by
  obtain ⟨prior, hprior⟩ := OrderedMap.exists_get?_iff.2 hn
  have hmere : (Model.site smeared).deterministic.keys = [] := by decide +kernel
  obtain ⟨y, hy, hg⟩ := (Site.solves_of_replay h).2.sampled n prior hprior (by simp [hmere])
  rcases hg with hg | ⟨hg, -⟩
  · rw [hy, ← hg, hx]
  · cases hg.symm.trans hx

/-- The convolution gives what it finds on the wider grid: there the sum of the three lines. -/
theorem interpret_smeared : smeared.interpret true (smeared.componentName edited)
    (fun m => substitute m.name (space.mapping edited .name))
    (fun l => l.data.parameters.mapValues (Parameter.valueOf edited.defaultOf)) none none [1, 2, 3]
      = .ok [26, 39] := by
  decide +kernel

end Smeared

open Smeared in
/-- Both places of the first line have the new default, and the second line its own. Values given
for the samples are routed as well. -/
theorem routes_parameters_smeared : smeared.Constructible ∧ smeared.NamedApart edited ∧
    ∃ c, make ∅ smeared {} = .ok c ∧
      c.evaluateWith (c.defaults edited) [1, 2, 3] none none = .ok [26, 39] ∧
      ∃ params value, c.paramValues edited samples = .ok params ∧
        (c.Routes edited params fun l => l.data.parameters.mapValues value) ∧
        value (.leaf (norm 1 2)) = 7 ∧ value (.leaf (norm 3 3)) = 4 := by
  obtain ⟨ev, hev⟩ := Model.exists_compile {} covers
  have hc := make_eq_ok.2 ⟨ev, hev, rfl⟩
  obtain ⟨hdefaults, hsamples⟩ := routes_parameters .refl hc constructible namedApart
  obtain ⟨values, hr⟩ := exists_replay
  have hp := paramValues_eq_valuesWith (c := ⟨smeared, space, ev, {}⟩) edited hr
  obtain ⟨values', value, hr', hvalue, hroutes⟩ := hsamples samples _ hp
  obtain rfl := Except.ok.inj (hr'.symm.trans hr)
  have hfirst := hvalue (line 0 2) (.tail _ (.head _)) (.leaf (norm 1 2)) (.head _)
  have hsecond := hvalue (line 2 3) (.tail _ (.tail _ (.head _))) (.leaf (norm 3 3)) (.head _)
  have hsampled : (norm 1 2).taggedName ∈ (Model.site smeared).sample.keys ∧
      (norm 3 3).taggedName ∈ (Model.site smeared).sample.keys := by
    decide +kernel
  have hgiven : samples.get? (norm 1 2).taggedName = some 7 ∧
      samples.get? (norm 3 3).taggedName = some 4 := by
    decide +kernel
  refine ⟨constructible, namedApart, _, hc, ?_, _, value, hp, hroutes, ?_, ?_⟩
  · exact (hdefaults [1, 2, 3] none none).trans interpret_smeared
  · exact Option.some.inj (hfirst.symm.trans (get?_replayed hr hsampled.1 hgiven.1))
  · exact Option.some.inj (hsecond.symm.trans (get?_replayed hr hsampled.2 hgiven.2))

end CompiledModel

end SpectralAlgebra
