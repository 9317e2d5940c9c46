import SpectralAlgebra.Proofs.Completeness
import SpectralAlgebra.Proofs.Rekeying

/-!
# What a compiled model says of itself

The components of a compiled model, the sites of its parameters, its defaults and the values found
for samples are four passes over its leaves, and leaves may be shared and may be shown under one
name. They agree all the same: the components are the leaves from left to right under the names
that the evaluator was compiled with, and the keys of the other three are these names without
repeats. Where a name is that of one leaf, the entry under it is that leaf's
(`CompiledModel.introspection_agrees`).

The three maps are made in one way, an entry for every tagged name put under the resolved one
(`CompiledModel.reported`).
-/

namespace SpectralAlgebra

variable {V : Type}

theorem Model.get?_parameters {m : Model V} {l : Leaf (ModelData V)} (hl : l ∈ m.leaves)
    (hone : ∀ l' ∈ m.leaves, l'.taggedName = l.taggedName → l' = l) :
    m.parameters.get? l.taggedName = some l.data.parameters := by
  have hk : l.taggedName ∈ m.parameters.keys := by
    rw [keys_parameters, List.mem_eraseDups]
    exact List.mem_map_of_mem hl
  obtain ⟨ps, hps⟩ := OrderedMap.exists_get?_iff.2 hk
  obtain ⟨l', hl', h⟩ := mem_parameters (OrderedMap.get?_eq_some_iff.1 hps)
  obtain ⟨hname, rfl⟩ := Prod.mk.inj h
  rw [hps, hone l' hl' hname.symm]

namespace CompiledModel

variable {β : Type} {edits : Edits} {c : CompiledModel V}

/-- No other leaf is shown under the name of this one. -/
def Sole (edits : Edits) (c : CompiledModel V) (l : Leaf (ModelData V)) : Prop :=
  ∀ l' ∈ c.model.leaves, c.resolve edits l'.taggedName = c.resolve edits l.taggedName → l' = l

theorem get?_reported (F : OrderedMap String Parameter → β) {l : Leaf (ModelData V)}
    (hl : l ∈ c.model.leaves) (hone : c.Sole edits l) :
    (c.reported edits F).get? (c.resolve edits l.taggedName) = some (F l.data.parameters) := by
  refine OrderedMap.get?_insertAll_of_forall (fun entry hentry hk => ?_) (.inl ?_)
  · obtain ⟨e, he, rfl⟩ := List.mem_map.1 hentry
    obtain ⟨l', hl', rfl⟩ := Model.mem_parameters he
    rw [hone l' hl' hk]
  · have hp := Model.get?_parameters hl fun l' hl' hn => hone l' hl' (congrArg _ hn)
    rw [List.map_map]
    exact List.mem_map.2 ⟨_, OrderedMap.get?_eq_some_iff.1 hp, rfl⟩

/-- The keys are the components without repeats, and under a name that only one leaf is shown under
stand the names of the parameters that the leaf declares, in their order. -/
structure Keyed (edits : Edits) (c : CompiledModel V)
    (report : OrderedMap String (OrderedMap String β)) : Prop where
  keys_eq : report.keys = (c.components edits).eraseDups
  own_keys : ∀ l ∈ c.model.leaves, c.Sole edits l →
    ∃ own, report.get? (c.resolve edits l.taggedName) = some own ∧
      own.keys = l.data.parameters.keys

theorem keyed_reported (f : Parameter → β) :
    c.Keyed edits (c.reported edits fun ps => ps.mapValues f) :=
  ⟨keys_reported _, fun _ hl hone => ⟨_, get?_reported _ hl hone, OrderedMap.keys_mapValues ..⟩⟩

theorem keyed_paramValues {samples : Site.Values} {params : ParamValues Float}
    (h : c.paramValues edits samples = .ok params) : c.Keyed edits params := by
  obtain ⟨values, hreplay, -⟩ := Except.bind_eq_ok.1 h
  obtain rfl := Except.ok.inj (h.symm.trans (paramValues_eq_valuesWith edits hreplay))
  exact keyed_reported _

theorem name_mem_site_of_mem_parameters {sites : OrderedMap String String}
    (hs : sites ∈ (c.parameters edits).values) {name : String} (hn : name ∈ sites.values) :
    name ∈ c.site.sample.keys ∨ name ∈ c.site.deterministic.keys := by
  obtain ⟨entry, hentry, rfl⟩ := List.mem_map.1 hs
  obtain ⟨e, he, rfl⟩ := List.mem_map.1 (OrderedMap.mem_of_mem_entries_ofList hentry)
  obtain ⟨n, hparameter, rfl⟩ := List.mem_map.1 hn
  obtain ⟨p, hp, rfl⟩ := List.mem_map.1 hparameter
  exact (Model.site_covers c.model).name_mem (Model.mem_parameterParts_of_mem_parameters he hp)

theorem get?_resolve (hr : c.labels.Reached (.model c.model)) {l : Leaf (ModelData V)}
    (hl : l ∈ c.model.leaves) :
    (c.labels.mapping edits .name).get? l.taggedName = some (c.resolve edits l.taggedName) := by
  rw [resolve_eq hr hl, Model.get?_of_reached hr hl]

/-- What a compiled model says of its components and parameters is what its evaluator asks for. -/
structure Introspects [Add V] [Mul V] (edits : Edits) (c : CompiledModel V) : Prop where
  /-- The components are the leaves, under the names that the evaluator was compiled with. -/
  components_eq : ∃ mapping, Model.compile mapping c.options c.model = .ok c.evaluator ∧
    c.model.leaves.map (fun l => mapping.get? l.taggedName) = (c.components edits).map some
  asks_all : ∀ params grid flux? source? values,
    c.evaluator.call params grid flux? source? = .ok values → ∀ l ∈ c.model.leaves,
      l.data.parameters.keys ≠ [] → ∃ own,
        params.get? (c.resolve edits l.taggedName) = some own ∧
          ∀ name ∈ l.data.parameters.keys, name ∈ own.keys
  asks_only : ∀ params params',
    (∀ name ∈ c.components edits, params.get? name = params'.get? name) →
      ∀ grid flux? source?, (∀ source ∈ source?, source params = source params') →
        c.evaluator.call params grid flux? source? = c.evaluator.call params' grid flux? source?
  parameters : c.Keyed edits (c.parameters edits)
  defaults : c.Keyed edits (c.defaults edits)
  paramValues : ∀ samples params, c.paramValues edits samples = .ok params → c.Keyed edits params
  sites_found : ∀ sites ∈ (c.parameters edits).values, ∀ name ∈ sites.values,
    name ∈ c.site.sample.keys ∨ name ∈ c.site.deterministic.keys

/-- Whatever was read and edited since a model was compiled, its components, the sites and the
values of its parameters are reported under the names that its evaluator looks them up by, also
where leaves share these names. -/
theorem introspection_agrees [Add V] [Mul V] {m : Model V} {c c' : CompiledModel V}
    {edits₀ : Edits} {options : CompileOptions} (hc : c.Later c')
    (h : make edits₀ m options = .ok c) (edits : Edits) : c'.Introspects edits := by
  obtain ⟨hr, hev⟩ := hc.compiled h edits
  constructor
  · refine ⟨_, hev, ?_⟩
    rw [components, Model.components, List.map_map, List.map_map]
    exact List.map_congr_left fun l hl => get?_resolve hr hl
  · intro params grid flux? source? values hvalue l hl hd
    exact Model.supplied_of_hasValue hev ⟨grid, flux?, source?, values, hvalue⟩ l hl _
      (get?_resolve hr hl) hd
  · intro params params' hsame grid flux? source? hsource
    refine Model.call_eq_of_same hev (fun l hl component hcomponent => ?_) grid flux? hsource
    obtain rfl := Option.some.inj ((get?_resolve hr hl).symm.trans hcomponent)
    exact hsame _ (List.mem_map_of_mem (List.mem_map_of_mem hl))
  · exact keyed_reported _
  · exact keyed_reported _
  · exact fun samples params hp => keyed_paramValues hp
  · exact fun sites hs name hn => name_mem_site_of_mem_parameters hs hn

namespace Repeated

def quantity (k : Nat) : Parameter := .leaf ⟨.fresh k, "K", "K", ∅, ⟨1, .fixed 1, none⟩⟩

def product : Parameter := .combine (.fresh 9) .mul (quantity 7) (quantity 8)

def line (k : Nat) (name : String) : Leaf (ModelData Float) :=
  ⟨.fresh k, name, name, ∅, .additive, .singleton "norm" (quantity (k + 1)),
    .additive fun _ grid own => grid.tail.map (· * (own.get? "norm").getD 0)⟩

def power : Leaf (ModelData Float) :=
  ⟨.fresh 6, "b", "b", ∅, .additive, ⟨[("slope", quantity 7), ("norm", product)], by decide⟩,
    .additive fun _ grid _ => grid.tail⟩

/-- Lines named `a`, `a2` and `a`, a leaf named `b`, and the first of the lines again. -/
def sum : Model Float :=
  .op (.fresh 13) .add ⟨.additive, .addAdd⟩
    (.op (.fresh 11) .add ⟨.additive, .addAdd⟩
      (.op (.fresh 10) .add ⟨.additive, .addAdd⟩ (.leaf (line 0 "a")) (.leaf (line 2 "a2")))
      (.leaf (line 4 "a")))
    (.op (.fresh 12) .add ⟨.additive, .addAdd⟩ (.leaf power) (.leaf (line 0 "a")))

def space : LabelSpace Float := .make ∅ (.model sum)

theorem covers : ∀ l ∈ sum.leaves, l.taggedName ∈ (space.mapping ∅ .name).keys := by
  decide +kernel

theorem components_sum (ev : Evaluator Float) :
    components ∅ ⟨sum, space, ev, {}⟩ = ["a", "a2", "a2", "b", "a"] := by
  have hnames : (Model.components sum).map
      (fun tagged => (space.resolve? ∅ .name tagged).getD tagged)
        = ["a", "a2", "a2", "b", "a"] := by
    decide +kernel
  exact hnames

theorem sole_power (ev : Evaluator Float) : Sole ∅ ⟨sum, space, ev, {}⟩ power := by
  have hother : ∀ l ∈ [line 0 "a", line 2 "a2", line 4 "a"],
      (space.resolve? ∅ .name l.taggedName).getD l.taggedName
        ≠ (space.resolve? ∅ .name power.taggedName).getD power.taggedName := by
    decide +kernel
  have hleaves : ∀ l ∈ sum.leaves, l = power ∨ l ∈ [line 0 "a", line 2 "a2", line 4 "a"] := by
    change ∀ l ∈ [line 0 "a", line 2 "a2", line 4 "a", power, line 0 "a"], _
    simp
  intro l hl h
  exact (hleaves l hl).resolve_right fun hl => hother l hl h

theorem exists_replay : ∃ values, (Model.site sum).replay ∅ = .ok values :=
  Model.exists_replay (Site.acyclic_of_not_dependsOn (Site.not_dependsOn_of_forall
    (by decide +kernel))) (by decide +kernel)

end Repeated

open Repeated in
/-- The third leaf is shown as the second is, and there is one entry for both. -/
theorem introspection_agrees_repeated : ∃ c, make ∅ sum {} = .ok c ∧ c.Introspects ∅ ∧
    c.components ∅ = ["a", "a2", "a2", "b", "a"] ∧ (c.parameters ∅).keys = ["a", "a2", "b"] ∧
    ∃ params own, c.paramValues ∅ ∅ = .ok params ∧ params.keys = ["a", "a2", "b"] ∧
      params.get? (c.resolve ∅ power.taggedName) = some own ∧ own.keys = ["slope", "norm"] := by
  obtain ⟨ev, hev⟩ := Model.exists_compile {} covers
  have hc := make_eq_ok.2 ⟨ev, hev, rfl⟩
  have hi := introspection_agrees .refl hc ∅
  have hcomponents := components_sum ev
  have hnames : ["a", "a2", "a2", "b", "a"].eraseDups = ["a", "a2", "b"] := by decide
  obtain ⟨values, hr⟩ := exists_replay
  have hp := paramValues_eq_valuesWith (c := ⟨sum, space, ev, {}⟩) ∅ hr
  have hkeyed := hi.paramValues _ _ hp
  have hpower : power ∈ sum.leaves := .tail _ (.tail _ (.tail _ (.head _)))
  obtain ⟨own, hown, hkeys⟩ := hkeyed.own_keys power hpower (sole_power ev)
  refine ⟨_, hc, hi, hcomponents, ?_, _, own, hp, ?_, hown, hkeys⟩
  · exact hi.parameters.keys_eq.trans ((congrArg List.eraseDups hcomponents).trans hnames)
  · exact hkeyed.keys_eq.trans ((congrArg List.eraseDups hcomponents).trans hnames)

end CompiledModel

end SpectralAlgebra
