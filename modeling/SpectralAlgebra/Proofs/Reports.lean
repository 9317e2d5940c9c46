import SpectralAlgebra.Proofs.Rendering

/-!
# What is reported of components

A compiled model reports on its components by the names that they are shown under: the sites of
their parameters, the defaults, the values found for samples. Leaves may be shared, and different
leaves may be shown under one name. Whatever is reported of the parameters of each, the report has
every name once, where it is first met, and under it what is made of the last leaf that is shown so,
where each leaf counts as met when it is met first (`CompiledModel.reports_reported`).
-/

namespace SpectralAlgebra

variable {V : Type}

/-! ## The leaves that stand in a report -/

namespace Model

variable {β : Type} {edits : Edits} {m : Model V} {l : Leaf (ModelData V)}

/-- The leaves, each tagged name once: where it is first met, and as it is met last. -/
def distinct (m : Model V) : List (Leaf (ModelData V)) :=
  (OrderedMap.ofList (m.leaves.map fun l => (l.taggedName, l))).values

/-- No leaf behind this one is shown under its name. -/
def ShownLast (edits : Edits) (m : Model V) (l : Leaf (ModelData V)) : Prop :=
  ∃ before after, m.distinct = before ++ l :: after ∧
    ∀ l' ∈ after, m.componentName edits l' ≠ m.componentName edits l

/-- The report has the names that the leaves are shown under, and under each of them what is made of
the parameters of the last leaf that is shown so. -/
structure Reports (edits : Edits) (m : Model V) (F : OrderedMap String Parameter → β)
    (report : OrderedMap String β) : Prop where
  keys_eq : report.keys = (m.leaves.map (m.componentName edits)).eraseDups
  exists_last : ∀ l ∈ m.leaves, ∃ l', m.ShownLast edits l' ∧
    m.componentName edits l' = m.componentName edits l
  get?_eq : ∀ l, m.ShownLast edits l →
    report.get? (m.componentName edits l) = some (F l.data.parameters)

theorem mem_named {e : String × Leaf (ModelData V)}
    (h : e ∈ (OrderedMap.ofList (m.leaves.map fun l => (l.taggedName, l))).entries) :
    e.2 ∈ m.leaves ∧ e.1 = e.2.taggedName := by
  obtain ⟨l, hl, rfl⟩ := List.mem_map.1 (OrderedMap.mem_of_mem_entries_ofList h)
  exact ⟨hl, rfl⟩

theorem exists_mem_distinct (hl : l ∈ m.leaves) :
    ∃ l' ∈ m.distinct, l'.taggedName = l.taggedName := by
  have hk : l.taggedName ∈ (OrderedMap.ofList (m.leaves.map fun l => (l.taggedName, l))).keys :=
    OrderedMap.mem_keys_ofList.2 (List.mem_map_of_mem (List.mem_map_of_mem hl))
  obtain ⟨e, he, hk⟩ := List.mem_map.1 hk
  exact ⟨e.2, List.mem_map_of_mem he, (mem_named he).2.symm.trans hk⟩

theorem componentName_congr {l' : Leaf (ModelData V)} (h : l'.taggedName = l.taggedName) :
    m.componentName edits l' = m.componentName edits l := by
  obtain ⟨hname, hid⟩ := tag_inj.1 h
  exact congrArg₂ (fun raw id => LabelKind.name.resolved ((Node.model m).labelled edits .name)
    (raw, id)) hname hid

theorem exists_shownLast (hl : l ∈ m.leaves) :
    ∃ l', m.ShownLast edits l' ∧ m.componentName edits l' = m.componentName edits l := by
  let same : Leaf (ModelData V) → Bool := fun l' =>
    m.componentName edits l' = m.componentName edits l
  obtain ⟨l₀, hl₀, hname⟩ := exists_mem_distinct hl
  -- the last one is the first that is found from behind
  have hfound : (m.distinct.reverse.find? same).isSome := by
    rw [List.find?_isSome]
    exact ⟨l₀, List.mem_reverse.2 hl₀, decide_eq_true (componentName_congr hname)⟩
  obtain ⟨l', hl'⟩ := Option.isSome_iff_exists.1 hfound
  obtain ⟨hsame, after, before, hsplit, hafter⟩ := List.find?_eq_some_iff_append.1 hl'
  have hsame : m.componentName edits l' = m.componentName edits l := of_decide_eq_true hsame
  refine ⟨l', ⟨before.reverse, after.reverse, ?_, fun l'' hl'' => ?_⟩, hsame⟩
  · simpa using congrArg List.reverse hsplit
  · have hne := hafter l'' (List.mem_reverse.1 hl'')
    rw [hsame]
    simpa [same] using hne

end Model

/-! ## Reports -/

namespace CompiledModel

variable {β γ : Type} {edits : Edits} {c : CompiledModel V}

theorem resolve_eq (hr : c.labels.Reached (.model c.model)) {l : Leaf (ModelData V)}
    (hl : l ∈ c.model.leaves) : c.resolve edits l.taggedName = c.model.componentName edits l := by
  rw [resolve, LabelSpace.resolve?, Model.get?_of_reached hr hl, Option.getD_some]

theorem components_eq (hr : c.labels.Reached (.model c.model)) :
    c.components edits = c.model.leaves.map (c.model.componentName edits) := by
  rw [components, Model.components, List.map_map]
  exact List.map_congr_left fun l hl => resolve_eq hr hl

theorem reported_eq (hr : c.labels.Reached (.model c.model))
    (F : OrderedMap String Parameter → β) : c.reported edits F = .ofList
      (c.model.distinct.map fun l => (c.model.componentName edits l, F l.data.parameters)) := by
  have hparameters : c.model.parameters
      = (OrderedMap.ofList (c.model.leaves.map fun l => (l.taggedName, l))).mapValues
        fun l => l.data.parameters := by
    rw [Model.parameters_eq, OrderedMap.mapValues_ofList, List.map_map]
    rfl
  rw [reported, hparameters, Model.distinct, OrderedMap.values, OrderedMap.mapValues, List.map_map,
    List.map_map]
  refine congrArg _ (List.map_congr_left fun e he => ?_)
  obtain ⟨hl, hk⟩ := Model.mem_named he
  simp only [Function.comp_apply, hk, resolve_eq hr hl]

theorem reports_reported (hr : c.labels.Reached (.model c.model))
    (F : OrderedMap String Parameter → β) : c.model.Reports edits F (c.reported edits F) where
  keys_eq := by rw [keys_reported, components_eq hr]
  exists_last := fun _ hl => Model.exists_shownLast hl
  get?_eq := by
    rintro l ⟨before, after, hsplit, hlast⟩
    rw [reported_eq hr, hsplit, List.map_append, List.map_cons]
    refine OrderedMap.get?_ofList_of_last _ ?_
    rw [List.map_map, List.mem_map]
    rintro ⟨l', hl', hname⟩
    exact hlast l' hl' hname

theorem mapValues_reported (F : OrderedMap String Parameter → β) (f : β → γ) :
    (c.reported edits F).mapValues f = c.reported edits fun ps => f (F ps) := by
  rw [reported, OrderedMap.mapValues_ofList, List.map_map]
  rfl

end CompiledModel

end SpectralAlgebra
