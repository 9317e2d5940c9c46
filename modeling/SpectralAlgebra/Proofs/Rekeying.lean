import SpectralAlgebra.Proofs.Lockstep
import SpectralAlgebra.Proofs.Rendering
import SpectralAlgebra.Proofs.Soundness

/-!
# Component names are keys

An evaluator finds the parameter values of a component under the component's name. It uses all of
them: where it has a value every shape has asked both operands for theirs, so that no leaf has gone
without the parameters it declares. And it uses no others (`Model.uses_own_parameters`).

Nothing else hangs on the names if the functions of the leaves ignore them. Under other names an
evaluator gives the same, once its parameter values are found under these; an error may name another
component, and norm convolutions have to pass that on from their flux source
(`Model.names_are_keys`). So part of a model does alone what it does in the whole, where its
components are numbered together with others.
-/

namespace SpectralAlgebra

variable {V : Type}

/-! ## All parameters are asked for -/

theorem lookupParams_eq_ok {component : String} {declared : List String} {params : ParamValues V}
    {own : Params V} (h : lookupParams component declared params = .ok own) (hd : declared ≠ []) :
    params.get? component = some own ∧ ∀ name ∈ declared, name ∈ own.keys := by
  unfold lookupParams at h
  split at h
  · simp [hd] at h
  · split at h
    · cases h
    · rename_i values hget _ hfind
      obtain rfl := Except.ok.inj h
      refine ⟨hget, fun name hname => ?_⟩
      simpa [OrderedMap.contains_iff] using List.find?_eq_none.1 hfind name hname

/-- The evaluator has a value on some grid, with some flux and flux source. -/
def Evaluator.HasValue (params : ParamValues V) (ev : Evaluator V) : Prop :=
  ∃ grid flux? source? values, ev.call params grid flux? source? = .ok values

section

variable {params : ParamValues V}

/-- No shape has a value without one of each operand. -/
theorem Shape.operands_hasValue [Add V] [Mul V] {name label : String} {m₁ m₂ : Evaluator V} :
    ∀ {shape : Shape}, Evaluator.HasValue params ⟨name, shape.evaluation label m₁ m₂⟩ →
      m₁.HasValue params ∧ m₂.HasValue params
  | .addAdd, ⟨_, _, _, _, h⟩ | .product, ⟨_, _, _, _, h⟩ | .mulFlux, ⟨_, _, _, _, h⟩
  | .mulNorm, ⟨_, _, _, _, h⟩ => by
    simp only [Shape.evaluation, Except.bind_eq_ok] at h
    obtain ⟨xs, hx, ys, hy, -⟩ := h
    exact ⟨⟨_, _, _, _, hx⟩, ⟨_, _, _, _, hy⟩⟩
  | .fluxAdd, ⟨_, _, _, _, h⟩ | .fluxFlux, ⟨_, _, _, _, h⟩ | .fluxNorm, ⟨_, _, _, _, h⟩
  | .normAdd, ⟨_, _, _, _, h⟩ => by
    simp only [Shape.evaluation, Except.bind_eq_ok] at h
    obtain ⟨flux, hflux, h⟩ := h
    exact ⟨⟨_, _, _, _, h⟩, ⟨_, _, _, _, hflux⟩⟩
  | .fluxMul, ⟨_, _, _, _, h⟩ => by
    simp only [Shape.evaluation, Except.bind_eq_ok] at h
    obtain ⟨xs, hx, ys, -, flux, -, h⟩ := h
    exact ⟨⟨_, _, _, _, h⟩, ⟨_, _, _, _, hx⟩⟩
  | .normMul, ⟨_, _, _, _, h⟩ => by
    simp only [Shape.evaluation, Except.bind_eq_ok] at h
    obtain ⟨xs, hx, ys, -, flux, -, source, -, h⟩ := h
    exact ⟨⟨_, _, _, _, h⟩, ⟨_, _, _, _, hx⟩⟩
  | .normFlux, ⟨_, _, _, _, h⟩ => by
    simp only [Shape.evaluation, Except.bind_eq_ok] at h
    obtain ⟨source, -, flux, hflux, h⟩ := h
    exact ⟨⟨_, _, _, _, h⟩, ⟨_, _, _, _, hflux⟩⟩

theorem lookupParams_of_hasValue {check : Bool} {component : String} {d : ModelData V}
    (h : Evaluator.HasValue params ⟨component, leafEvaluation check component d⟩) :
    ∃ own, lookupParams component d.parameters.keys params = .ok own := by
  obtain ⟨grid, flux?, source?, values, h⟩ := h
  obtain ⟨kind, parameters, make | make | make | make⟩ := d
  all_goals
    simp only [leafEvaluation, Except.bind_eq_ok] at h
    obtain ⟨own, hown, -⟩ := h
    exact ⟨own, hown⟩

namespace Model

variable {mapping : OrderedMap String String} {options : CompileOptions}

theorem supplied_of_hasValue [Add V] [Mul V] : ∀ {m : Model V} {ev : Evaluator V},
    compile mapping options m = .ok ev → ev.HasValue params → m.Supplied mapping params
  | .leaf l, ev, hev, hvalue => by
    obtain ⟨component, hc, rfl⟩ := compile_leaf_eq_ok.1 hev
    obtain ⟨own, hown⟩ := lookupParams_of_hasValue hvalue
    intro l' hl' component' hc' hd
    obtain rfl := List.mem_singleton.1 hl'
    obtain rfl := Option.some.inj (hc.symm.trans hc')
    exact ⟨own, lookupParams_eq_ok hown hd⟩
  | .op id o r x y, ev, hev, hvalue => by
    obtain ⟨m₁, m₂, h₁, h₂, rfl⟩ := compile_op_eq_ok.1 hev
    obtain ⟨hvalue₁, hvalue₂⟩ := Shape.operands_hasValue hvalue
    intro l hl
    rcases List.mem_append.1 hl with hl | hl
    · exact supplied_of_hasValue h₁ hvalue₁ l hl
    · exact supplied_of_hasValue h₂ hvalue₂ l hl

end Model

end

/-! ## No others are read -/

namespace Model

theorem call_eq_of_same [Add V] [Mul V] {m : Model V} {mapping : OrderedMap String String}
    {options : CompileOptions} {ev : Evaluator V} (hev : compile mapping options m = .ok ev)
    {params params' : ParamValues V} (hsame : ∀ l ∈ m.leaves, ∀ component,
      mapping.get? l.taggedName = some component → params.get? component = params'.get? component)
    (grid : List V) (flux? : Option (List V)) {source? : Option (FluxSource V)}
    (hsource : ∀ source ∈ source?, source params = source params') :
    ev.call params grid flux? source? = ev.call params' grid flux? source? := by
  have hlock : Evaluator.Lockstep Eq params params' ev ev := by
    refine compile_lockstep (fun _ => .eq _) (fun l hl component component' hc hc' => ?_) hev hev
    obtain rfl := Option.some.inj (hc.symm.trans hc')
    exact ⟨.eq component, hsame l hl component hc, Generator.sameFor_eq component _⟩
  refine Alike.eq_iff.1 (hlock grid flux? source? source? ?_)
  cases source? with
  | none => exact .none
  | some source => exact .some fun g => Alike.eq_iff.2 (congrFun (hsource source rfl) g)

/-- An evaluator has no value unless every leaf is given all parameters that it declares, whatever
the functions of the leaves do with flux and flux sources. And entries of the parameter values that
are none of its components' make no difference, nor does the order of the entries, unless they do to
the flux source that is handed in. -/
theorem uses_own_parameters [Add V] [Mul V] (m : Model V) (mapping : OrderedMap String String)
    (options : CompileOptions) {ev : Evaluator V} (hev : compile mapping options m = .ok ev) :
    (∀ params grid flux? source? values, ev.call params grid flux? source? = .ok values →
      m.Supplied mapping params) ∧
    ∀ params params', (∀ l ∈ m.leaves, ∀ component,
      mapping.get? l.taggedName = some component → params.get? component = params'.get? component) →
        ∀ grid flux? source?, (∀ source ∈ source?, source params = source params') →
          ev.call params grid flux? source? = ev.call params' grid flux? source? :=
  ⟨fun _ grid flux? source? values h => supplied_of_hasValue hev ⟨grid, flux?, source?, values, h⟩,
    fun _ _ hsame grid flux? _ hsource => call_eq_of_same hev hsame grid flux? hsource⟩

namespace Declared

/-- The parameter values with an entry in front that belongs to no component. -/
def more : ParamValues Nat := .ofList [("B", .singleton "k" 7), ("A", .singleton "k" 5)]

theorem get?_more (component : String) (h : component ≠ "B") :
    params.get? component = more.get? component := by
  have hmore : more = (OrderedMap.singleton "B" (.singleton "k" 7)).merge params := rfl
  rw [hmore, OrderedMap.get?_merge]
  simp [OrderedMap.get?, OrderedMap.singleton, OrderedMap.find, Ne.symm h]

end Declared

/-- The entry in front is not seen, neither on the grid that is given nor where the convolution asks
for flux. -/
theorem uses_own_parameters_declared :
    ∃ ev, compile Declared.mapping {} Declared.model = .ok ev ∧
      ev.eval Declared.params [1, 2, 3] = .ok [20, 30] ∧
      Declared.model.Supplied Declared.mapping Declared.params ∧
      ∀ grid, ev.eval Declared.params grid = ev.eval Declared.more grid := by
  obtain ⟨ev, hev⟩ := exists_compile {} Declared.covers
  obtain ⟨hall, honly⟩ := uses_own_parameters Declared.model Declared.mapping {} hev
  have hvalue : ev.eval Declared.params [1, 2, 3] = .ok [20, 30] := by
    cases hev
    rfl
  have hnames : ∀ l ∈ Declared.model.leaves, Declared.mapping.get? l.taggedName ≠ some "B" := by
    decide +kernel
  refine ⟨ev, hev, hvalue, hall _ _ none none _ hvalue, fun grid =>
    honly _ _ (fun l hl component hc => ?_) grid none none nofun⟩
  refine Declared.get?_more component ?_
  rintro rfl
  exact hnames l hl hc

end Model

/-! ## Other names -/

namespace OrderedMap

variable {κ κ' α : Type}

/-- The map with every key renamed, in the same order. -/
def mapKeys (r : κ → κ') (hr : Function.Injective r) (m : OrderedMap κ α) : OrderedMap κ' α where
  entries := m.entries.map fun e => (r e.1, e.2)
  nodup_keys := by
    have h := m.nodup_keys.map hr
    rw [List.map_map] at h ⊢
    exact h

variable [DecidableEq κ] [DecidableEq κ']

theorem get?_mapKeys (r : κ → κ') (hr : Function.Injective r) (m : OrderedMap κ α) (k : κ) :
    (m.mapKeys r hr).get? (r k) = m.get? k := by
  have key : ∀ l : List (κ × α), find (r k) (l.map fun e => (r e.1, e.2)) = find k l := by
    intro l
    induction l with
    | nil => rfl
    | cons e rest ih => simp only [List.map_cons, find, hr.eq_iff, ih]
  exact key m.entries

end OrderedMap

/-- The values found under the second of two names, put under the first of them. -/
def rekey (names : List (String × String)) (params : ParamValues V) : ParamValues V :=
  .ofList (names.filterMap fun n => (params.get? n.2).map (n.1, ·))

theorem get?_rekey {names : List (String × String)} {params : ParamValues V} {n : String × String}
    (hn : n ∈ names) (hone : ∀ n' ∈ names, n'.1 = n.1 → n'.2 = n.2) :
    (rekey names params).get? n.1 = params.get? n.2 := by
  have hvalue : ∀ e ∈ names.filterMap fun n => (params.get? n.2).map (n.1, ·), e.1 = n.1 →
      params.get? n.2 = some e.2 := by
    intro e he hk
    obtain ⟨n', hn', h⟩ := List.mem_filterMap.1 he
    obtain ⟨own, hown, rfl⟩ := Option.map_eq_some_iff.1 h
    rw [← hone n' hn' hk]
    exact hown
  rcases h : params.get? n.2 with _ | own
  · rw [← Option.not_isSome_iff_eq_none]
    intro hsome
    have hkey : n.1 ∈ (rekey names params).keys := OrderedMap.contains_iff.1 hsome
    obtain ⟨e, he, hk⟩ := List.mem_map.1 (OrderedMap.mem_keys_ofList.1 hkey)
    cases h.symm.trans (hvalue e he hk)
  · refine OrderedMap.get?_insertAll_of_forall (fun e he hk => ?_) (.inl ?_)
    · exact Option.some.inj ((hvalue e he hk).symm.trans h)
    · exact List.mem_map.2 ⟨(n.1, own), List.mem_filterMap.2 ⟨n, hn, by rw [h]; rfl⟩, rfl⟩

/-- The error with the names of components and convolutions left out. -/
def EvaluationError.anonymous : EvaluationError → EvaluationError
  | missingParameters _ => missingParameters ""
  | missingParameter _ parameter => missingParameter "" parameter
  | missingFlux _ => missingFlux ""
  | missingFluxSource _ => missingFluxSource ""
  | binCount _ edges expected actual => binCount "" edges expected actual
  | e => e

/-- The errors are of one variant, and say the same but for the name of a component. -/
def EvaluationError.SameButName (e e' : EvaluationError) : Prop := e.anonymous = e'.anonymous

theorem EvaluationError.SameButName.refl (e : EvaluationError) : e.SameButName e := rfl

theorem BlindTo.sameButName (name name' : String) :
    BlindTo EvaluationError.SameButName name name' := by
  constructor <;> intros <;> rfl

/-- A computation that asks a source for its values and passes on its failures: with sources that
have the same values on the same grids it gives the same, or fails as they do on one grid. -/
def Relays {α : Type} (c : Spectrum V → Outcome α) : Prop :=
  ∀ source source' : Spectrum V, (∀ g, Agree (source g) (source' g)) → c source = c source' ∨
    ∃ g e e', source g = .error e ∧ source' g = .error e' ∧ c source = .error e ∧
      c source' = .error e'

namespace Relays

variable {α β : Type} {c : Spectrum V → Outcome α}

theorem const (a : Outcome α) : Relays (V := V) fun _ => a := fun _ _ _ => .inl rfl

theorem ask (grid : List V) : Relays fun source => source grid := by
  intro source source' h
  rcases hs : source grid with e | v
  · rcases hs' : source' grid with e' | v
    · exact .inr ⟨grid, e, e', hs, hs', hs, hs'⟩
    · cases hs.symm.trans ((h grid v).2 hs')
  · exact .inl (hs.trans ((h grid v).1 hs).symm)

theorem bind {d : α → Spectrum V → Outcome β} (hc : Relays c) (hd : ∀ a, Relays (d a)) :
    Relays fun source => c source >>= fun a => d a source := by
  intro source source' h
  rcases hc source source' h with heq | ⟨g, e, e', hg, hg', he, he'⟩
  · simp only [heq]
    rcases c source' with e | a
    · exact .inl rfl
    · exact hd a source source' h
  · refine .inr ⟨g, e, e', hg, hg', ?_, ?_⟩
    · simp only [he]
      rfl
    · simp only [he']
      rfl

theorem alike (hc : Relays c) {Q : EvaluationError → EvaluationError → Prop} (hQ : ∀ e, Q e e)
    {source source' : Spectrum V} (h : ∀ g, Alike Q (source g) (source' g)) :
    Alike Q (c source) (c source') := by
  rcases hc source source' fun g => (h g).agree with heq | ⟨g, e, e', hg, hg', he, he'⟩
  · rw [heq]
    exact .refl hQ _
  · have hge := h g
    rw [hg, hg'] at hge
    rw [he, he']
    cases hge with
    | failure h => exact .failure h

end Relays

/-- The function of a leaf is the same whatever name the leaf's component has. -/
def Generator.IgnoresName : Generator V → Prop
  | additive make | multiplicative make => ∀ name name', make name = make name'
  | fluxConvolution make => ∀ name name', make name = make name'
  | normConvolution make => ∀ name name', make name = make name'

/-- The function of a norm convolution passes on the failures of the flux source it is given. -/
def NormFn.Relays (f : NormFn V) : Prop :=
  ∀ grid flux own, SpectralAlgebra.Relays fun source => f source grid flux own

theorem Generator.sameFor_of_ignoresName {g : Generator V} (hn : g.IgnoresName)
    (hp : ∀ make, g = normConvolution make → ∀ name, NormFn.Relays (make name))
    (name name' : String) : g.SameFor EvaluationError.SameButName name name' := by
  rcases g with make | make | make | make
  · exact hn name name'
  · exact hn name name'
  · exact hn name name'
  · intro source source' hs grid flux own
    rw [hn name' name]
    exact (hp make rfl name grid flux own).alike EvaluationError.SameButName.refl hs

namespace Model

section

variable {m x : Model V} {mapping mapping' : OrderedMap String String}

def IgnoresNames (m : Model V) : Prop := ∀ l ∈ m.leaves, l.data.generator.IgnoresName

def RelaysFailures (m : Model V) : Prop :=
  ∀ l ∈ m.leaves, ∀ make, l.data.generator = .normConvolution make →
    ∀ name, NormFn.Relays (make name)

/-- What the one parameter values have under the one name of a leaf, the others have under the
other name. -/
def Rekeyed (m : Model V) (name name' : Leaf (ModelData V) → String)
    (params params' : ParamValues V) : Prop :=
  ∀ l ∈ m.leaves, params.get? (name l) = params'.get? (name' l)

theorem exists_rekeyed {name name' : Leaf (ModelData V) → String}
    (hone : ∀ l ∈ m.leaves, ∀ l' ∈ m.leaves, name l = name l' → name' l = name' l')
    (params' : ParamValues V) : ∃ params, m.Rekeyed name name' params params' := by
  refine ⟨rekey (m.leaves.map fun l => (name l, name' l)) params', fun l hl => ?_⟩
  refine get?_rekey (n := (name l, name' l)) (List.mem_map_of_mem hl) fun n' hn' hk => ?_
  obtain ⟨l', hl', rfl⟩ := List.mem_map.1 hn'
  exact hone l' hl' l hl hk

theorem exists_get?_of_covers (hc : ∀ l ∈ m.leaves, l.taggedName ∈ mapping.keys) :
    ∃ name : Leaf (ModelData V) → String, ∀ l ∈ m.leaves,
      mapping.get? l.taggedName = some (name l) := by
  refine ⟨fun l => (mapping.get? l.taggedName).getD "", fun l hl => ?_⟩
  obtain ⟨component, h⟩ := OrderedMap.exists_get?_iff.2 (hc l hl)
  simp only [h, Option.getD_some]

/-- One model under two mappings. -/
theorem compile_rekeyed [Add V] [Mul V] (hn : m.IgnoresNames) (hp : m.RelaysFailures)
    (options : CompileOptions) {name name' : Leaf (ModelData V) → String}
    (hname : ∀ l ∈ m.leaves, mapping.get? l.taggedName = some (name l))
    (hname' : ∀ l ∈ m.leaves, mapping'.get? l.taggedName = some (name' l)) :
    ∃ ev ev', compile mapping options m = .ok ev ∧ compile mapping' options m = .ok ev' ∧
      ∀ params params', m.Rekeyed name name' params params' →
        ∀ grid flux? (source? : Option (Spectrum V)), Alike EvaluationError.SameButName
          (ev.call params grid flux? (source?.map fun source _ => source))
          (ev'.call params' grid flux? (source?.map fun source _ => source)) := by
  obtain ⟨ev, hev⟩ := exists_compile options fun l hl =>
    OrderedMap.exists_get?_iff.1 ⟨_, hname l hl⟩
  obtain ⟨ev', hev'⟩ := exists_compile options fun l hl =>
    OrderedMap.exists_get?_iff.1 ⟨_, hname' l hl⟩
  refine ⟨ev, ev', hev, hev', fun params params' hparams grid flux? source? => ?_⟩
  have hlock : Evaluator.Lockstep EvaluationError.SameButName params params' ev ev' := by
    refine compile_lockstep (fun _ => .sameButName _ _) (fun l hl component component' hc hc' => ?_)
      hev hev'
    obtain rfl := Option.some.inj ((hname l hl).symm.trans hc)
    obtain rfl := Option.some.inj ((hname' l hl).symm.trans hc')
    exact ⟨.sameButName _ _, hparams l hl,
      Generator.sameFor_of_ignoresName (hn l hl) (hp l hl) (name l) (name' l)⟩
  refine hlock grid flux? _ _ ?_
  cases source? with
  | none => exact .none
  | some source => exact .some fun g => Alike.refl EvaluationError.SameButName.refl _

end

/-- A model whose functions ignore names, and whose norm convolutions pass on failures, does the
same under other names, its parameter values being renamed along. And any part of it does alone,
under the names that it gives its components itself, what it does in the whole, under the names that
the whole gives them: if it is given the values of the whole under its own names. -/
theorem names_are_keys [Add V] [Mul V] (m : Model V) (hn : m.IgnoresNames) (hp : m.RelaysFailures)
    (options : CompileOptions) :
    (∀ mapping : OrderedMap String String, (∀ l ∈ m.leaves, l.taggedName ∈ mapping.keys) →
      ∀ (r : String → String) (hr : Function.Injective r), ∃ ev ev',
        compile mapping options m = .ok ev ∧ compile (mapping.mapValues r) options m = .ok ev' ∧
          ∀ params grid flux? (source? : Option (Spectrum V)), Alike EvaluationError.SameButName
            (ev.call params grid flux? (source?.map fun source _ => source))
            (ev'.call (params.mapKeys r hr) grid flux? (source?.map fun source _ => source))) ∧
    ∀ x ∈ m.parts, ∀ edits, ∃ ev ev',
      compile ((LabelSpace.make edits (.model x)).mapping edits .name) options x = .ok ev ∧
      compile ((LabelSpace.make edits (.model m)).mapping edits .name) options x = .ok ev' ∧
      (∀ params params', x.Rekeyed (x.componentName edits) (m.componentName edits) params params' →
        ∀ grid flux? (source? : Option (Spectrum V)), Alike EvaluationError.SameButName
          (ev.call params grid flux? (source?.map fun source _ => source))
          (ev'.call params' grid flux? (source?.map fun source _ => source))) ∧
      ((∀ l ∈ x.leaves, ∀ l' ∈ x.leaves, x.componentName edits l = x.componentName edits l' →
          m.componentName edits l = m.componentName edits l') →
        ∀ params', ∃ params,
          x.Rekeyed (x.componentName edits) (m.componentName edits) params params') := by
  refine ⟨fun mapping hc r hr => ?_, fun x hx edits => ?_⟩
  · obtain ⟨name, hname⟩ := exists_get?_of_covers hc
    have hname' : ∀ l ∈ m.leaves, (mapping.mapValues r).get? l.taggedName = some (r (name l)) := by
      intro l hl
      rw [OrderedMap.get?_mapValues, hname l hl, Option.map_some]
    obtain ⟨ev, ev', hev, hev', h⟩ := compile_rekeyed hn hp options hname hname'
    refine ⟨ev, ev', hev, hev', fun params => h params _ fun l hl => ?_⟩
    exact (OrderedMap.get?_mapKeys r hr params (name l)).symm
  · have hsub := leaves_of_mem_parts hx
    have hown : ∀ l ∈ x.leaves, ((LabelSpace.make edits (.model x)).mapping edits .name).get?
        l.taggedName = some (x.componentName edits l) :=
      fun l hl => get?_componentName hl
    have hwhole : ∀ l ∈ x.leaves, ((LabelSpace.make edits (.model m)).mapping edits .name).get?
        l.taggedName = some (m.componentName edits l) :=
      fun l hl => get?_componentName (hsub l hl)
    have hnx : x.IgnoresNames := fun l hl => hn l (hsub l hl)
    have hpx : x.RelaysFailures := fun l hl => hp l (hsub l hl)
    obtain ⟨ev, ev', hev, hev', h⟩ := compile_rekeyed hnx hpx options hown hwhole
    exact ⟨ev, ev', hev, hev', h, exists_rekeyed⟩

namespace Beside

/-- The probed emission `N * A` with another emission `A` before it. -/
def whole : Model Nat :=
  .op (.fresh 9) .add ⟨.additive, .addAdd⟩ (.leaf { Declared.base with id := .fresh 8 })
    Declared.model

def mapping : OrderedMap String String := (LabelSpace.make ∅ (.model whole)).mapping ∅ .name

def params : ParamValues Nat := .ofList [("A", .singleton "k" 3), ("A2", .singleton "k" 5)]

theorem ignoresNames : whole.IgnoresNames := by
  intro l hl
  rcases hl with _ | ⟨_, _ | ⟨_, _ | ⟨_, h⟩⟩⟩
  · exact fun _ _ => rfl
  · exact fun _ _ => rfl
  · exact fun _ _ => rfl
  · cases h

theorem relays_probe : NormFn.Relays Probed.probe :=
  fun grid _ _ => (Relays.ask grid).bind fun _ => .const _

theorem relaysFailures : whole.RelaysFailures := by
  intro l hl make hg name
  rcases hl with _ | ⟨_, _ | ⟨_, _ | ⟨_, h⟩⟩⟩
  · cases hg
  · cases hg
    exact relays_probe
  · cases hg
  · cases h

theorem covers : ∀ l ∈ whole.leaves, l.taggedName ∈ mapping.keys :=
  fun _ hl => OrderedMap.exists_get?_iff.1 ⟨_, get?_componentName hl⟩

theorem injective : Function.Injective ("x" ++ · : String → String) := by
  intro a b h
  simpa using h

theorem mem_parts : Declared.model ∈ whole.parts :=
  List.mem_append_left _ (List.mem_append_right _ (List.mem_append_right _ List.mem_cons_self))

/-- Alone the emission is `A`, in the whole it is `A2`. -/
theorem rekeyed : Declared.model.Rekeyed (Declared.model.componentName ∅) (whole.componentName ∅)
    Declared.params params := by
  have hconv : Declared.model.componentName ∅ Probed.conv = "N" ∧
      whole.componentName ∅ Probed.conv = "N" := by
    decide +kernel
  have hbase : Declared.model.componentName ∅ Declared.base = "A" ∧
      whole.componentName ∅ Declared.base = "A2" := by
    decide +kernel
  intro l hl
  rcases hl with _ | ⟨_, _ | ⟨_, h⟩⟩
  · rw [hconv.1, hconv.2]
    rfl
  · rw [hbase.1, hbase.2]
    rfl
  · cases h

end Beside

/-- With every name changed the whole gives the same, and its part alone what it does in there. -/
theorem names_are_keys_beside : Beside.whole.IgnoresNames ∧ Beside.whole.RelaysFailures ∧
    (∀ l ∈ Beside.whole.leaves, l.taggedName ∈ Beside.mapping.keys) ∧
    (∃ ev ev', compile Beside.mapping {} Beside.whole = .ok ev ∧
      compile (Beside.mapping.mapValues ("x" ++ ·)) {} Beside.whole = .ok ev' ∧
      ∀ grid, Alike EvaluationError.SameButName (ev.eval Beside.params grid)
        (ev'.eval (Beside.params.mapKeys ("x" ++ ·) Beside.injective) grid)) ∧
    Declared.model ∈ Beside.whole.parts ∧
    Declared.model.Rekeyed (Declared.model.componentName ∅) (Beside.whole.componentName ∅)
      Declared.params Beside.params ∧
    ∃ ev ev', compile ((LabelSpace.make ∅ (.model Declared.model)).mapping ∅ .name) {}
        Declared.model = .ok ev ∧
      compile Beside.mapping {} Declared.model = .ok ev' ∧
      ev.eval Declared.params [1, 2, 3] = .ok [20, 30] ∧
      ∀ grid, Alike EvaluationError.SameButName (ev.eval Declared.params grid)
        (ev'.eval Beside.params grid) := by
  obtain ⟨hrenamed, hparts⟩ :=
    names_are_keys Beside.whole Beside.ignoresNames Beside.relaysFailures {}
  refine ⟨Beside.ignoresNames, Beside.relaysFailures, Beside.covers, ?_, Beside.mem_parts,
    Beside.rekeyed, ?_⟩
  · obtain ⟨ev, ev', hev, hev', h⟩ := hrenamed Beside.mapping Beside.covers _ Beside.injective
    exact ⟨ev, ev', hev, hev', fun grid => h Beside.params grid none none⟩
  · obtain ⟨ev, ev', hev, hev', h, -⟩ := hparts _ Beside.mem_parts ∅
    refine ⟨ev, ev', hev, hev', ?_, fun grid => h _ _ Beside.rekeyed grid none none⟩
    cases hev
    rfl

end Model

end SpectralAlgebra
