import SpectralAlgebra.Proofs.Congruence
import SpectralAlgebra.Proofs.Visiting

/-!
# What counting the values changes

Whether the values of the leaves are counted makes no difference but one: where they are counted, an
evaluator may fail for a leaf that gave too many or too few of them. Values that it does give are
the same without (`Model.counting_only_refuses`).

For of the two evaluators the one that counts does the same as the other, or it has met a miscount
(`Refused`). That is a congruence, so it goes through all shapes, and through the flux sources that
norm convolutions are handed, once it holds of the leaves. A norm convolution may do with a flux
source what it likes, as long as it does not hide where the source failed (`Forwards`).
-/

namespace SpectralAlgebra

variable {V : Type}

/-- The first outcome is the second, or it is a failure of a certain sort. -/
inductive Refused {α : Type} (P : EvaluationError → Prop) (a b : Outcome α) : Prop
  | same (h : a = b)
  | refused {e : EvaluationError} (hP : P e) (h : a = .error e)

namespace Refused

variable {P : EvaluationError → Prop} {α β : Type} {a b : Outcome α}

theorem bind {f g : α → Outcome β} (h : Refused P a b) (hf : ∀ v, Refused P (f v) (g v)) :
    Refused P (a >>= f) (b >>= g) := by
  rcases h with rfl | ⟨hP, rfl⟩
  · rcases a with e | v
    · exact .same rfl
    · exact hf v
  · exact .refused hP rfl

theorem congruence (P : EvaluationError → Prop) : Congruence (V := V) (Refused P) :=
  ⟨fun _ => .same rfl, bind⟩

theorem eq_ok {v : α} (h : Refused P a b) (ha : a = .ok v) : b = .ok v := by
  rcases h with rfl | ⟨-, rfl⟩
  · exact ha
  · cases ha

theorem eq_error_or {e : EvaluationError} (h : Refused P a b) (ha : a = .error e) :
    b = .error e ∨ P e := by
  rcases h with rfl | ⟨hP, rfl⟩
  · exact .inl ha
  · cases ha
    exact .inr hP

end Refused

/-! ## Flux sources -/

/-- A computation that asks a source for values and passes on its failures: if it does not do the
same with another source, there is a grid on which the two differ, and where the source fails there,
the computation fails as it does. -/
def Forwards {α : Type} (c : Spectrum V → Outcome α) : Prop :=
  ∀ source source' : Spectrum V, c source = c source' ∨
    ∃ grid, source grid ≠ source' grid ∧ ∀ e, source grid = .error e → c source = .error e

namespace Forwards

variable {α β : Type} {c : Spectrum V → Outcome α}

theorem const (a : Outcome α) : Forwards (V := V) fun _ => a := fun _ _ => .inl rfl

theorem ask (grid : List V) : Forwards fun source => source grid := by
  intro source source'
  by_cases h : source grid = source' grid
  · exact .inl h
  · exact .inr ⟨grid, h, fun _ he => he⟩

theorem bind {d : α → Spectrum V → Outcome β} (hc : Forwards c) (hd : ∀ a, Forwards (d a)) :
    Forwards fun source => c source >>= fun a => d a source := by
  intro source source'
  rcases hc source source' with heq | ⟨grid, hne, he⟩
  · simp only [heq]
    rcases c source' with e | a
    · exact .inl rfl
    · exact hd a source source'
  · refine .inr ⟨grid, hne, fun e hs => ?_⟩
    simp only [he e hs]
    rfl

theorem refused (hc : Forwards c) {P : EvaluationError → Prop} {source source' : Spectrum V}
    (h : ∀ g, Refused P (source g) (source' g)) : Refused P (c source) (c source') := by
  rcases hc source source' with heq | ⟨grid, hne, he⟩
  · exact .same heq
  · rcases h grid with heq | ⟨hP, hs⟩
    · exact absurd heq hne
    · exact .refused hP (he _ hs)

end Forwards

/-- The function of a norm convolution passes on the failures of the flux source it is given. -/
def NormFn.Forwards (f : NormFn V) : Prop :=
  ∀ grid flux own, SpectralAlgebra.Forwards fun source => f source grid flux own

def Model.ForwardsFailures (m : Model V) : Prop :=
  ∀ l ∈ m.leaves, ∀ make, l.data.generator = .normConvolution make →
    ∀ component, NormFn.Forwards (make component)

/-! ## Leaves that are counted and leaves that are not -/

/-- The failure of a component that gave some other number of values than there are bins. -/
def Miscount (component : String) (e : EvaluationError) : Prop :=
  ∃ edges actual, actual ≠ edges - 1 ∧ e = .binCount component edges (edges - 1) actual

section

variable {P : EvaluationError → Prop} {component : String} (hP : ∀ e, Miscount component e → P e)
include hP

theorem checkBins_refused (grid values : List V) :
    Refused P (checkBins true component grid values) (checkBins false component grid values) := by
  by_cases h : values.length = binCount grid
  · exact .same (by simp [checkBins, h])
  · refine .refused (hP _ ⟨grid.length, values.length, h, rfl⟩) ?_
    rw [checkBins, if_pos ⟨rfl, h⟩]
    rfl

theorem leafEvaluation_refused (params : ParamValues V) : ∀ {d : ModelData V},
    (∀ make, d.generator = .normConvolution make → NormFn.Forwards (make component)) →
      Evaluator.Related (Refused P) params params ⟨component, leafEvaluation true component d⟩
        ⟨component, leafEvaluation false component d⟩
  | ⟨_, _, .additive _⟩, _ | ⟨_, _, .multiplicative _⟩, _ => fun grid _ _ _ _ =>
    Refused.bind (.same rfl) fun _ => checkBins_refused hP grid _
  | ⟨_, _, .fluxConvolution _⟩, _ => fun grid _ _ _ _ =>
    Refused.bind (.same rfl) fun _ => Refused.bind (.same rfl) fun _ => checkBins_refused hP grid _
  | ⟨_, _, .normConvolution make⟩, hf => by
    intro grid flux? source? source'? hs
    refine Refused.bind (.same rfl) fun own => Refused.bind (.same rfl) fun flux => ?_
    cases hs with
    | none => exact .same rfl
    | some hs =>
      exact ((hf make rfl grid flux own).refused hs).bind fun values =>
        checkBins_refused hP grid values

end

namespace Model

section

variable {m : Model V} {mapping : OrderedMap String String}

/-- The failure of one of the model's leaves, known by its mapped name, for its number of values. -/
def MiscountedIn (mapping : OrderedMap String String) (m : Model V) (e : EvaluationError) : Prop :=
  ∃ l ∈ m.leaves, ∃ component, mapping.get? l.taggedName = some component ∧ Miscount component e

theorem compile_refused [Add V] [Mul V] (hm : m.ForwardsFailures)
    {options options' : CompileOptions} {ev ev' : Evaluator V}
    (h : compile mapping { options with checkShapes := true } m = .ok ev)
    (h' : compile mapping { options' with checkShapes := false } m = .ok ev')
    (params : ParamValues V) :
    Evaluator.Related (Refused (m.MiscountedIn mapping)) params params ev ev' := by
  have hR := Refused.congruence (V := V) (m.MiscountedIn mapping)
  refine compile_related hR (fun m => hR.unlabelled _) (fun l hl component component' hc hc' => ?_)
    h h'
  obtain rfl := Option.some.inj (hc.symm.trans hc')
  exact leafEvaluation_refused (fun e he => ⟨l, hl, component, hc, he⟩) params
    fun make hg => hm l hl make hg component

end

/-- A model compiles with and without counting alike. Whatever the evaluators are handed, a value
that the counting one gives the other gives as well, and a failure that the other does not share is
that of a leaf for the number of its values. -/
theorem counting_only_refuses [Add V] [Mul V] (m : Model V) (hm : m.ForwardsFailures)
    (mapping : OrderedMap String String) (options options' : CompileOptions) :
    (∀ e, compile mapping { options with checkShapes := true } m = .error e ↔
      compile mapping { options' with checkShapes := false } m = .error e) ∧
    ∀ ev ev', compile mapping { options with checkShapes := true } m = .ok ev →
      compile mapping { options' with checkShapes := false } m = .ok ev' →
        ∀ params grid flux? source?,
          (∀ values, ev.call params grid flux? source? = .ok values →
            ev'.call params grid flux? source? = .ok values) ∧
          ∀ e, ev.call params grid flux? source? = .error e →
            ev'.call params grid flux? source? = .error e ∨ m.MiscountedIn mapping e := by
  refine ⟨fun e => compile_eq_error_iff.trans compile_eq_error_iff.symm,
    fun ev ev' h h' params grid flux? source? => ?_⟩
  have hsource : Option.Rel (fun s s' : FluxSource V => ∀ g,
      Refused (m.MiscountedIn mapping) (s params g) (s' params g)) source? source? := by
    cases source? with
    | none => exact .none
    | some source => exact .some fun g => .same rfl
  have hr := compile_refused hm h h' params grid flux? source? source? hsource
  exact ⟨fun values => hr.eq_ok, fun e => hr.eq_error_or⟩

namespace Coarse

/-- Adds what the flux source gives on the outermost two edges. -/
def total : NormFn Nat := fun source grid flux _ => do
  let values ← source (grid.head?.toList ++ grid.getLast?.toList)
  .ok (flux.map (· + values.foldl (· + ·) 0))

theorem forwards_total : NormFn.Forwards total :=
  fun _ _ _ => (Forwards.ask _).bind fun _ => .const _

def conv : Leaf (ModelData Nat) :=
  ⟨.fresh 0, "N", "N", ∅, .convolution .norm, ∅, .normConvolution fun _ => total⟩

/-- Two values on every grid. -/
def base : Leaf (ModelData Nat) :=
  ⟨.fresh 1, "A", "A", ∅, .additive, ∅, .additive fun _ _ _ => [3, 4]⟩

def model : Model Nat :=
  .op (.fresh 2) .mul ⟨.additive, .normAdd⟩ (.leaf conv) (.leaf base)

def mapping : OrderedMap String String :=
  .ofList (model.leaves.map fun l => (l.taggedName, l.name))

theorem forwardsFailures : model.ForwardsFailures := by
  intro l hl make hg component
  rcases hl with _ | ⟨_, _ | ⟨_, h⟩⟩
  · cases hg
    exact forwards_total
  · cases hg
  · cases h

end Coarse

/-- Two values are right for the grid at hand and too many for the coarse one, on which the
convolution asks for them. -/
theorem counting_only_refuses_coarse : Coarse.model.ForwardsFailures ∧
    ∃ ev ev', compile Coarse.mapping {} Coarse.model = .ok ev ∧
      compile Coarse.mapping { checkShapes := false } Coarse.model = .ok ev' ∧
      ev'.eval ∅ [1, 2, 3] = .ok [10, 11] ∧
      ev.eval ∅ [1, 2, 3] = .error (.binCount "A" 2 1 2) ∧
      Coarse.model.MiscountedIn Coarse.mapping (.binCount "A" 2 1 2) := by
  have hkeys : ∀ l ∈ Coarse.model.leaves, l.taggedName ∈ Coarse.mapping.keys := fun l hl =>
    OrderedMap.mem_keys_ofList.2 (by simpa using ⟨l, hl, rfl⟩)
  obtain ⟨ev, hev⟩ := exists_compile {} hkeys
  obtain ⟨ev', hev'⟩ := exists_compile { checkShapes := false } hkeys
  have hvalue : ev'.eval ∅ [1, 2, 3] = .ok [10, 11] := by
    cases hev'
    rfl
  have hfails : ev.eval ∅ [1, 2, 3] = .error (.binCount "A" 2 1 2) := by
    cases hev
    rfl
  obtain ⟨-, hcounting⟩ :=
    counting_only_refuses Coarse.model Coarse.forwardsFailures Coarse.mapping {} {}
  obtain ⟨-, herror⟩ := hcounting ev ev' hev hev' ∅ [1, 2, 3] none none
  refine ⟨Coarse.forwardsFailures, ev, ev', hev, hev', hvalue, hfails, ?_⟩
  rcases herror _ hfails with h | h
  · cases hvalue.symm.trans h
  · exact h

end Model

end SpectralAlgebra
