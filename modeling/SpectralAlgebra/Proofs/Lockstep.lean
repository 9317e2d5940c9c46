import SpectralAlgebra.Proofs.Congruence

/-!
# Evaluators in lockstep

Two evaluators run in lockstep if, each under its own parameter values and handed sources that give
the same, they give the same. What that means of errors is left open: they may have to be equal, or
may name other components.

That is a congruence of outcomes (`Alike.congruence`), so every shape keeps lockstep
(`Evaluator.Lockstep.op`), and the evaluators of one model under two mappings run in lockstep if the
functions of its leaves do and are found the same values under the two names
(`Model.compile_lockstep`).
-/

namespace SpectralAlgebra

variable {V : Type} {Q : EvaluationError → EvaluationError → Prop}

/-- Two outcomes have one value, or they fail with related errors. -/
inductive Alike {α : Type} (Q : EvaluationError → EvaluationError → Prop) :
    Outcome α → Outcome α → Prop
  | value (v : α) : Alike Q (.ok v) (.ok v)
  | failure {e e' : EvaluationError} (h : Q e e') : Alike Q (.error e) (.error e')

namespace Alike

variable {α β : Type} {a b : Outcome α}

theorem refl (hQ : ∀ e, Q e e) : ∀ a : Outcome α, Alike Q a a
  | .ok v => .value v
  | .error e => .failure (hQ e)

theorem bind {f g : α → Outcome β} (h : Alike Q a b) (hf : ∀ v, Alike Q (f v) (g v)) :
    Alike Q (a >>= f) (b >>= g) := by
  cases h with
  | value v => exact hf v
  | failure h => exact .failure h

theorem agree (h : Alike Q a b) : Agree a b := by
  cases h with
  | value v => exact .refl _
  | failure h => exact fun v => ⟨nofun, nofun⟩

theorem eq_iff : Alike Eq a b ↔ a = b := by
  constructor
  · rintro (v | ⟨rfl⟩) <;> rfl
  · rintro rfl
    exact refl (fun _ => rfl) a

theorem congruence (hQ : ∀ e, Q e e) : Congruence (V := V) (Alike Q) := ⟨refl hQ, bind⟩

end Alike

/-- Related are any error and itself, and the errors about a component or convolution of the one
name and those about one of the other. -/
structure BlindTo (Q : EvaluationError → EvaluationError → Prop) (name name' : String) : Prop where
  refl : ∀ e, Q e e
  missingParameters : Q (.missingParameters name) (.missingParameters name')
  missingParameter : ∀ parameter,
    Q (.missingParameter name parameter) (.missingParameter name' parameter)
  missingFlux : Q (.missingFlux name) (.missingFlux name')
  missingFluxSource : Q (.missingFluxSource name) (.missingFluxSource name')
  binCount : ∀ edges expected actual,
    Q (.binCount name edges expected actual) (.binCount name' edges expected actual)

theorem BlindTo.eq (name : String) : BlindTo Eq name name := by
  constructor <;> intros <;> rfl

namespace BlindTo

variable {name name' : String} (h : BlindTo Q name name')
include h

theorem unlabelled : Congruence.Unlabelled (V := V) (Alike Q) name name' :=
  ⟨.failure h.missingFlux, .failure h.missingFluxSource⟩

theorem needFlux (flux? : Option (List V)) :
    Alike Q (SpectralAlgebra.needFlux name flux?) (SpectralAlgebra.needFlux name' flux?) :=
  (Alike.congruence h.refl).needFlux h.unlabelled flux?

theorem checkBins (check : Bool) (grid values : List V) :
    Alike Q (SpectralAlgebra.checkBins check name grid values)
      (SpectralAlgebra.checkBins check name' grid values) := by
  unfold SpectralAlgebra.checkBins
  split
  · exact .failure (h.binCount _ _ _)
  · exact .value values

theorem lookupParams {params params' : ParamValues V} (hp : params.get? name = params'.get? name')
    (declared : List String) : Alike Q (SpectralAlgebra.lookupParams name declared params)
      (SpectralAlgebra.lookupParams name' declared params') := by
  unfold SpectralAlgebra.lookupParams
  rw [hp]
  rcases params'.get? name' with _ | own
  · simp only
    split
    · exact .value ∅
    · exact .failure h.missingParameters
  · simp only
    split
    · exact .failure (h.missingParameter _)
    · exact .value own

end BlindTo

/-- The function made for the one name gives what the function made for the other gives. -/
def Generator.SameFor (Q : EvaluationError → EvaluationError → Prop) (name name' : String) :
    Generator V → Prop
  | additive make | multiplicative make => make name = make name'
  | fluxConvolution make => make name = make name'
  | normConvolution make => ∀ source source', (∀ g, Alike Q (source g) (source' g)) →
    ∀ grid flux own, Alike Q (make name source grid flux own) (make name' source' grid flux own)

theorem Generator.sameFor_eq (name : String) : ∀ g : Generator V, g.SameFor Eq name name
  | additive _ | multiplicative _ => rfl
  | fluxConvolution _ => rfl
  | normConvolution make => by
    intro source source' hs grid flux own
    obtain rfl : source = source' := funext fun g => Alike.eq_iff.1 (hs g)
    exact Alike.eq_iff.2 rfl

namespace Evaluator

variable {params params' : ParamValues V} {m₁ m₁' m₂ m₂' : Evaluator V}

/-- One under the one and the other under the other parameter values, the evaluators give the same
if their flux sources do. -/
def Lockstep (Q : EvaluationError → EvaluationError → Prop) (params params' : ParamValues V)
    (ev ev' : Evaluator V) : Prop :=
  ∀ grid flux? (source? source'? : Option (FluxSource V)),
    Option.Rel (fun s s' => ∀ g, Alike Q (s params g) (s' params' g)) source? source'? →
      Alike Q (ev.call params grid flux? source?) (ev'.call params' grid flux? source'?)

namespace Lockstep

theorem op [Add V] [Mul V] {label label' : String} (hl : BlindTo Q label label')
    (h₁ : Lockstep Q params params' m₁ m₁') (h₂ : Lockstep Q params params' m₂ m₂')
    (name name' : String) (shape : Shape) : Lockstep Q params params'
      ⟨name, shape.evaluation label m₁ m₂⟩ ⟨name', shape.evaluation label' m₁' m₂'⟩ :=
  Related.op (Alike.congruence hl.refl) hl.unlabelled h₁ h₂ name name' shape

theorem leaf {name name' : String} (hl : BlindTo Q name name')
    (hp : params.get? name = params'.get? name') (check : Bool) :
    ∀ {d : ModelData V}, d.generator.SameFor Q name name' → Lockstep Q params params'
      ⟨name, leafEvaluation check name d⟩ ⟨name', leafEvaluation check name' d⟩
  | ⟨_, parameters, .additive make⟩, hg | ⟨_, parameters, .multiplicative make⟩, hg => by
    intro grid _ _ _ _
    obtain hg : make name = make name' := hg
    simp only [leafEvaluation, hg]
    exact (hl.lookupParams hp parameters.keys).bind fun own => hl.checkBins check grid _
  | ⟨_, parameters, .fluxConvolution make⟩, hg => by
    intro grid flux? _ _ _
    obtain hg : make name = make name' := hg
    simp only [leafEvaluation, hg]
    exact (hl.lookupParams hp parameters.keys).bind fun own =>
      (hl.needFlux flux?).bind fun flux => hl.checkBins check grid _
  | ⟨_, parameters, .normConvolution make⟩, hg => by
    intro grid flux? source? source'? hs
    refine (hl.lookupParams hp parameters.keys).bind fun own =>
      (hl.needFlux flux?).bind fun flux => ?_
    cases hs with
    | none => exact .failure hl.missingFluxSource
    | some hs => exact (hg _ _ hs grid flux own).bind fun values => hl.checkBins check grid values

end Lockstep

end Evaluator

/-- One model under two mappings, each with its parameter values. -/
theorem Model.compile_lockstep [Add V] [Mul V] {mapping mapping' : OrderedMap String String}
    {options : CompileOptions} {params params' : ParamValues V}
    (hlabel : ∀ m : Model V, BlindTo Q (substitute m.name mapping) (substitute m.name mapping'))
    {m : Model V} (hleaf : ∀ l ∈ m.leaves, ∀ component component',
      mapping.get? l.taggedName = some component → mapping'.get? l.taggedName = some component' →
        BlindTo Q component component' ∧ params.get? component = params'.get? component' ∧
          l.data.generator.SameFor Q component component')
    {ev ev' : Evaluator V} (h : compile mapping options m = .ok ev)
    (h' : compile mapping' options m = .ok ev') : Evaluator.Lockstep Q params params' ev ev' := by
  refine compile_related (Alike.congruence (hlabel m).refl) (fun m => (hlabel m).unlabelled)
    (fun l hl component component' hc hc' => ?_) h h'
  obtain ⟨hblind, hp, hg⟩ := hleaf l hl component component' hc hc'
  exact Evaluator.Lockstep.leaf hblind hp options.checkShapes hg

end SpectralAlgebra
