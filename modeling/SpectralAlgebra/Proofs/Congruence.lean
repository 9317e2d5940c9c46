import SpectralAlgebra.Proofs.Shapes

/-!
# Evaluators with related outcomes

Two evaluators of one model may be handed different parameter values, know the components by
different names, or count values or not. What their outcomes then have in common is some relation of
outcomes. Equal outcomes have it, and it goes on to whatever is made of the values next: it is a
`Congruence`.

Shapes do no more with their operands than that. So related evaluators make related composites,
whatever the shape (`Evaluator.Related.op`), and the evaluators of a model are related if those of
its leaves are (`Model.compile_related`).
-/

namespace SpectralAlgebra

variable {V : Type}

/-- A relation of outcomes that goes on to what is made of them. -/
structure Congruence (R : Outcome (List V) → Outcome (List V) → Prop) : Prop where
  refl : ∀ a, R a a
  bind : ∀ {a b f g}, R a b → (∀ v, R (f v) (g v)) → R (a >>= f) (b >>= g)

/-- The failures for want of a flux or of a flux source are related, though one names the one
convolution and the other the other. -/
structure Congruence.Unlabelled (R : Outcome (List V) → Outcome (List V) → Prop)
    (label label' : String) : Prop where
  missingFlux : R (.error (.missingFlux label)) (.error (.missingFlux label'))
  missingFluxSource : R (.error (.missingFluxSource label)) (.error (.missingFluxSource label'))

variable {R : Outcome (List V) → Outcome (List V) → Prop}

namespace Congruence

variable (hR : Congruence R)
include hR

theorem combine_bind [Add V] [Mul V] (o : Operator) {a b a' b' : Outcome (List V)} (h : R a b)
    (h' : R a' b') : R (a >>= fun xs => a' >>= fun ys => Bins.combine o xs ys)
      (b >>= fun xs => b' >>= fun ys => Bins.combine o xs ys) :=
  hR.bind h fun _ => hR.bind h' fun _ => hR.refl _

theorem needFlux {label label' : String} (hl : Unlabelled R label label') :
    ∀ flux? : Option (List V),
      R (SpectralAlgebra.needFlux label flux?) (SpectralAlgebra.needFlux label' flux?)
  | some flux => hR.refl (.ok flux)
  | none => hl.missingFlux

theorem unlabelled (label : String) : Unlabelled R label label := ⟨hR.refl _, hR.refl _⟩

end Congruence

namespace Evaluator

variable {params params' : ParamValues V} {m₁ m₁' m₂ m₂' : Evaluator V}

/-- One under the one and the other under the other parameter values, the evaluators have related
outcomes if their flux sources do. -/
def Related (R : Outcome (List V) → Outcome (List V) → Prop) (params params' : ParamValues V)
    (ev ev' : Evaluator V) : Prop :=
  ∀ grid flux? (source? source'? : Option (FluxSource V)),
    Option.Rel (fun s s' => ∀ g, R (s params g) (s' params' g)) source? source'? →
      R (ev.call params grid flux? source?) (ev'.call params' grid flux? source'?)

namespace Related

theorem call_none (h : Related R params params' m₁ m₁') (grid : List V)
    (flux? : Option (List V)) :
    R (m₁.call params grid flux? none) (m₁'.call params' grid flux? none) :=
  h grid flux? none none .none

theorem eval (h : Related R params params' m₁ m₁') (grid : List V) :
    R (m₁.eval params grid) (m₁'.eval params' grid) :=
  h.call_none grid none

theorem op [Add V] [Mul V] (hR : Congruence R) {label label' : String}
    (hl : Congruence.Unlabelled R label label') (h₁ : Related R params params' m₁ m₁')
    (h₂ : Related R params params' m₂ m₂') (name name' : String) :
    ∀ shape : Shape, Related R params params'
      ⟨name, shape.evaluation label m₁ m₂⟩ ⟨name', shape.evaluation label' m₁' m₂'⟩
  | .addAdd => fun grid _ _ _ _ => hR.combine_bind .add (h₁.eval grid) (h₂.eval grid)
  | .product => fun grid _ _ _ _ => hR.combine_bind .mul (h₁.eval grid) (h₂.eval grid)
  | .mulFlux => fun grid flux? _ _ _ =>
    hR.combine_bind .mul (h₁.eval grid) (h₂.call_none grid flux?)
  | .mulNorm => fun grid flux? source? source'? hs =>
    hR.combine_bind .mul (h₁.eval grid) (h₂ grid flux? source? source'? hs)
  | .fluxAdd => fun grid _ _ _ _ => hR.bind (h₂.eval grid) fun flux => h₁.call_none grid (some flux)
  | .fluxMul => fun grid flux? _ _ _ => hR.bind (h₂.eval grid) fun _ =>
    hR.bind (hR.needFlux hl flux?) fun _ =>
      hR.bind (hR.refl _) fun flux => h₁.call_none grid (some flux)
  | .fluxFlux => fun grid flux? _ _ _ =>
    hR.bind (h₂.call_none grid flux?) fun flux => h₁.call_none grid (some flux)
  | .fluxNorm => fun grid flux? source? source'? hs =>
    hR.bind (h₂ grid flux? source? source'? hs) fun flux => h₁.call_none grid (some flux)
  | .normAdd => fun grid _ _ _ _ =>
    hR.bind (h₂.eval grid) fun flux => h₁ grid (some flux) _ _ (.some h₂.eval)
  | .normMul => fun grid flux? source? source'? hs => by
    refine hR.bind (h₂.eval grid) fun _ => hR.bind (hR.needFlux hl flux?) fun _ =>
      hR.bind (hR.refl _) fun flux => ?_
    cases hs with
    | none => exact hl.missingFluxSource
    | some hs =>
      exact h₁ grid (some flux) _ _ (.some fun g => hR.combine_bind .mul (h₂.eval g) (hs g))
  | .normFlux => fun grid flux? source? source'? hs => by
    cases hs with
    | none => exact hl.missingFluxSource
    | some hs =>
      exact hR.bind (h₂.call_none grid flux?) fun flux => h₁ grid (some flux) _ _
        (.some fun g => hR.bind (hs g) fun inner => h₂.call_none g (some inner))

end Related

end Evaluator

/-- One model compiled twice, under two mappings and with different options. -/
theorem Model.compile_related [Add V] [Mul V] {mapping mapping' : OrderedMap String String}
    {options options' : CompileOptions} {params params' : ParamValues V} (hR : Congruence R)
    (hlabel : ∀ m : Model V,
      Congruence.Unlabelled R (substitute m.name mapping) (substitute m.name mapping')) :
    ∀ {m : Model V}, (∀ l ∈ m.leaves, ∀ component component',
      mapping.get? l.taggedName = some component → mapping'.get? l.taggedName = some component' →
        Evaluator.Related R params params'
          ⟨component, leafEvaluation options.checkShapes component l.data⟩
          ⟨component', leafEvaluation options'.checkShapes component' l.data⟩) →
      ∀ {ev ev'}, compile mapping options m = .ok ev → compile mapping' options' m = .ok ev' →
        Evaluator.Related R params params' ev ev'
  | .leaf l, hleaf, ev, ev', h, h' => by
    obtain ⟨component, hc, rfl⟩ := compile_leaf_eq_ok.1 h
    obtain ⟨component', hc', rfl⟩ := compile_leaf_eq_ok.1 h'
    exact hleaf l (List.mem_singleton_self l) component component' hc hc'
  | .op id o r x y, hleaf, ev, ev', h, h' => by
    obtain ⟨m₁, m₂, h₁, h₂, rfl⟩ := compile_op_eq_ok.1 h
    obtain ⟨m₁', m₂', h₁', h₂', rfl⟩ := compile_op_eq_ok.1 h'
    have ihx := compile_related hR hlabel (fun l hl => hleaf l (List.mem_append_left _ hl)) h₁ h₁'
    have ihy := compile_related hR hlabel (fun l hl => hleaf l (List.mem_append_right _ hl)) h₂ h₂'
    exact .op hR (hlabel _) ihx ihy _ _ r.shape

end SpectralAlgebra
