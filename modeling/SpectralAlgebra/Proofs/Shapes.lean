import SpectralAlgebra.Proofs.Meaning

/-!
# What holds of all evaluators

An evaluator is made leaf by leaf and shape by shape, and a composite has the shape that the kinds
of its operands allow. So what depends on the kind of a model only, and holds of the evaluators of
leaves, holds of all evaluators if every legal shape passes it on (`Model.compile_induction`). The
same goes for what relates the evaluators of two models that differ in their leaves alone
(`Model.compile_relates`).
-/

namespace SpectralAlgebra

namespace Expr

variable {D D' R : Type}

def mapLeaves (f : Leaf D → Leaf D') : Expr D R → Expr D' R
  | leaf l => leaf (f l)
  | op id o r lh rh => op id o r (mapLeaves f lh) (mapLeaves f rh)

theorem mapLeaves_id : ∀ e : Expr D R, e.mapLeaves (fun l => l) = e
  | leaf _ => rfl
  | op _ _ _ lh rh => by rw [mapLeaves, mapLeaves_id lh, mapLeaves_id rh]

theorem leaves_mapLeaves (f : Leaf D → Leaf D') :
    ∀ e : Expr D R, (e.mapLeaves f).leaves = e.leaves.map f
  | leaf _ => rfl
  | op _ _ _ lh rh => by
    rw [mapLeaves, leaves, leaves, leaves_mapLeaves f lh, leaves_mapLeaves f rh, List.map_append]

end Expr

namespace Model

variable {V : Type} {mapping mapping' : OrderedMap String String}

theorem mapped_of_find?_eq_none {m : Model V}
    (h : (m.leaves.find? fun l => l.taggedName ∉ mapping.keys) = none) :
    ∀ l ∈ m.leaves, l.taggedName ∈ mapping.keys := by
  intro l hl
  simpa using List.find?_eq_none.1 h l hl

variable [Add V] [Mul V] {options options' : CompileOptions} {ev ev' : Evaluator V}

theorem compile_leaf_eq_ok {l : Leaf (ModelData V)} :
    compile mapping options (.leaf l) = .ok ev ↔
      ∃ component, mapping.get? l.taggedName = some component ∧
        ev = ⟨component, leafEvaluation options.checkShapes component l.data⟩ := by
  rw [compile]
  rcases mapping.get? l.taggedName with _ | component
  · simp
  · simp [eq_comm]

theorem compile_op_eq_ok {id : NodeId} {o : Operator} {r : Resolution} {x y : Model V} :
    compile mapping options (.op id o r x y) = .ok ev ↔
      ∃ m₁ m₂, compile mapping options x = .ok m₁ ∧ compile mapping options y = .ok m₂ ∧
        ev = ⟨substitute (Expr.op id o r x y).name mapping,
          r.shape.evaluation (substitute (Expr.op id o r x y).name mapping) m₁ m₂⟩ := by
  simp only [compile, Except.bind_eq_ok, Except.ok.injEq, exists_and_left, eq_comm (b := ev)]

theorem exists_compile (options : CompileOptions) :
    ∀ {m : Model V}, (∀ l ∈ m.leaves, l.taggedName ∈ mapping.keys) →
      ∃ ev, compile mapping options m = .ok ev
  | .leaf l, h => by
    obtain ⟨component, hc⟩ := OrderedMap.exists_get?_iff.2 (h l (List.mem_singleton_self l))
    exact ⟨_, compile_leaf_eq_ok.2 ⟨component, hc, rfl⟩⟩
  | .op _ _ _ _ _, h => by
    obtain ⟨m₁, h₁⟩ := exists_compile options fun l hl => h l (List.mem_append_left _ hl)
    obtain ⟨m₂, h₂⟩ := exists_compile options fun l hl => h l (List.mem_append_right _ hl)
    exact ⟨_, compile_op_eq_ok.2 ⟨m₁, m₂, h₁, h₂, rfl⟩⟩

section Failures

variable {x y : Model V} {m₁ : Evaluator V} {e : EvaluationError} (id : NodeId) (o : Operator)
  (r : Resolution)

theorem compile_op_error_left (hx : compile mapping options x = .error e) :
    compile mapping options (.op id o r x y) = .error e := by
  rw [compile, hx]
  rfl

theorem compile_op_error_right (hx : compile mapping options x = .ok m₁)
    (hy : compile mapping options y = .error e) :
    compile mapping options (.op id o r x y) = .error e := by
  rw [compile, hx, hy]
  rfl

end Failures

/-- Compiling fails for the first leaf that is not in the mapping. -/
theorem compile_eq_error {l : Leaf (ModelData V)} : ∀ {m : Model V},
    m.leaves.find? (fun l => l.taggedName ∉ mapping.keys) = some l →
      compile mapping options m = .error (.unmappedComponent l.taggedName)
  | .leaf l', h => by
    have hl := List.find?_some h
    obtain rfl := List.mem_singleton.1 (List.mem_of_find?_eq_some h)
    rw [decide_eq_true_eq, ← OrderedMap.contains_iff, OrderedMap.contains,
      Option.not_isSome_iff_eq_none] at hl
    rw [compile, hl]
  | .op id o r x y, h => by
    rw [Expr.leaves, List.find?_append] at h
    rcases hx : x.leaves.find? fun l => l.taggedName ∉ mapping.keys with _ | l'
    · rw [hx, Option.none_or] at h
      obtain ⟨m₁, h₁⟩ := exists_compile options (mapped_of_find?_eq_none hx)
      exact compile_op_error_right id o r h₁ (compile_eq_error h)
    · rw [hx, Option.some_or] at h
      obtain rfl := Option.some.inj h
      exact compile_op_error_left id o r (compile_eq_error hx)

/-- A relation of evaluators by kind holds of two compilations of a tree if it holds of the leaves
and every legal shape passes it on from the operands. -/
theorem compile_relates {R : ModelKind → Evaluator V → Evaluator V → Prop}
    {f : Leaf (ModelData V) → Leaf (ModelData V)}
    (op : ∀ {o k₁ k₂ r}, Resolution.infer o k₁ k₂ = .ok r → ∀ {m₁ m₁' m₂ m₂'}, R k₁ m₁ m₁' →
      R k₂ m₂ m₂' → ∀ name name' label label', R r.kind ⟨name, r.shape.evaluation label m₁ m₂⟩
        ⟨name', r.shape.evaluation label' m₁' m₂'⟩) :
    ∀ {m : Model V}, m.WellKinded →
      (∀ l ∈ m.leaves, l.data.generator.kind = l.data.kind → ∀ component component',
        mapping.get? l.taggedName = some component →
          mapping'.get? (f l).taggedName = some component' →
            R l.data.kind ⟨component, leafEvaluation options.checkShapes component l.data⟩
              ⟨component', leafEvaluation options'.checkShapes component' (f l).data⟩) →
        ∀ {ev ev'}, compile mapping options m = .ok ev →
          compile mapping' options' (m.mapLeaves f) = .ok ev' → R m.kind ev ev'
  | .leaf l, hw, leaf, ev, ev', h, h' => by
    obtain ⟨component, hc, rfl⟩ := compile_leaf_eq_ok.1 h
    obtain ⟨component', hc', rfl⟩ := compile_leaf_eq_ok.1 h'
    exact leaf l (List.mem_singleton_self l) hw component component' hc hc'
  | .op id o r x y, ⟨hx, hy, hr⟩, leaf, ev, ev', h, h' => by
    obtain ⟨m₁, m₂, h₁, h₂, rfl⟩ := compile_op_eq_ok.1 h
    obtain ⟨m₁', m₂', h₁', h₂', rfl⟩ := compile_op_eq_ok.1 h'
    have ihx := compile_relates op hx (fun l hl => leaf l (List.mem_append_left _ hl)) h₁ h₁'
    have ihy := compile_relates op hy (fun l hl => leaf l (List.mem_append_right _ hl)) h₂ h₂'
    exact op hr ihx ihy _ _ _ _

/-- The case of one compilation. -/
theorem compile_induction {P : ModelKind → Evaluator V → Prop}
    (op : ∀ {o k₁ k₂ r}, Resolution.infer o k₁ k₂ = .ok r → ∀ {m₁ m₂}, P k₁ m₁ → P k₂ m₂ →
      ∀ name label, P r.kind ⟨name, r.shape.evaluation label m₁ m₂⟩)
    {m : Model V} (hw : m.WellKinded)
    (leaf : ∀ l ∈ m.leaves, l.data.generator.kind = l.data.kind → ∀ component,
      mapping.get? l.taggedName = some component →
        P l.data.kind ⟨component, leafEvaluation options.checkShapes component l.data⟩)
    (h : compile mapping options m = .ok ev) : P m.kind ev := by
  have h' : compile mapping options (m.mapLeaves fun l => l) = .ok ev := by
    rw [Expr.mapLeaves_id]
    exact h
  exact compile_relates (R := fun k ev _ => P k ev) (f := fun l => l)
    (fun hr _ _ _ _ h₁ h₂ name _ label _ => op hr h₁ h₂ name label) hw
    (fun l hl hk component _ hc _ => leaf l hl hk component hc) h h'

end Model

end SpectralAlgebra
