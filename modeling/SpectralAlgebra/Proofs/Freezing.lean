import SpectralAlgebra.Proofs.Workspace

/-!
# Compiled models are frozen

A compiled model keeps its evaluator, and what else is asked of it comes from the names and the
identities of its leaves, which are not edited: whatever is called later, it evaluates as it did,
and its name, components, parameters and site are what they were (`Workspace.compiled_frozen`). Only
defaults and formula labels are read anew: the default of a leaf is the last that was accepted for
it, or else the one it was made with, and so is its formula label.

To read a compiled model is to consult its label space, and no other call touches it. So along a
run a place of the workspace holds later and later states of one compiled model
(`Workspace.later_run`), and in what they show these differ by the edits alone
(`CompiledModel.Later.frozen`). What the edits hold is what the accepted calls have put there
(`Workspace.Recorded.run`).
-/

namespace SpectralAlgebra

variable {V : Type} [Add V] [Mul V]

/-! ## What is settled when a model is compiled -/

/-- The label of a node whose leaves have the given raw labels. -/
def Node.labelWith (kind : LabelKind) (text : Leaf Unit → String) (n : Node V) : String :=
  substitute (n.render kind fun l => tag (text l) l.id)
    (.ofList (resolveLabels kind [] (n.leaves.map fun l => (text l, l.id))))

namespace CompiledModel

variable {edits : Edits} {m : Model V} {options : CompileOptions} {c c' : CompiledModel V}

/-- What is settled for good when a model is compiled: all but the defaults and the formula label,
which are those of the time that they are asked for. -/
structure Frozen (edits edits' : Edits) (c c' : CompiledModel V) : Prop where
  evaluateWith : ∀ params grid flux? source?,
    c'.evaluateWith params grid flux? source? = c.evaluateWith params grid flux? source?
  name : c'.name edits' = c.name edits
  evaluator_name : c'.evaluator.name = c.evaluator.name
  components : c'.components edits' = c.components edits
  parameters : c'.parameters edits' = c.parameters edits
  site : c'.site = c.site
  defaults : c.model.Reports edits' (fun ps => ps.mapValues (Parameter.valueOf edits'.defaultOf))
    (c'.defaults edits')
  formula : c'.formula edits'
    = (Node.model c.model).labelWith .formula fun l => l.raw edits' .formula

theorem Later.frozen (hc : c.Later c') (h : make edits m options = .ok c) (edits' : Edits) :
    c.Frozen edits edits' c' := by
  have hr : c.labels.Reached (.model m) := reached_of_make h
  have hr' : c'.labels.Reached (.model m) := hc.reached hr
  have hm : c.model = m := model_of_make h
  have hm' : c'.model = c.model := hc.model_eq
  have hresolve : c'.resolve edits' = c.resolve edits := by
    funext tagged
    rw [resolve, resolve, LabelSpace.resolve?, LabelSpace.resolve?, mapping_name_eq hr' hr]
  constructor
  · intro params grid flux? source?
    rw [evaluateWith, evaluateWith, hc.evaluator_eq]
  · exact label_name_eq hr' hr edits' edits
  · rw [hc.evaluator_eq]
  · rw [components, components, hresolve, hm']
  · rw [parameters, parameters, reported, reported, hresolve, hm']
  · rw [site, site, hm']
  · rw [← hm', ← funext (Parameter.default_eq edits')]
    exact reports_reported (hm'.trans hm ▸ hr') _
  · rw [formula, LabelSpace.label, hr'.mapping_eq, hr'.node_eq, hm]
    rfl

end CompiledModel

omit [Add V] [Mul V] in
/-- To put a later state in the place of a compiled model leaves the others as they are. -/
theorem CompiledModel.later_set {cs : List (CompiledModel V)} {i k : Nat} {c d d' : CompiledModel V}
    (hc : cs[k]? = some c) (hd : cs[i]? = some d) (h : d.Later d') :
    ∃ c', (cs.set i d')[k]? = some c' ∧ c.Later c' := by
  by_cases hik : i = k
  · subst hik
    obtain rfl := Option.some.inj (hc.symm.trans hd)
    exact ⟨d', List.getElem?_set_self (List.getElem?_eq_some_iff.1 hd).1, h⟩
  · exact ⟨c, (List.getElem?_set_ne hik).trans hc, .refl⟩

namespace Workspace

variable {w : Workspace V} {k : Nat} {c : CompiledModel V}

theorem later_access (h : w.compiled[k]? = some c) :
    ∀ a : Access, ∃ c', (w.access a).1.compiled[k]? = some c' ∧ c.Later c'
  | .level _ => ⟨c, h, .refl⟩
  | .labelSpace i => by
    simp only [access]
    split <;> exact ⟨c, h, .refl⟩
  | .read kind i => by
    simp only [access]
    split <;> exact ⟨c, h, .refl⟩
  | .compile i options => by
    simp only [access]
    split
    · exact ⟨c, h, .refl⟩
    · exact ⟨c, (List.getElem?_append_left (List.getElem?_eq_some_iff.1 h).1).trans h, .refl⟩
  | .readCompiled kind i => by
    simp only [access]
    split
    · exact ⟨c, h, .refl⟩
    · rename_i d hd
      exact CompiledModel.later_set h hd (.consult _ kind .refl)
  | .paramValues i samples => by
    simp only [access]
    split
    · exact ⟨c, h, .refl⟩
    · rename_i d hd
      exact CompiledModel.later_set h hd (.consult _ .name .refl)

theorem later_step (h : w.compiled[k]? = some c) :
    ∀ call : Call V, ∃ c', (w.step call).1.compiled[k]? = some c' ∧ c.Later c'
  | .make plan => by
    simp only [step]
    split <;> exact ⟨c, h, .refl⟩
  | .edit i e => by
    simp only [step]
    split <;> exact ⟨c, h, .refl⟩
  | .access a => later_access h a

theorem later_run : ∀ (calls : List (Call V)) {w : Workspace V} {c : CompiledModel V},
    w.compiled[k]? = some c → ∃ c', (w.run calls).compiled[k]? = some c' ∧ c.Later c'
  | [], _, c, h => ⟨c, h, .refl⟩
  | call :: rest, w, c, h => by
    obtain ⟨c₁, h₁, hc₁⟩ := later_step h call
    obtain ⟨c', h', hc'⟩ := later_run rest h₁
    exact ⟨c', h', hc₁.trans hc'⟩

/-- A compilation that is not refused adds the compiled model at the end. -/
theorem step_compile {i : Nat} {options : CompileOptions}
    (h : (w.step (.access (.compile i options))).2 = .ok ()) :
    ∃ m c, w.nodes[i]? = some (.model m) ∧
      CompiledModel.make w.session.edits m options = .ok c ∧
      (w.step (.access (.compile i options))).1.compiled = w.compiled ++ [c] := by
  simp only [step, access] at h ⊢
  split at h
  · cases h
  · rename_i m hm
    simp only [Session.compile] at h ⊢
    rcases hc : CompiledModel.make w.session.edits m options with e | c
    · rw [hc] at h
      cases h
    · exact ⟨m, c, modelAt_eq_ok hm, hc, rfl⟩

end Workspace

/-! ## What was accepted last -/

def Edit.default? : Edit → Option Float
  | default value => some value
  | formula _ => none
  | annotate _ _ => none

def Edit.formula? : Edit → Option String
  | default _ => none
  | formula text => some text
  | annotate _ _ => none

namespace Workspace

variable {α : Type}

/-- What a call sets for the node with an identity, if it is accepted. -/
def accepted? (take? : Edit → Option α) (i : NodeId) (w : Workspace V) : Call V → Option α
  | .make _ => none
  | .edit place e =>
    match nodeAt w.nodes place, (w.step (.edit place e)).2 with
    | .ok n, .ok () => if n.id = i then take? e else none
    | _, _ => none
  | .access _ => none

/-- What is set by the last of the calls that sets something for the node with an identity and is
accepted. -/
def lastAccepted? (take? : Edit → Option α) (i : NodeId) : Workspace V → List (Call V) → Option α
  | _, [] => none
  | w, call :: rest =>
    (lastAccepted? take? i (w.step call).1 rest).or (w.accepted? take? i call)

/-- The default of a leaf after a history of calls. -/
def defaultAfter (history : List (Call V)) (l : Leaf ParameterData) : Float :=
  (lastAccepted? Edit.default? l.id {} history).getD l.data.default

/-- The formula label of a leaf after a history of calls. -/
def formulaAfter (history : List (Call V)) (l : Leaf Unit) : String :=
  (lastAccepted? Edit.formula? l.id {} history).getD l.formula

/-- What an accepted edit sets for a node is put under its identity, and nothing else is. -/
def Recorded (V : Type) (take? : Edit → Option α) (record : Edits → OrderedMap NodeId α) : Prop :=
  ∀ {s s' : Session} {n : Node V} {e : Edit}, e.apply s n = .ok s' → ∀ i,
    (record s'.edits).get? i = (if n.id = i then take? e else none).or ((record s.edits).get? i)

omit [Add V] [Mul V] in
theorem recorded_defaults : Recorded V Edit.default? Edits.defaults
  | s, s', n, .default value, h, i => by
    obtain ⟨l, rfl, -, rfl⟩ := Edit.apply_default_eq_ok h
    rw [OrderedMap.get?_insert]
    by_cases hi : l.id = i
    · simp [Node.id, Expr.id, Edit.default?, hi]
    · simp [Node.id, Expr.id, hi, Ne.symm hi]
  | s, s', n, .formula text, h, i => by
    obtain ⟨-, rfl⟩ := Session.setFormula_eq_ok (Except.mapError_eq_ok.1 h)
    rw [Edit.default?, ite_self, Option.none_or]
  | s, s', n, .annotate key value, h, i => by
    obtain ⟨-, rfl⟩ := Session.setAttribute_eq_ok (Except.mapError_eq_ok.1 h)
    rw [Edit.default?, ite_self, Option.none_or]

omit [Add V] [Mul V] in
theorem recorded_formulas : Recorded V Edit.formula? Edits.formulas
  | s, s', n, .default value, h, i => by
    obtain ⟨l, rfl, -, rfl⟩ := Edit.apply_default_eq_ok h
    rw [Edit.formula?, ite_self, Option.none_or]
  | s, s', n, .formula text, h, i => by
    obtain ⟨-, rfl⟩ := Session.setFormula_eq_ok (Except.mapError_eq_ok.1 h)
    rw [OrderedMap.get?_insert]
    by_cases hi : n.id = i
    · simp [Edit.formula?, hi]
    · simp [hi, Ne.symm hi]
  | s, s', n, .annotate key value, h, i => by
    obtain ⟨-, rfl⟩ := Session.setAttribute_eq_ok (Except.mapError_eq_ok.1 h)
    rw [Edit.formula?, ite_self, Option.none_or]

namespace Recorded

variable {take? : Edit → Option α} {record : Edits → OrderedMap NodeId α}

theorem step (hr : Recorded V take? record) (w : Workspace V) (i : NodeId) : ∀ call : Call V,
    (record (w.step call).1.session.edits).get? i
      = (w.accepted? take? i call).or ((record w.session.edits).get? i)
  | .make plan => by
    simp only [Workspace.step, accepted?, Option.none_or]
    split
    · rfl
    · rename_i hmade
      rw [(Plan.make_eq_ok hmade).2.2]
  | .access a => by
    rw [accepted?, Option.none_or, Workspace.step, (w.access_frame a).2.1]
  | .edit place e => by
    simp only [accepted?, Workspace.step]
    rcases hn : nodeAt w.nodes place with refusal | n
    · rfl
    · rcases hs : e.apply w.session n with refusal | s
      · simp [Except.bind, bind, hs]
      · simpa [Except.bind, bind, hs] using hr hs i

theorem run (hr : Recorded V take? record) (i : NodeId) : ∀ (calls : List (Call V))
    (w : Workspace V), (record (w.run calls).session.edits).get? i
      = (lastAccepted? take? i w calls).or ((record w.session.edits).get? i)
  | [], _ => rfl
  | call :: rest, w => by
    rw [Workspace.run, run hr i rest, hr.step, lastAccepted?, Option.or_assoc]

end Recorded

theorem defaultOf_run (history : List (Call V)) (l : Leaf ParameterData) :
    (run {} history).session.edits.defaultOf l = defaultAfter history l := by
  have h := recorded_defaults.run l.id history {}
  rw [Edits.defaultOf, h]
  exact congrArg (Option.getD · _) Option.or_none

theorem raw_formula_run (history : List (Call V)) (l : Leaf Unit) :
    l.raw (run {} history).session.edits .formula = formulaAfter history l := by
  have h := recorded_formulas.run l.id history {}
  rw [Leaf.raw, h]
  exact congrArg (Option.getD · _) Option.or_none

theorem run_append : ∀ (front back : List (Call V)) (w : Workspace V),
    w.run (front ++ back) = (w.run front).run back
  | [], _, _ => rfl
  | call :: front, back, w => run_append front back (w.step call).1

/-- Whatever is made, edited, compiled and read after a model is compiled, its results, its name,
components, parameters and site stay what they were, while its defaults and its formula label are
those of the edits at the time. By the whole history of calls, the default of a leaf is the last one
that was accepted, or else that which the leaf was made with, and so is its formula label. -/
theorem compiled_frozen (w : Workspace V) (i : Nat) (options : CompileOptions)
    (h : (w.step (.access (.compile i options))).2 = .ok ()) (calls : List (Call V)) :
    ∃ m c c', w.nodes[i]? = some (.model m) ∧
      CompiledModel.make w.session.edits m options = .ok c ∧
      (w.step (.access (.compile i options))).1.compiled[w.compiled.length]? = some c ∧
      (w.run (.access (.compile i options) :: calls)).compiled[w.compiled.length]? = some c' ∧
      c.Frozen w.session.edits (w.run (.access (.compile i options) :: calls)).session.edits c' ∧
      ∀ history, w = run {} history →
        (∀ l, (w.run (.access (.compile i options) :: calls)).session.edits.defaultOf l
          = defaultAfter (history ++ .access (.compile i options) :: calls) l) ∧
        ∀ l, l.raw (w.run (.access (.compile i options) :: calls)).session.edits .formula
          = formulaAfter (history ++ .access (.compile i options) :: calls) l := by
  obtain ⟨m, c, hm, hmake, hadded⟩ := step_compile h
  have hc : (w.step (.access (.compile i options))).1.compiled[w.compiled.length]? = some c := by
    rw [hadded, List.getElem?_concat_length]
  obtain ⟨c', hc', hlater⟩ := later_run calls hc
  refine ⟨m, c, c', hm, hmake, hc, hc', hlater.frozen hmake _, fun history hw => ?_⟩
  rw [hw, ← run_append]
  exact ⟨defaultOf_run _, raw_formula_run _⟩

namespace Kept

def quantity : Leaf ParameterData :=
  ⟨.fresh 0, "K", "K", ∅, ⟨2, .distribution (.uniform 0 10), none⟩⟩

/-- A line of norm `K`. -/
def line : Leaf (ModelData Float) :=
  ⟨.fresh 1, "Line", "L", ∅, .additive, .singleton "K" (.leaf quantity),
    .additive fun _ grid own => grid.tail.map (· * (own.get? "K").getD 1)⟩

def model : Model Float := .leaf line

def history : List (Call Float) :=
  [.make (.uniform "K" "K" 2 0 10), .make (.model "Line" "L" .additive [("K", 0)]
    (.additive fun _ grid own => grid.tail.map (· * (own.get? "K").getD 1)) ∅)]

def start : Workspace Float := run {} history

/-- The second default is outside the support. -/
def calls : List (Call Float) :=
  [.edit 0 (.default 3), .edit 1 (.formula "\\ell"), .edit 0 (.default 20),
    .access (.compile 1 {}), .access (.readCompiled .formula 0)]

def desk : Workspace Float := start.run (.access (.compile 1 {}) :: calls)

end Kept

open Kept in
/-- Both compiled models, one from before the edits and one from after, show the new label. The
default that was refused is not reported, but the one before it. -/
theorem compiled_frozen_kept : (start.step (.access (.compile 1 {}))).2 = .ok () ∧
    ((start.run (calls.take 2)).step (.edit 0 (.default 20))).2.isOk = false ∧
    (∃ c c' own, (start.step (.access (.compile 1 {}))).1.compiled[0]? = some c ∧
      desk.compiled[0]? = some c' ∧ c.Frozen ∅ desk.session.edits c' ∧
      (c'.defaults desk.session.edits).get? "Line" = some own ∧ own.entries = [("K", 3)]) ∧
    (desk.compiled.map fun c => c.formula desk.session.edits) = ["\\ell", "\\ell"] := by
  have h : (start.step (.access (.compile 1 {}))).2 = .ok () := rfl
  obtain ⟨m, c, c', hm, hmake, hc, hc', hfrozen, hhistory⟩ := compiled_frozen start 1 {} h calls
  obtain ⟨hdefault, -⟩ := hhistory history rfl
  have hline : start.nodes[1]? = some (.model model) := rfl
  obtain rfl : m = model := by
    rw [hline] at hm
    cases hm
    rfl
  have hmodel : c.model = model := CompiledModel.model_of_make hmake
  have hname : model.componentName desk.session.edits line = "Line" := by
    decide +kernel
  have hlast : model.ShownLast desk.session.edits line := ⟨[], [], rfl, nofun⟩
  have hf : c.Frozen ∅ desk.session.edits c' := hfrozen
  have hreported := hf.defaults.get?_eq line (hmodel.symm ▸ hlast)
  rw [hmodel, hname] at hreported
  have hquantity : desk.session.edits.defaultOf quantity = 3 :=
    (hdefault quantity).trans (by decide +kernel)
  refine ⟨h, by decide +kernel, ⟨c, c', _, hc, hc', hf, hreported, ?_⟩, by decide +kernel⟩
  exact congrArg (fun x => [("K", x)]) hquantity

end Workspace

end SpectralAlgebra
