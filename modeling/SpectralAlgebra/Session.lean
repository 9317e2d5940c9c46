import SpectralAlgebra.CompiledModel

/-!
# Sessions

A session issues identities, records the edits made to leaves and keeps the log. Every change of a
session goes through the operations here. One that fails gives no session, so the one before it
still stands: nothing was made and nothing has changed.
-/

namespace SpectralAlgebra

structure Session where
  issued : Nat := 0
  edits : Edits := ∅
  level : Log.Level := .off
  entries : List Log.Entry := []

namespace Session

variable {V : Type}

def nextId (s : Session) : NodeId := .fresh s.issued

def issue (s : Session) : Session := { s with issued := s.issued + 1 }

/-- Keeps the entries that the level admits. Entries are not made where none is. -/
@[macro_inline] def log (s : Session) (entries : List Log.Entry) : Session :=
  if s.level = .off then s
  else { s with entries := s.entries ++ entries.filter fun e => s.level.admits e.level }

theorem edits_log (s : Session) (entries : List Log.Entry) : (s.log entries).edits = s.edits := by
  unfold log
  split <;> rfl

theorem issued_log (s : Session) (entries : List Log.Entry) :
    (s.log entries).issued = s.issued := by
  unfold log
  split <;> rfl

def setLevel (s : Session) (level : Log.Level) : Session := { s with level }

def takeEntries (s : Session) : List Log.Entry × Session := (s.entries, { s with entries := [] })

def parameter (s : Session) (name formula : String) (default : Float) (prior : Prior)
    (derived : Option Derived) (attributes : Attributes) :
    Except ParameterError (Parameter × Session) := do
  let p ← Parameter.make s.nextId name formula default prior derived attributes
  .ok (p, s.issue)

def uniform (s : Session) (name formula : String) (default low high : Float) :
    Except ParameterError (Parameter × Session) := do
  let p ← Parameter.uniform s.nextId name formula default low high
  .ok (p, s.issue)

def fixed (s : Session) (name formula : String) (value : Float) :
    Except ParameterError (Parameter × Session) := do
  let p ← Parameter.fixed s.nextId name formula value
  .ok (p, s.issue)

def model (s : Session) (name formula : String) (kind : ModelKind)
    (parameters : List (String × Parameter)) (generator : Generator V) (attributes : Attributes) :
    Except ModelError (Model V × Session) := do
  let m ← Model.make s.nextId name formula kind parameters generator attributes
  .ok (m, s.issue)

def combine (s : Session) (o : Operator) (lh rh : Node V) :
    Except CompositionError (Node V × Session) := do
  let n ← Node.combine s.nextId o lh rh
  .ok (n, s.issue.log (Node.compositionEntries o lh rh n))

/-- Sets the default of a parameter leaf, checked against its prior. -/
def setDefault (s : Session) (p : Parameter) (value : Float) : Except ParameterError Session :=
  match p with
  | .op .. => .error (.node (.notALeaf p.plainName))
  | .leaf l => do
    l.data.prior.check l.name value
    .ok { s with edits.defaults := s.edits.defaults.insert l.id value }

def setFormula (s : Session) (n : Node V) (formula : String) : Except NodeError Session :=
  if n.isOperation then .error (.notALeaf n.plainName)
  else .ok { s with edits.formulas := s.edits.formulas.insert n.id formula }

def setAttribute (s : Session) (n : Node V) (key : String) (value : Json) :
    Except NodeError Session :=
  if reservedAttributes.contains key then .error (.reservedAttribute key)
  else
    let attributes := (n.attributes s.edits).insert key value
    .ok { s with edits.attributes := s.edits.attributes.insert n.id attributes }

def labelSpace (s : Session) (n : Node V) : LabelSpace V := .make s.edits n

/-- Brings a numbering of a label space up to date before it is read. -/
def consult (s : Session) (kind : LabelKind) (sp : LabelSpace V) : LabelSpace V × Session :=
  (sp.consult s.edits kind, s.log (sp.consultEntries s.edits kind))

def consultCompiled (s : Session) (kind : LabelKind) (c : CompiledModel V) :
    CompiledModel V × Session :=
  (c.consult s.edits kind, s.log (c.labels.consultEntries s.edits kind))

/-- Compiles a model. The entries are kept whether it succeeds or not. -/
def compile [Add V] [Mul V] (s : Session) (m : Model V) (options : CompileOptions) :
    Outcome (CompiledModel V) × Session :=
  (CompiledModel.make s.edits m options, s.log (CompiledModel.makeEntries s.edits m))

def generate [Add V] [Mul V] (s : Session) (mapping : OrderedMap String String) (m : Model V) :
    Outcome (Evaluator V) × Session :=
  (Model.generate mapping m, s.log (Model.report mapping m).1)

/-- Replays a site, with a warning for each value that belongs to no sample site. -/
def replay (s : Session) (site : Site) (samples : Site.Values) :
    Except SiteError Site.Values × Session :=
  (site.replay samples, s.log (site.replayWarnings samples))

def paramValues (s : Session) (c : CompiledModel V) (samples : Site.Values) :
    Except SiteError (ParamValues Float) × Session :=
  (c.paramValues s.edits samples, s.log (c.site.replayWarnings samples))

end Session

end SpectralAlgebra
