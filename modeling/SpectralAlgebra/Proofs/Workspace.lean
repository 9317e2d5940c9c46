import SpectralAlgebra.Proofs.Chains
import SpectralAlgebra.Proofs.Completeness
import SpectralAlgebra.Session

/-!
# Runs of a workspace

A workspace holds what a session has made: nodes, label spaces and compiled models. It is called to
make nodes of those there are, to edit them, and to read, in any order, and a call may be refused.

Whatever is called, the defaults that are in effect are admitted by their priors, no attribute has a
reserved key, and models have the kinds and the composites the resolutions that they should have,
and a refused call has changed no node and no edit (`Workspace.run_sound`). Edits are recorded by
identity, so what carries the defaults through a run is that every identity in use was issued before
and belongs to one leaf (`Workspace.Tracked`).
-/

namespace SpectralAlgebra

variable {V : Type}

/-! ## Calls -/

/-- What a call is refused for. A place without a node of the right family is `absent`. -/
inductive Refusal where
  | absent
  | parameter (e : ParameterError)
  | model (e : ModelError)
  | composition (e : CompositionError)
  | node (e : NodeError)
  | evaluation (e : EvaluationError)

/-- A node to be made. Nodes that it is made of are given by their places. -/
inductive Plan (V : Type) where
  | parameter (name formula : String) (default : Float) (prior : Prior)
      (derived : Option (String × Nat × Combinator)) (attributes : Attributes)
  | uniform (name formula : String) (default low high : Float)
  | fixed (name formula : String) (value : Float)
  | model (name formula : String) (kind : ModelKind) (parameters : List (String × Nat))
      (generator : Generator V) (attributes : Attributes)
  | composite (o : Operator) (lh rh : Nat)

def Node.parameter? : Node V → Option Parameter
  | parameter p => some p
  | model _ => none

def Node.model? : Node V → Option (Model V)
  | parameter _ => none
  | model m => some m

/-- What is taken from the node in a place. -/
def takeAt {α : Type} (take? : Node V → Option α) (nodes : List (Node V)) (i : Nat) :
    Except Refusal α :=
  match nodes[i]?.bind take? with
  | some a => .ok a
  | none => .error .absent

def nodeAt (nodes : List (Node V)) (i : Nat) : Except Refusal (Node V) := takeAt some nodes i

def parameterAt (nodes : List (Node V)) (i : Nat) : Except Refusal Parameter :=
  takeAt Node.parameter? nodes i

def modelAt (nodes : List (Node V)) (i : Nat) : Except Refusal (Model V) :=
  takeAt Node.model? nodes i

def parametersAt (nodes : List (Node V)) :
    List (String × Nat) → Except Refusal (List (String × Parameter))
  | [] => .ok []
  | (name, i) :: rest => do
    let p ← parameterAt nodes i
    let ps ← parametersAt nodes rest
    .ok ((name, p) :: ps)

namespace Plan

def derive : Option (String × Nat × Combinator) → Except ParameterError (Option Derived)
  | none => .ok none
  | some (template, arity, combine) => (Derived.make template arity combine).map some

def make (s : Session) (nodes : List (Node V)) : Plan V → Except Refusal (Node V × Session)
  | parameter name formula default prior derived attributes => do
    let derived ← (derive derived).mapError .parameter
    let (p, s) ← (s.parameter name formula default prior derived attributes).mapError .parameter
    .ok (.parameter p, s)
  | uniform name formula default low high => do
    let (p, s) ← (s.uniform name formula default low high).mapError .parameter
    .ok (.parameter p, s)
  | fixed name formula value => do
    let (p, s) ← (s.fixed name formula value).mapError .parameter
    .ok (.parameter p, s)
  | model name formula kind parameters generator attributes => do
    let parameters ← parametersAt nodes parameters
    let (m, s) ← (s.model name formula kind parameters generator attributes).mapError .model
    .ok (.model m, s)
  | composite o lh rh => do
    let lh ← nodeAt nodes lh
    let rh ← nodeAt nodes rh
    (s.combine o lh rh).mapError .composition

end Plan

inductive Edit where
  | default (value : Float)
  | formula (text : String)
  | annotate (key : String) (value : Json)

def Edit.apply (s : Session) (n : Node V) : Edit → Except Refusal Session
  | default value =>
    match n with
    | .parameter p => (s.setDefault p value).mapError .parameter
    | .model _ => .error .absent
  | formula text => (s.setFormula n text).mapError .node
  | annotate key value => (s.setAttribute n key value).mapError .node

/-- A call that makes no node and edits none. Label spaces and compiled models are given by their
places; to read one is to consult it first. -/
inductive Access where
  | level (level : Log.Level)
  | labelSpace (i : Nat)
  | read (kind : LabelKind) (i : Nat)
  | compile (i : Nat) (options : CompileOptions)
  | readCompiled (kind : LabelKind) (i : Nat)
  | paramValues (i : Nat) (samples : Site.Values)

inductive Call (V : Type) where
  | make (plan : Plan V)
  | edit (i : Nat) (e : Edit)
  | access (a : Access)

structure Workspace (V : Type) where
  session : Session := {}
  nodes : List (Node V) := []
  spaces : List (LabelSpace V) := []
  compiled : List (CompiledModel V) := []

namespace Workspace

section Steps

variable [Add V] [Mul V]

def access (w : Workspace V) : Access → Workspace V × Except Refusal Unit
  | .level level => ({ w with session := w.session.setLevel level }, .ok ())
  | .labelSpace i =>
    match nodeAt w.nodes i with
    | .error e => (w, .error e)
    | .ok n => ({ w with spaces := w.spaces ++ [w.session.labelSpace n] }, .ok ())
  | .read kind i =>
    match w.spaces[i]? with
    | none => (w, .error .absent)
    | some sp =>
      let (sp, session) := w.session.consult kind sp
      ({ w with session, spaces := w.spaces.set i sp }, .ok ())
  | .compile i options =>
    match modelAt w.nodes i with
    | .error e => (w, .error e)
    | .ok m =>
      let (result, session) := w.session.compile m options
      ({ w with session, compiled := w.compiled ++ result.toOption.toList },
        (result.map fun _ => ()).mapError .evaluation)
  | .readCompiled kind i =>
    match w.compiled[i]? with
    | none => (w, .error .absent)
    | some c =>
      let (c, session) := w.session.consultCompiled kind c
      ({ w with session, compiled := w.compiled.set i c }, .ok ())
  | .paramValues i samples =>
    match w.compiled[i]? with
    | none => (w, .error .absent)
    | some c =>
      let (c, session) := w.session.consultCompiled .name c
      let (result, session) := session.paramValues c samples
      ({ w with session, compiled := w.compiled.set i c },
        (result.map fun _ => ()).mapError fun e => .evaluation (.site e))

/-- The workspace after a call, and whether the call was refused. -/
def step (w : Workspace V) : Call V → Workspace V × Except Refusal Unit
  | .make plan =>
    match plan.make w.session w.nodes with
    | .error e => (w, .error e)
    | .ok (n, session) => ({ w with session, nodes := w.nodes ++ [n] }, .ok ())
  | .edit i e =>
    match nodeAt w.nodes i >>= e.apply w.session with
    | .error e => (w, .error e)
    | .ok session => ({ w with session }, .ok ())
  | .access a => w.access a

def run : Workspace V → List (Call V) → Workspace V
  | w, [] => w
  | w, c :: rest => run (w.step c).1 rest

end Steps

end Workspace

/-! ## What a call does -/

theorem takeAt_eq_ok {α : Type} {take? : Node V → Option α} {nodes : List (Node V)} {i : Nat}
    {a : α} (h : takeAt take? nodes i = .ok a) : ∃ n, nodes[i]? = some n ∧ take? n = some a := by
  unfold takeAt at h
  split at h
  · rename_i hi
    obtain rfl := Except.ok.inj h
    exact Option.bind_eq_some_iff.1 hi
  · cases h

theorem nodeAt_eq_ok {nodes : List (Node V)} {i : Nat} {n : Node V} (h : nodeAt nodes i = .ok n) :
    n ∈ nodes := by
  obtain ⟨n', hn, h⟩ := takeAt_eq_ok h
  exact Option.some.inj h ▸ List.mem_of_getElem? hn

theorem parameterAt_eq_ok {nodes : List (Node V)} {i : Nat} {p : Parameter}
    (h : parameterAt nodes i = .ok p) : .parameter p ∈ nodes := by
  obtain ⟨p' | m, hn, h⟩ := takeAt_eq_ok h
  · exact Option.some.inj h ▸ List.mem_of_getElem? hn
  · cases h

theorem modelAt_eq_ok {nodes : List (Node V)} {i : Nat} {m : Model V}
    (h : modelAt nodes i = .ok m) : nodes[i]? = some (.model m) := by
  obtain ⟨p | m', hn, h⟩ := takeAt_eq_ok h
  · cases h
  · exact Option.some.inj h ▸ hn

theorem parametersAt_eq_ok {nodes : List (Node V)} :
    ∀ {places : List (String × Nat)} {ps : List (String × Parameter)},
      parametersAt nodes places = .ok ps → ∀ e ∈ ps, .parameter e.2 ∈ nodes
  | [], ps, h, e, he => by
    obtain rfl := Except.ok.inj h
    cases he
  | (name, i) :: rest, ps, h, e, he => by
    obtain ⟨p, hp, h⟩ := Except.bind_eq_ok.1 h
    obtain ⟨ps', hps, h⟩ := Except.bind_eq_ok.1 h
    obtain rfl := Except.ok.inj h
    rcases List.mem_cons.1 he with rfl | he
    · exact parameterAt_eq_ok hp
    · exact parametersAt_eq_ok hps e he

theorem names_parametersAt {nodes : List (Node V)} :
    ∀ {places : List (String × Nat)} {ps : List (String × Parameter)},
      parametersAt nodes places = .ok ps → ps.map Prod.fst = places.map Prod.fst
  | [], ps, h => by
    obtain rfl := Except.ok.inj h
    rfl
  | (name, i) :: rest, ps, h => by
    obtain ⟨p, -, h⟩ := Except.bind_eq_ok.1 h
    obtain ⟨ps', hps, h⟩ := Except.bind_eq_ok.1 h
    obtain rfl := Except.ok.inj h
    rw [List.map_cons, List.map_cons, names_parametersAt hps]

/-- The nodes that a session can make next of those there are. -/
inductive Made (s : Session) (nodes : List (Node V)) : Node V → Prop where
  | parameter {name formula : String} {default : Float} {prior : Prior}
      {derived : Option Derived} {attributes : Attributes} {p : Parameter}
      (hd : ∀ d ∈ derived, d.Accepted)
      (h : Parameter.make s.nextId name formula default prior derived attributes = .ok p) :
      Made s nodes (.parameter p)
  | model {name formula : String} {kind : ModelKind} {parameters : List (String × Parameter)}
      {generator : Generator V} {attributes : Attributes} {m : Model V}
      (hp : ∀ e ∈ parameters, .parameter e.2 ∈ nodes)
      (h : Model.make s.nextId name formula kind parameters generator attributes = .ok m) :
      Made s nodes (.model m)
  | combineParameters {o : Operator} {lh rh : Parameter} (hl : .parameter lh ∈ nodes)
      (hr : .parameter rh ∈ nodes) :
      Made s nodes (.parameter (Parameter.combine s.nextId o lh rh))
  | combineModels {o : Operator} {lh rh m : Model V} (hl : .model lh ∈ nodes)
      (hr : .model rh ∈ nodes) (h : Model.combine s.nextId o lh rh = .ok m) :
      Made s nodes (.model m)

theorem Made.of_combine {s : Session} {nodes : List (Node V)} {o : Operator} :
    ∀ {lh rh n : Node V}, lh ∈ nodes → rh ∈ nodes → Node.combine s.nextId o lh rh = .ok n →
      Made s nodes n
  | .parameter lh, .parameter rh, n, hl, hr, h => by
    cases h
    exact .combineParameters hl hr
  | .model lh, .model rh, n, hl, hr, h => by
    rcases hm : Model.combine s.nextId o lh rh with e | m
    · rw [Node.combine, hm] at h
      cases h
    · rw [Node.combine, hm] at h
      cases h
      exact .combineModels hl hr hm

theorem Plan.derive_eq_ok {declared : Option (String × Nat × Combinator)}
    {derived : Option Derived} (h : derive declared = .ok derived) :
    ∀ d ∈ derived, d.Accepted := by
  rcases declared with _ | ⟨template, arity, combine⟩
  · obtain rfl := Except.ok.inj h
    simp
  · rcases hm : Derived.make template arity combine with e | d
    · rw [derive, hm] at h
      cases h
    · rw [derive, hm] at h
      obtain rfl := Except.ok.inj h
      intro d' hd'
      obtain rfl := Option.some.inj hd'
      exact ⟨template, arity, combine, hm⟩

theorem Except.bind_pair_eq_ok {ε α β : Type} {x : Except ε α} {a : α} {b b' : β} :
    (x >>= fun a => .ok (a, b)) = .ok (a, b') ↔ x = .ok a ∧ b = b' := by
  simp [Except.bind_eq_ok]

/-- A node that is made is the next one, and the session has issued one identity more. -/
theorem Plan.make_eq_ok {s s' : Session} {nodes : List (Node V)} {n : Node V} :
    ∀ {plan : Plan V}, plan.make s nodes = .ok (n, s') →
      Made s nodes n ∧ s'.issued = s.issued + 1 ∧ s'.edits = s.edits
  | .parameter name formula default prior derived attributes, h => by
    obtain ⟨derived, hd, h⟩ := Except.bind_eq_ok.1 h
    obtain ⟨⟨p, s₁⟩, hp, h⟩ := Except.bind_eq_ok.1 h
    obtain ⟨hmake, rfl⟩ := Except.bind_pair_eq_ok.1 (Except.mapError_eq_ok.1 hp)
    cases h
    exact ⟨.parameter (derive_eq_ok (Except.mapError_eq_ok.1 hd)) hmake, rfl, rfl⟩
  | .uniform name formula default low high, h => by
    obtain ⟨⟨p, s₁⟩, hp, h⟩ := Except.bind_eq_ok.1 h
    obtain ⟨hmake, rfl⟩ := Except.bind_pair_eq_ok.1 (Except.mapError_eq_ok.1 hp)
    obtain ⟨d, -, hmake⟩ := Except.bind_eq_ok.1 hmake
    cases h
    exact ⟨.parameter (by simp) hmake, rfl, rfl⟩
  | .fixed name formula value, h => by
    obtain ⟨⟨p, s₁⟩, hp, h⟩ := Except.bind_eq_ok.1 h
    obtain ⟨hmake, rfl⟩ := Except.bind_pair_eq_ok.1 (Except.mapError_eq_ok.1 hp)
    cases h
    exact ⟨.parameter (by simp) hmake, rfl, rfl⟩
  | .model name formula kind parameters generator attributes, h => by
    obtain ⟨ps, hps, h⟩ := Except.bind_eq_ok.1 h
    obtain ⟨⟨m, s₁⟩, hm, h⟩ := Except.bind_eq_ok.1 h
    obtain ⟨hmake, rfl⟩ := Except.bind_pair_eq_ok.1 (Except.mapError_eq_ok.1 hm)
    cases h
    exact ⟨.model (parametersAt_eq_ok hps) hmake, rfl, rfl⟩
  | .composite o lh rh, h => by
    obtain ⟨lh, hl, h⟩ := Except.bind_eq_ok.1 h
    obtain ⟨rh, hr, h⟩ := Except.bind_eq_ok.1 h
    obtain ⟨n, hn, hs⟩ := Except.bind_eq_ok.1 (Except.mapError_eq_ok.1 h)
    cases hs
    refine ⟨?_, Session.issued_log .., Session.edits_log ..⟩
    exact .of_combine (nodeAt_eq_ok hl) (nodeAt_eq_ok hr) hn

/-- An edit that is not refused changes what is recorded for one identity. -/
inductive Edited (s : Session) : Node V → Edits → Prop where
  | default (l : Leaf ParameterData) (value : Float) (h : l.data.prior.Admits value) :
    Edited s (.parameter (.leaf l))
      { s.edits with defaults := s.edits.defaults.insert l.id value }
  | formula (n : Node V) (text : String) (h : n.isOperation = false) :
    Edited s n { s.edits with formulas := s.edits.formulas.insert n.id text }
  | annotate (n : Node V) (key : String) (value : Json) (h : key ∉ reservedAttributes) :
    Edited s n { s.edits with
      attributes := s.edits.attributes.insert n.id ((n.attributes s.edits).insert key value) }

namespace Session

variable {s s' : Session} {n : Node V}

theorem setDefault_eq_ok {p : Parameter} {value : Float} (h : s.setDefault p value = .ok s') :
    ∃ l, p = .leaf l ∧ l.data.prior.Admits value ∧
      s' = { s with edits.defaults := s.edits.defaults.insert l.id value } := by
  cases p with
  | leaf l =>
    obtain ⟨_, hc, hs⟩ := Except.bind_eq_ok.1 h
    exact ⟨l, rfl, Prior.check_eq_ok_iff.1 hc, (Except.ok.inj hs).symm⟩
  | op => cases h

theorem setFormula_eq_ok {text : String} (h : s.setFormula n text = .ok s') :
    n.isOperation = false ∧
      s' = { s with edits.formulas := s.edits.formulas.insert n.id text } := by
  unfold setFormula at h
  split at h
  · cases h
  · rename_i ho
    exact ⟨Bool.eq_false_iff.2 ho, (Except.ok.inj h).symm⟩

theorem setAttribute_eq_ok {key : String} {value : Json}
    (h : s.setAttribute n key value = .ok s') : key ∉ reservedAttributes ∧
      s' = { s with edits.attributes :=
        s.edits.attributes.insert n.id ((n.attributes s.edits).insert key value) } := by
  unfold setAttribute at h
  split at h
  · cases h
  · rename_i hk
    exact ⟨fun hm => hk (List.contains_iff_mem.2 hm), (Except.ok.inj h).symm⟩

end Session

theorem Edit.apply_default_eq_ok {s s' : Session} {n : Node V} {value : Float}
    (h : apply s n (.default value) = .ok s') : ∃ l, n = .parameter (.leaf l) ∧
      l.data.prior.Admits value ∧
      s' = { s with edits.defaults := s.edits.defaults.insert l.id value } := by
  cases n with
  | parameter p =>
    obtain ⟨l, rfl, ha, hs⟩ := Session.setDefault_eq_ok (Except.mapError_eq_ok.1 h)
    exact ⟨l, rfl, ha, hs⟩
  | model => cases h

theorem Edit.apply_eq_ok {s s' : Session} {n : Node V} :
    ∀ {e : Edit}, e.apply s n = .ok s' → Edited s n s'.edits ∧ s'.issued = s.issued
  | .default value, h => by
    obtain ⟨l, rfl, ha, rfl⟩ := apply_default_eq_ok h
    exact ⟨.default l value ha, rfl⟩
  | .formula text, h => by
    obtain ⟨ho, rfl⟩ := Session.setFormula_eq_ok (Except.mapError_eq_ok.1 h)
    exact ⟨.formula n text ho, rfl⟩
  | .annotate key value, h => by
    obtain ⟨hk, rfl⟩ := Session.setAttribute_eq_ok (Except.mapError_eq_ok.1 h)
    exact ⟨.annotate n key value hk, rfl⟩

namespace Workspace

variable [Add V] [Mul V]

theorem access_frame (w : Workspace V) : ∀ a : Access, (w.access a).1.nodes = w.nodes ∧
    (w.access a).1.session.edits = w.session.edits ∧
    (w.access a).1.session.issued = w.session.issued
  | .level _ => ⟨rfl, rfl, rfl⟩
  | .labelSpace i => by
    simp only [access]
    split <;> exact ⟨rfl, rfl, rfl⟩
  | .read kind i => by
    simp only [access]
    split
    · exact ⟨rfl, rfl, rfl⟩
    · exact ⟨rfl, Session.edits_log .., Session.issued_log ..⟩
  | .compile i options => by
    simp only [access]
    split
    · exact ⟨rfl, rfl, rfl⟩
    · exact ⟨rfl, Session.edits_log .., Session.issued_log ..⟩
  | .readCompiled kind i => by
    simp only [access]
    split
    · exact ⟨rfl, rfl, rfl⟩
    · exact ⟨rfl, Session.edits_log .., Session.issued_log ..⟩
  | .paramValues i samples => by
    simp only [access]
    split
    · exact ⟨rfl, rfl, rfl⟩
    · exact ⟨rfl, (Session.edits_log ..).trans (Session.edits_log ..),
        (Session.issued_log ..).trans (Session.issued_log ..)⟩

end Workspace

/-! ## Identities -/

/-- Odd multiples are told apart up to the number of all identities. -/
theorem NodeId.fresh_inj {i j : Nat} (hi : i < 2 ^ 128) (hj : j < 2 ^ 128)
    (h : fresh i = fresh j) : i = j := by
  have hinv : 0x28969101c22823532f07eb1a988d4a1d#128 * stride = 1#128 := by
    decide +kernel
  have hcancel : ∀ b : BitVec 128, 0x28969101c22823532f07eb1a988d4a1d#128 * (stride * b) = b := by
    intro b
    rw [← BitVec.mul_assoc, hinv, BitVec.one_mul]
  have hbits : BitVec.ofNat 128 (i + 1) = BitVec.ofNat 128 (j + 1) := by
    rw [← hcancel (BitVec.ofNat 128 (i + 1)), ← hcancel (BitVec.ofNat 128 (j + 1))]
    exact congrArg (_ * ·) (congrArg NodeId.bits h)
  have hnat := congrArg BitVec.toNat hbits
  simp only [BitVec.toNat_ofNat] at hnat
  omega

namespace Session

variable {s s' : Session} {i : NodeId}

/-- The session has given the identity to a node. -/
def Issued (s : Session) (i : NodeId) : Prop := ∃ k < s.issued, i = .fresh k

theorem Issued.mono (h : s.Issued i) (hs : s.issued ≤ s'.issued) : s'.Issued i := by
  obtain ⟨k, hk, rfl⟩ := h
  exact ⟨k, by omega, rfl⟩

theorem not_issued_nextId (h : s.issued < 2 ^ 128) : ¬ s.Issued s.nextId := by
  rintro ⟨k, hk, he⟩
  have := NodeId.fresh_inj h (by omega) he
  omega

end Session

theorem Identified.grow {D : Type} {ls ls' : List (Leaf D)} {P : Leaf D → Prop}
    (h : Identified ls) (hls : ∀ l ∈ ls', l ∈ ls ∨ P l) (hone : ∀ l l', P l → P l' → l = l')
    (hnew : ∀ l, P l → ∀ l' ∈ ls, l.id ≠ l'.id) : Identified ls' := by
  intro l hl l' hl' hid
  rcases hls l hl with hl | hl <;> rcases hls l' hl' with hl' | hl'
  · exact h l hl l' hl' hid
  · exact absurd hid.symm (hnew l' hl' l hl)
  · exact absurd hid (hnew l hl l' hl')
  · exact hone l l' hl hl'

/-- The leaves of the models that are or are below a node. -/
def Node.modelLeaves : Node V → List (Leaf (ModelData V))
  | parameter _ => []
  | model m => m.leaves

namespace Made

variable {s : Session} {nodes : List (Node V)} {n : Node V}

theorem parameterLeaf (h : Made s nodes n) {l : Leaf ParameterData} (hl : l ∈ n.parameterLeaves) :
    (∃ n' ∈ nodes, l ∈ n'.parameterLeaves) ∨
      n = .parameter (.leaf l) ∧ l.id = s.nextId ∧ l.data.prior.Admits l.data.default := by
  cases h with
  | parameter _ h =>
    obtain ⟨ha, -, rfl⟩ := Parameter.make_eq_ok_iff.1 h
    obtain rfl := List.mem_singleton.1 hl
    exact .inr ⟨rfl, rfl, ha⟩
  | model hp h =>
    obtain ⟨-, -, hn, rfl⟩ := Model.make_eq_ok_iff.1 h
    simp only [Node.parameterLeaves, Expr.leaves, List.flatMap_cons, List.flatMap_nil,
      List.append_nil, List.mem_flatMap] at hl
    obtain ⟨p, hmem, hl⟩ := hl
    obtain ⟨e, he, rfl⟩ := List.mem_map.1 hmem
    exact .inl ⟨_, hp e he, hl⟩
  | combineParameters hlh hrh =>
    rcases List.mem_append.1 hl with hl | hl
    · exact .inl ⟨_, hlh, hl⟩
    · exact .inl ⟨_, hrh, hl⟩
  | combineModels hlh hrh h =>
    obtain ⟨r, -, rfl⟩ := Model.combine_eq_ok h
    simp only [Node.parameterLeaves, Expr.leaves, List.flatMap_append, List.mem_append] at hl
    rcases hl with hl | hl
    · exact .inl ⟨_, hlh, hl⟩
    · exact .inl ⟨_, hrh, hl⟩

theorem modelLeaf (h : Made s nodes n) {l : Leaf (ModelData V)} (hl : l ∈ n.modelLeaves) :
    (∃ n' ∈ nodes, l ∈ n'.modelLeaves) ∨ n = .model (.leaf l) ∧ l.id = s.nextId := by
  cases h with
  | parameter => cases hl
  | combineParameters => cases hl
  | model _ h =>
    obtain ⟨-, -, hn, rfl⟩ := Model.make_eq_ok_iff.1 h
    obtain rfl := List.mem_singleton.1 hl
    exact .inr ⟨rfl, rfl⟩
  | combineModels hlh hrh h =>
    obtain ⟨r, -, rfl⟩ := Model.combine_eq_ok h
    rcases List.mem_append.1 hl with hl | hl
    · exact .inl ⟨_, hlh, hl⟩
    · exact .inl ⟨_, hrh, hl⟩

theorem constructible (h : Made s nodes n) (hn : ∀ n ∈ nodes, n.Constructible) :
    n.Constructible := by
  cases h with
  | parameter hd h => exact .make hd h
  | combineParameters hlh hrh => exact .combine (hn _ hlh) (hn _ hrh)
  | model hp h =>
    refine ⟨.make h, fun l hl p hmem => ?_⟩
    obtain ⟨-, -, hdup, rfl⟩ := Model.make_eq_ok_iff.1 h
    obtain rfl := List.mem_singleton.1 hl
    obtain ⟨e, he, rfl⟩ := List.mem_map.1 hmem
    exact hn _ (hp e he)
  | combineModels hlh hrh h =>
    have hl := hn _ hlh
    have hr := hn _ hrh
    refine ⟨.combine hl.1 hr.1 h, fun l hmem => ?_⟩
    obtain ⟨r, -, rfl⟩ := Model.combine_eq_ok h
    exact (List.mem_append.1 hmem).elim (hl.2 l) (hr.2 l)

theorem unreserved (h : Made s nodes n) : Unreserved (n.attributes ∅) := by
  cases h with
  | parameter _ h =>
    obtain ⟨-, ha, rfl⟩ := Parameter.make_eq_ok_iff.1 h
    exact ha
  | model _ h =>
    obtain ⟨-, ha, -, rfl⟩ := Model.make_eq_ok_iff.1 h
    exact ha
  | combineParameters => exact fun _ _ hk => nomatch hk
  | combineModels _ _ h =>
    obtain ⟨r, -, rfl⟩ := Model.combine_eq_ok h
    exact fun _ _ hk => nomatch hk

end Made

/-! ## The invariant -/

theorem Node.attributes_cases (edits : Edits) (n : Node V) :
    n.attributes edits = n.attributes ∅ ∨
      edits.attributes.get? n.id = some (n.attributes edits) := by
  have key : ∀ {D R : Type} (e : Expr D R), e.attributes edits = e.attributes ∅ ∨
      edits.attributes.get? e.id = some (e.attributes edits) := by
    intro D R e
    unfold Expr.attributes
    rcases hg : edits.attributes.get? e.id with _ | a
    · exact .inl rfl
    · exact .inr rfl
  rcases n with p | m
  · exact key p
  · exact key m

namespace Workspace

def parameterLeaves (w : Workspace V) : List (Leaf ParameterData) :=
  w.nodes.flatMap Node.parameterLeaves

def modelLeaves (w : Workspace V) : List (Leaf (ModelData V)) :=
  w.nodes.flatMap Node.modelLeaves

/-- Only a leaf that is made gets a new identity, and a default is recorded for a leaf that is
there. -/
structure Tracked (w : Workspace V) : Prop where
  parameter_issued : ∀ l ∈ w.parameterLeaves, w.session.Issued l.id
  model_issued : ∀ l ∈ w.modelLeaves, w.session.Issued l.id
  default_issued : ∀ i ∈ w.session.edits.defaults.keys, w.session.Issued i
  parameter_identified : Identified w.parameterLeaves
  model_identified : Identified w.modelLeaves
  admitted : ∀ l ∈ w.parameterLeaves,
    l.data.prior.Admits (Parameter.default w.session.edits (.leaf l))

/-- What every call keeps. Identities are tracked for as long as they have not run out. -/
structure Inv (w : Workspace V) : Prop where
  tracked : w.session.issued ≤ 2 ^ 128 → w.Tracked
  constructible : ∀ n ∈ w.nodes, n.Constructible
  unreserved : ∀ n ∈ w.nodes, Unreserved (n.attributes ∅)
  edited_unreserved : ∀ i a, w.session.edits.attributes.get? i = some a → Unreserved a

variable {w w' : Workspace V} {n : Node V}

theorem mem_parameterLeaves_of_made (hn : Made w.session w.nodes n)
    (hw : w'.nodes = w.nodes ++ [n]) {l : Leaf ParameterData} (hl : l ∈ w'.parameterLeaves) :
    l ∈ w.parameterLeaves ∨
      n = .parameter (.leaf l) ∧ l.id = w.session.nextId ∧
        l.data.prior.Admits l.data.default := by
  rw [parameterLeaves, hw, List.flatMap_append, List.mem_append, List.flatMap_singleton] at hl
  rcases hl with hl | hl
  · exact .inl hl
  · exact (hn.parameterLeaf hl).imp_left List.mem_flatMap.2

theorem mem_modelLeaves_of_made (hn : Made w.session w.nodes n) (hw : w'.nodes = w.nodes ++ [n])
    {l : Leaf (ModelData V)} (hl : l ∈ w'.modelLeaves) :
    l ∈ w.modelLeaves ∨ n = .model (.leaf l) ∧ l.id = w.session.nextId := by
  rw [modelLeaves, hw, List.flatMap_append, List.mem_append, List.flatMap_singleton] at hl
  rcases hl with hl | hl
  · exact .inl hl
  · exact (hn.modelLeaf hl).imp_left List.mem_flatMap.2

namespace Tracked

theorem make (h : w.Tracked) (hb : w.session.issued < 2 ^ 128) (hn : Made w.session w.nodes n)
    (hw : w'.nodes = w.nodes ++ [n]) (he : w'.session.edits = w.session.edits)
    (hi : w'.session.issued = w.session.issued + 1) : w'.Tracked := by
  have hnew := Session.not_issued_nextId hb
  have hmono : ∀ {i}, w.session.Issued i → w'.session.Issued i := fun h => h.mono (by omega)
  have hnext : w'.session.Issued w.session.nextId := ⟨w.session.issued, by omega, rfl⟩
  constructor
  · intro l hl
    rcases mem_parameterLeaves_of_made hn hw hl with hl | ⟨-, hid, -⟩
    · exact hmono (h.parameter_issued l hl)
    · exact hid ▸ hnext
  · intro l hl
    rcases mem_modelLeaves_of_made hn hw hl with hl | ⟨-, hid⟩
    · exact hmono (h.model_issued l hl)
    · exact hid ▸ hnext
  · rw [he]
    exact fun i hi => hmono (h.default_issued i hi)
  · refine h.parameter_identified.grow (fun l => mem_parameterLeaves_of_made hn hw) ?_ ?_
    · rintro l l' ⟨hl, -⟩ ⟨hl', -⟩
      exact Expr.leaf.inj (Node.parameter.inj (hl.symm.trans hl'))
    · rintro l ⟨-, hid, -⟩ l' hl' hid'
      exact hnew (hid ▸ hid' ▸ h.parameter_issued l' hl')
  · refine h.model_identified.grow (fun l => mem_modelLeaves_of_made hn hw) ?_ ?_
    · rintro l l' ⟨hl, -⟩ ⟨hl', -⟩
      exact Expr.leaf.inj (Node.model.inj (hl.symm.trans hl'))
    · rintro l ⟨-, hid⟩ l' hl' hid'
      exact hnew (hid ▸ hid' ▸ h.model_issued l' hl')
  · intro l hl
    rw [he]
    rcases mem_parameterLeaves_of_made hn hw hl with hl | ⟨-, hid, ha⟩
    · exact h.admitted l hl
    · -- nothing is recorded for an identity that was not issued
      have hnone : w.session.edits.defaults.get? l.id = none := by
        rw [← Option.not_isSome_iff_eq_none, Option.isSome_iff_exists,
          OrderedMap.exists_get?_iff]
        exact fun hk => hnew (hid ▸ h.default_issued _ hk)
      rwa [Parameter.default, hnone]

/-- A new default is recorded under one identity, which is that of one leaf. -/
theorem defaults_of_edited (h : w.Tracked) (hn : n ∈ w.nodes) {edits : Edits}
    (he : Edited w.session n edits) : (∀ i ∈ edits.defaults.keys, w.session.Issued i) ∧
      ∀ l ∈ w.parameterLeaves, l.data.prior.Admits (Parameter.default edits (.leaf l)) := by
  cases he with
  | default l value ha =>
    have hl : l ∈ w.parameterLeaves := List.mem_flatMap.2 ⟨_, hn, List.mem_singleton_self l⟩
    refine ⟨fun i hi => ?_, fun l' hl' => ?_⟩
    · rcases OrderedMap.mem_keys_insert.1 hi with hi | rfl
      · exact h.default_issued i hi
      · exact h.parameter_issued l hl
    · by_cases hid : l'.id = l.id
      · obtain rfl := h.parameter_identified l' hl' l hl hid
        simpa [Parameter.default, OrderedMap.get?_insert] using ha
      · have hold := h.admitted l' hl'
        simpa [Parameter.default, OrderedMap.get?_insert, hid] using hold
  | formula => exact ⟨h.default_issued, h.admitted⟩
  | annotate => exact ⟨h.default_issued, h.admitted⟩

/-- Edits leave the nodes and the identities alone. -/
theorem edit (h : w.Tracked) (hn : n ∈ w.nodes) (he : Edited w.session n w'.session.edits)
    (hw : w'.nodes = w.nodes) (hi : w'.session.issued = w.session.issued) : w'.Tracked := by
  have hmono : ∀ {i}, w.session.Issued i → w'.session.Issued i := fun h => h.mono (by omega)
  have hparameter : w'.parameterLeaves = w.parameterLeaves := by
    rw [parameterLeaves, hw, parameterLeaves]
  have hmodel : w'.modelLeaves = w.modelLeaves := by rw [modelLeaves, hw, modelLeaves]
  obtain ⟨hissued, hadmitted⟩ := h.defaults_of_edited hn he
  refine ⟨?_, ?_, fun i hi => hmono (hissued i hi), ?_, ?_, ?_⟩
  · exact hparameter ▸ fun l hl => hmono (h.parameter_issued l hl)
  · exact hmodel ▸ fun l hl => hmono (h.model_issued l hl)
  · exact hparameter ▸ h.parameter_identified
  · exact hmodel ▸ h.model_identified
  · exact hparameter ▸ hadmitted

end Tracked

namespace Inv

theorem attributes (h : w.Inv) (hn : n ∈ w.nodes) :
    Unreserved (n.attributes w.session.edits) := by
  rcases n.attributes_cases w.session.edits with ha | ha
  · rw [ha]
    exact h.unreserved n hn
  · exact h.edited_unreserved _ _ ha

theorem start : ({} : Workspace V).Inv where
  tracked := fun _ => {
    parameter_issued := fun _ h => nomatch h
    model_issued := fun _ h => nomatch h
    default_issued := fun _ h => nomatch h
    parameter_identified := fun _ h => nomatch h
    model_identified := fun _ h => nomatch h
    admitted := fun _ h => nomatch h }
  constructible := fun _ h => nomatch h
  unreserved := fun _ h => nomatch h
  edited_unreserved := fun _ _ h => nomatch h

/-- The invariant is about the nodes, the edits and the identities issued. -/
theorem of_eq (h : w.Inv) (hn : w'.nodes = w.nodes) (he : w'.session.edits = w.session.edits)
    (hi : w'.session.issued = w.session.issued) : w'.Inv := by
  rcases w with ⟨⟨issued, edits, _, _⟩, nodes, _, _⟩
  rcases w' with ⟨⟨issued', edits', _, _⟩, nodes', _, _⟩
  obtain rfl : nodes' = nodes := hn
  obtain rfl : edits' = edits := he
  obtain rfl : issued' = issued := hi
  refine ⟨fun hb => ?_, h.2, h.3, h.4⟩
  obtain ⟨h₁, h₂, h₃, h₄, h₅, h₆⟩ := h.tracked hb
  exact ⟨h₁, h₂, h₃, h₄, h₅, h₆⟩

theorem make (h : w.Inv) (hn : Made w.session w.nodes n) (hw : w'.nodes = w.nodes ++ [n])
    (he : w'.session.edits = w.session.edits)
    (hi : w'.session.issued = w.session.issued + 1) : w'.Inv := by
  refine ⟨fun hb => ?_, ?_, ?_, ?_⟩
  · exact (h.tracked (by omega)).make (by omega) hn hw he hi
  · rw [hw, List.forall_mem_append, List.forall_mem_singleton]
    exact ⟨h.constructible, hn.constructible h.constructible⟩
  · rw [hw, List.forall_mem_append, List.forall_mem_singleton]
    exact ⟨h.unreserved, hn.unreserved⟩
  · rw [he]
    exact h.edited_unreserved

theorem unreserved_of_edited (h : w.Inv) (hn : n ∈ w.nodes) {edits : Edits}
    (he : Edited w.session n edits) :
    ∀ i a, edits.attributes.get? i = some a → Unreserved a := by
  cases he with
  | default => exact h.edited_unreserved
  | formula => exact h.edited_unreserved
  | annotate n key value hk =>
    intro i a ha
    simp only [OrderedMap.get?_insert] at ha
    split at ha
    · obtain rfl := Option.some.inj ha
      intro k hk' hmem
      rcases OrderedMap.mem_keys_insert.1 hmem with hmem | rfl
      · exact h.attributes hn k hk' hmem
      · exact hk hk'
    · exact h.edited_unreserved i a ha

theorem edit (h : w.Inv) (hn : n ∈ w.nodes) (he : Edited w.session n w'.session.edits)
    (hw : w'.nodes = w.nodes) (hi : w'.session.issued = w.session.issued) : w'.Inv :=
  ⟨fun hb => (h.tracked (by omega)).edit hn he hw hi, hw ▸ h.constructible, hw ▸ h.unreserved,
    h.unreserved_of_edited hn he⟩

end Inv

section Runs

variable [Add V] [Mul V] {w : Workspace V}

/-- What comes of a call: the nodes, the edits and the identities are as they were, or it was not
refused, and a node was made or one was edited. -/
inductive Passes (w w' : Workspace V) (r : Except Refusal Unit) : Prop where
  | kept (hn : w'.nodes = w.nodes) (he : w'.session.edits = w.session.edits)
      (hi : w'.session.issued = w.session.issued)
  | made {n : Node V} (hr : r = .ok ()) (h : Made w.session w.nodes n)
      (hn : w'.nodes = w.nodes ++ [n]) (he : w'.session.edits = w.session.edits)
      (hi : w'.session.issued = w.session.issued + 1)
  | edited {n : Node V} (hr : r = .ok ()) (hmem : n ∈ w.nodes)
      (h : Edited w.session n w'.session.edits) (hn : w'.nodes = w.nodes)
      (hi : w'.session.issued = w.session.issued)

theorem step_passes (w : Workspace V) : ∀ c : Call V, w.Passes (w.step c).1 (w.step c).2
  | .make plan => by
    simp only [step]
    split
    · exact .kept rfl rfl rfl
    · rename_i n s h
      obtain ⟨hn, hi, he⟩ := Plan.make_eq_ok h
      exact .made rfl hn rfl he hi
  | .edit i e => by
    simp only [step]
    split
    · exact .kept rfl rfl rfl
    · rename_i s h
      obtain ⟨n, hn, h⟩ := Except.bind_eq_ok.1 h
      obtain ⟨he, hi⟩ := Edit.apply_eq_ok h
      exact .edited rfl (nodeAt_eq_ok hn) he rfl hi
  | .access a =>
    have h := w.access_frame a
    .kept h.1 h.2.1 h.2.2

/-- A refused call has changed no node and no edit. -/
theorem step_refused {c : Call V} {e : Refusal} (h : (w.step c).2 = .error e) :
    (w.step c).1.nodes = w.nodes ∧ (w.step c).1.session.edits = w.session.edits := by
  cases w.step_passes c with
  | kept hn he hi => exact ⟨hn, he⟩
  | made hr => exact nomatch h.symm.trans hr
  | edited hr => exact nomatch h.symm.trans hr

theorem Inv.step (h : w.Inv) (c : Call V) : (w.step c).1.Inv := by
  cases w.step_passes c with
  | kept hn he hi => exact h.of_eq hn he hi
  | made _ hmade hn he hi => exact h.make hmade hn he hi
  | edited _ hmem he hn hi => exact h.edit hmem he hn hi

theorem Inv.run : ∀ (calls : List (Call V)) {w : Workspace V}, w.Inv → (w.run calls).Inv
  | [], _, h => h
  | c :: rest, _, h => Inv.run rest (h.step c)

/-- A model leaf that is made declares the names that were given, in their order, each once. -/
theorem step_model {name formula : String} {kind : ModelKind} {places : List (String × Nat)}
    {generator : Generator V} {attributes : Attributes}
    (h : (w.step (.make (.model name formula kind places generator attributes))).2 = .ok ()) :
    ∃ l : Leaf (ModelData V), l.data.parameters.keys = places.map Prod.fst ∧
      (w.step (.make (.model name formula kind places generator attributes))).1.nodes
        = w.nodes ++ [.model (.leaf l)] := by
  simp only [step] at h ⊢
  split at h
  · cases h
  · rename_i n s hmake
    obtain ⟨ps, hps, hmake⟩ := Except.bind_eq_ok.1 hmake
    obtain ⟨⟨m, s₁⟩, hm, hmake⟩ := Except.bind_eq_ok.1 hmake
    obtain ⟨hleaf, rfl⟩ := Except.bind_pair_eq_ok.1 (Except.mapError_eq_ok.1 hm)
    obtain ⟨-, -, hn, rfl⟩ := Model.make_eq_ok_iff.1 hleaf
    cases hmake
    exact ⟨_, names_parametersAt hps, rfl⟩

end Runs

/-- Everything in a workspace is as it should be: defaults, attributes, kinds and resolutions, and
nodes that share an identity share the leaf. There are no more identities than `2 ^ 128`. -/
structure Sound (w : Workspace V) : Prop where
  default : w.session.issued ≤ 2 ^ 128 → ∀ n ∈ w.nodes, ∀ l ∈ n.parameterLeaves,
    l.data.prior.Admits (Parameter.default w.session.edits (.leaf l))
  attributes : ∀ n ∈ w.nodes, Unreserved (n.attributes w.session.edits)
  kind : ∀ m, .model m ∈ w.nodes → ∀ l ∈ m.leaves,
    l.data.kind = l.data.generator.kind ∧ l.data.parameters.keys.Nodup
  resolution : ∀ m, .model m ∈ w.nodes → ∀ id o r x y, .op id o r x y ∈ m.parts →
    Resolution.infer o (Model.kind x) (Model.kind y) = .ok r
  identified : w.session.issued ≤ 2 ^ 128 →
    Identified w.parameterLeaves ∧ Identified w.modelLeaves
  constructible : ∀ n ∈ w.nodes, n.Constructible

theorem Inv.sound {w : Workspace V} (h : w.Inv) : w.Sound where
  default := fun hb n hn l hl => (h.tracked hb).admitted l (List.mem_flatMap.2 ⟨n, hn, hl⟩)
  attributes := fun _ hn => h.attributes hn
  kind := fun _ hm l hl =>
    ⟨((h.constructible _ hm).1.wellKinded.leaf hl).symm, l.data.parameters.nodup_keys⟩
  resolution := fun _ hm _ _ _ _ _ hp =>
    (Model.wellKinded_of_mem_parts (h.constructible _ hm).1.wellKinded hp).2.2
  identified := fun hb => ⟨(h.tracked hb).parameter_identified, (h.tracked hb).model_identified⟩
  constructible := h.constructible

/-- Whatever is called in whatever order, every default in effect is finite and admitted by its
prior, no attribute has a reserved key, model leaves have their generators' kinds, and composites
the resolutions of their operands' kinds. A refused call leaves all nodes and edits as they were. -/
theorem run_sound (V : Type) [Add V] [Mul V] :
    (∀ calls : List (Call V), (run {} calls).Sound) ∧
    (∀ (w : Workspace V) (c : Call V) (e : Refusal), (w.step c).2 = .error e →
      (w.step c).1.nodes = w.nodes ∧ (w.step c).1.session.edits = w.session.edits) ∧
    ∀ (w : Workspace V) (name formula : String) (kind : ModelKind) (places : List (String × Nat))
      (generator : Generator V) (attributes : Attributes),
      (w.step (.make (.model name formula kind places generator attributes))).2 = .ok () →
        ∃ l : Leaf (ModelData V), l.data.parameters.keys = places.map Prod.fst ∧
          (w.step (.make (.model name formula kind places generator attributes))).1.nodes
            = w.nodes ++ [.model (.leaf l)] :=
  ⟨fun calls => (Inv.run calls Inv.start).sound, fun _ _ _ => step_refused,
    fun _ _ _ _ _ _ _ => step_model⟩

namespace Busy

def line : Plan Float :=
  .model "Line" "L" .additive [("norm", 1), ("K", 0)] (.additive fun _ grid _ => grid.tail) ∅

/-- Some of these are refused: values outside the support, a default and a label for a composite, a
reserved key, a repeated name, and a product of two additive models. -/
def calls : List (Call Float) :=
  [.make (.uniform "K" "K" 2 0 10), .edit 0 (.default 20), .edit 0 (.default 3),
    .make (.uniform "a" "a" 20 0 10), .make (.composite .add 0 0), .edit 1 (.default 1),
    .edit 1 (.formula "s"), .edit 1 (.annotate "name" .null),
    .make (.model "Line" "L" .additive [("norm", 1), ("norm", 0)]
      (.additive fun _ grid _ => grid.tail) ∅),
    .make line, .make (.composite .mul 2 2), .make (.composite .add 2 2)]

def start : Workspace Float := run {} (calls.take 5)

end Busy

theorem run_sound_busy : (run {} Busy.calls).Sound ∧ (run {} Busy.calls).session.issued = 4 ∧
    (run {} Busy.calls).session.edits.defaults.keys = [.fresh 0] ∧
    (Busy.start.step (.edit 1 (.annotate "name" .null))).1.session.edits
      = Busy.start.session.edits ∧
    ∃ l : Leaf (ModelData Float), l.data.parameters.keys = ["norm", "K"] ∧
      (Busy.start.step (.make Busy.line)).1.nodes = Busy.start.nodes ++ [.model (.leaf l)] := by
  obtain ⟨hsound, hrefused, hdeclared⟩ := run_sound Float
  exact ⟨hsound Busy.calls, by decide +kernel, by decide +kernel,
    (hrefused Busy.start (.edit 1 (.annotate "name" .null)) _ rfl).2,
    hdeclared Busy.start "Line" "L" .additive [("norm", 1), ("K", 0)]
      (.additive fun _ grid _ => grid.tail) ∅ rfl⟩

end Workspace

end SpectralAlgebra
