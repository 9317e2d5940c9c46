import SpectralAlgebra.Proofs.Numbering
import SpectralAlgebra.Session

/-!
# Numberings that are kept

A label space keeps its numberings and makes one again only if a leaf's raw label differs from the
one that the numbering was made from. Leaves are shared: what is edited through one node is seen by
every label space, and none of them is told.

So a session with label spaces is run against one that keeps no numberings (`Ledger`). There each
label space is a node and, for either kind of label, the edits at the time that a numbering was
last made; what is read is read from a label space made on the spot. Whatever is changed and read
in whatever order, both give the same answers and write the same log (`Desk.run_eq_ledger`). The
label spaces of the one are at all times those that the notes of the other tell (`Ledger.desk`), so
a single step of both has to be compared, and no invariant is needed beside that.
-/

namespace SpectralAlgebra

variable {V : Type}

/-! ## Requests -/

/-- A change that a session may be asked for. -/
inductive Change (V : Type) where
  | formula (n : Node V) (text : String)
  | default (p : Parameter) (value : Float)
  | annotate (n : Node V) (key : String) (value : Json)
  | level (level : Log.Level)

/-- The session after a change. One that is refused leaves it as it was. -/
def Change.apply (s : Session) : Change V → Session
  | formula n text => (s.setFormula n text).toOption.getD s
  | default p value => (s.setDefault p value).toOption.getD s
  | annotate n key value => (s.setAttribute n key value).toOption.getD s
  | level l => s.setLevel l

/-- What a label space may be asked. -/
inductive Question where
  | mapping
  | label
  | resolve (tagged : String)

inductive Answer where
  | mapping (m : OrderedMap String String)
  | label (text : String)
  | resolved (text : Option String)

def LabelSpace.answer (edits : Edits) (kind : LabelKind) (sp : LabelSpace V) : Question → Answer
  | .mapping => .mapping (sp.mapping edits kind)
  | .label => .label (sp.label edits kind)
  | .resolve tagged => .resolved (sp.resolve? edits kind tagged)

/-- To change something, to make a label space, or to ask the one made as the `i`-th. -/
inductive Request (V : Type) where
  | change (c : Change V)
  | make (n : Node V)
  | ask (i : Nat) (kind : LabelKind) (q : Question)

/-- One request after the other, with their answers. -/
def runAll {σ : Type} (step : σ → Request V → σ × Option Answer) :
    σ → List (Request V) → σ × List (Option Answer)
  | s, [] => (s, [])
  | s, r :: rest =>
    let rested := runAll step (step s r).1 rest
    (rested.1, (step s r).2 :: rested.2)

/-! ## With numberings and without -/

/-- A session and the label spaces made in it. -/
structure Desk (V : Type) where
  session : Session
  spaces : List (LabelSpace V) := []

def Desk.step (d : Desk V) : Request V → Desk V × Option Answer
  | .change c => ({ d with session := c.apply d.session }, none)
  | .make n => ({ d with spaces := d.spaces ++ [d.session.labelSpace n] }, none)
  | .ask i kind q =>
    match d.spaces[i]? with
    | none => (d, none)
    | some sp =>
      let (sp, session) := d.session.consult kind sp
      (⟨session, d.spaces.set i sp⟩, some (sp.answer session.edits kind q))

/-- A node and, for either kind of label, the edits when its leaves were last numbered. -/
structure Watch (V : Type) where
  node : Node V
  since : LabelKind → Edits

namespace Watch

/-- Some leaf has another raw label than when the leaves were last numbered. -/
def Changed (edits : Edits) (kind : LabelKind) (w : Watch V) : Prop :=
  ∃ l ∈ w.node.leaves, l.raw edits kind ≠ l.raw (w.since kind) kind

instance (edits : Edits) (kind : LabelKind) (w : Watch V) : Decidable (w.Changed edits kind) :=
  inferInstanceAs (Decidable (∃ l ∈ w.node.leaves, l.raw edits kind ≠ l.raw (w.since kind) kind))

def lines (edits : Edits) (kind : LabelKind) (w : Watch V) : List Log.Entry :=
  if w.Changed edits kind then
    [⟨.debug, s!"leaf labels of '{w.node.plainName}' changed, rebuilding {kind.identifier} "
      ++ "label space"⟩]
  else []

/-- Numbered again for one kind of label, if a leaf has changed. -/
def renewed (edits : Edits) (kind : LabelKind) (w : Watch V) : Watch V :=
  if w.Changed edits kind then { w with since := fun k => if k = kind then edits else w.since k }
  else w

/-- The label space whose numberings were made then. -/
def space (w : Watch V) : LabelSpace V where
  node := w.node
  names := .take (w.since .name) .name w.node.leaves
  formulas := .take (w.since .formula) .formula w.node.leaves

end Watch

/-- A session in which label spaces keep no numberings. -/
structure Ledger (V : Type) where
  session : Session
  watches : List (Watch V) := []

namespace Ledger

def step (g : Ledger V) : Request V → Ledger V × Option Answer
  | .change c => ({ g with session := c.apply g.session }, none)
  | .make n => ({ g with watches := g.watches ++ [⟨n, fun _ => g.session.edits⟩] }, none)
  | .ask i kind q =>
    match g.watches[i]? with
    | none => (g, none)
    | some w =>
      let edits := g.session.edits
      (⟨g.session.log (w.lines edits kind), g.watches.set i (w.renewed edits kind)⟩,
        some ((LabelSpace.make edits w.node).answer edits kind q))

def desk (g : Ledger V) : Desk V := ⟨g.session, g.watches.map Watch.space⟩

end Ledger

/-! ## One label space -/

namespace Watch

variable {edits : Edits} {kind : LabelKind} {w : Watch V}

theorem snapshot_space : w.space.snapshot kind = .take (w.since kind) kind w.node.leaves := by
  cases kind <;> rfl

theorem isStale_space_iff : w.space.isStale edits kind = true ↔ w.Changed edits kind := by
  rw [LabelSpace.isStale, snapshot_space, decide_eq_true_iff, Changed]
  change ¬ w.node.leaves.map _ = w.node.leaves.map _ ↔ _
  rw [List.map_inj_left]
  simp

theorem consultEntries_space : w.space.consultEntries edits kind = w.lines edits kind := by
  simp only [LabelSpace.consultEntries, isStale_space_iff, lines]
  rfl

theorem consult_space : w.space.consult edits kind = (w.renewed edits kind).space := by
  simp only [LabelSpace.consult, isStale_space_iff, renewed]
  split
  · cases kind <;> rfl
  · rfl

theorem node_renewed : (w.renewed edits kind).node = w.node := by
  unfold renewed
  split <;> rfl

/-- To number the leaves of one kind leaves the other kind alone. -/
theorem since_renewed {kind' : LabelKind} (h : kind' ≠ kind) :
    (w.renewed edits kind).since kind' = w.since kind' := by
  unfold renewed
  split
  · exact if_neg h
  · rfl

theorem take_renewed : Snapshot.take ((w.renewed edits kind).since kind) kind w.node.leaves
    = .take edits kind w.node.leaves := by
  unfold renewed
  split
  · exact congrArg (Snapshot.take · kind w.node.leaves) (if_pos rfl)
  · rename_i h
    -- labels changed and changed back are numbered as they were
    refine LabelSpace.take_congr (List.map_congr_left fun l hl => ?_)
    exact Classical.byContradiction fun hne => h ⟨l, hl, Ne.symm hne⟩

theorem mapping_space :
    w.space.mapping edits kind = (Snapshot.take edits kind w.node.leaves).mapping := by
  rw [LabelSpace.mapping, consult_space, snapshot_space, node_renewed, take_renewed]

theorem mapping_space_eq_make :
    w.space.mapping edits kind = (LabelSpace.make edits w.node).mapping edits kind := by
  have hmake : LabelSpace.make edits w.node = space ⟨w.node, fun _ => edits⟩ := rfl
  rw [hmake, mapping_space, mapping_space]

theorem answer_space (q : Question) :
    w.space.answer edits kind q = (LabelSpace.make edits w.node).answer edits kind q := by
  cases q with
  | mapping => exact congrArg Answer.mapping mapping_space_eq_make
  | label =>
    rw [LabelSpace.answer, LabelSpace.label, mapping_space_eq_make]
    rfl
  | resolve tagged =>
    rw [LabelSpace.answer, LabelSpace.resolve?, mapping_space_eq_make]
    rfl

end Watch

/-! ## Sessions with label spaces -/

namespace Ledger

theorem step_desk (g : Ledger V) (r : Request V) :
    g.desk.step r = ((g.step r).1.desk, (g.step r).2) := by
  cases r with
  | change c => rfl
  | make n =>
    simp only [Desk.step, step, desk, List.map_append]
    rfl
  | ask i kind q =>
    simp only [Desk.step, step]
    have hget : g.desk.spaces[i]? = g.watches[i]?.map Watch.space := List.getElem?_map
    rw [hget]
    rcases g.watches[i]? with _ | w
    · rfl
    · simp only [Option.map_some, Session.consult, Watch.consult_space, Watch.consultEntries_space,
        Session.edits_log, Watch.answer_space, Watch.node_renewed, desk, List.map_set]

theorem runAll_desk : ∀ (requests : List (Request V)) (g : Ledger V),
    runAll Desk.step g.desk requests
      = ((runAll step g requests).1.desk, (runAll step g requests).2)
  | [], _ => rfl
  | r :: rest, g => by
    rw [runAll, step_desk, runAll_desk rest (g.step r).1]
    rfl

end Ledger

/-- Numberings that are kept are not noticed: whatever is changed and asked for, the answers are
those of label spaces made on the spot, and a numbering is made again, with a line in the log, if
and only if a leaf has another raw label of that kind than when it was made last. What is asked of
one kind never renews the other. -/
theorem Desk.run_eq_ledger (V : Type) (s : Session) (requests : List (Request V)) :
    (runAll step ⟨s, []⟩ requests).2 = (runAll Ledger.step ⟨s, []⟩ requests).2 ∧
    (runAll step ⟨s, []⟩ requests).1.session = (runAll Ledger.step ⟨s, []⟩ requests).1.session ∧
    (runAll step ⟨s, []⟩ requests).1.spaces
      = (runAll Ledger.step ⟨s, []⟩ requests).1.watches.map Watch.space ∧
    ∀ w ∈ (runAll Ledger.step ⟨s, []⟩ requests).1.watches, ∀ (edits : Edits) (kind : LabelKind),
      w.space.mapping edits kind = (LabelSpace.make edits w.node).mapping edits kind ∧
      w.space.consultEntries edits kind = w.lines edits kind ∧
      w.space.consult edits kind = (w.renewed edits kind).space ∧
      ∀ kind' ≠ kind, (w.space.consult edits kind).snapshot kind' = w.space.snapshot kind' := by
  have h := Ledger.runAll_desk requests ⟨s, []⟩
  have hdesk : (⟨s, []⟩ : Ledger V).desk = ⟨s, []⟩ := rfl
  rw [hdesk] at h
  rw [h]
  refine ⟨rfl, rfl, rfl, fun w _ edits kind => ⟨Watch.mapping_space_eq_make,
    Watch.consultEntries_space, Watch.consult_space, fun kind' hk => ?_⟩⟩
  rw [Watch.consult_space, Watch.snapshot_space, Watch.snapshot_space, Watch.node_renewed,
    Watch.since_renewed hk]

namespace Desk

namespace Relabelled

def leaf (k : Nat) (formula : String) : Parameter :=
  .leaf ⟨.fresh k, formula, formula, ∅, ⟨1, .fixed 1, none⟩⟩

def sum : Parameter := .op (.fresh 2) .add () (leaf 0 "a") (leaf 1 "b")

/-- The second leaf is labelled like the first, then otherwise and back again. -/
def requests : List (Request Nat) :=
  [.make (.parameter sum), .change (.formula (.parameter (leaf 1 "b")) "a"),
    .ask 0 .name .label, .ask 0 .formula .label, .change (.formula (.parameter sum) "c"),
    .change (.formula (.parameter (leaf 1 "b")) "d"),
    .change (.formula (.parameter (leaf 1 "b")) "a"), .ask 0 .formula .label]

end Relabelled

theorem run_eq_ledger_relabelled :
    (runAll step ⟨{ level := .debug }, []⟩ Relabelled.requests).2 = [none, none,
      some (.label "a + b"), some (.label "a + a_2"), none, none, none, some (.label "a + a_2")] ∧
    (runAll step ⟨{ level := .debug }, []⟩ Relabelled.requests).1.session.entries
      = [⟨.debug, "leaf labels of 'a + b' changed, rebuilding Fmt label space"⟩] ∧
    ∃ w ∈ (runAll Ledger.step ⟨{ level := .debug }, []⟩ Relabelled.requests).1.watches,
      w.Changed ∅ .formula ∧
        (w.space.consult ∅ .formula).snapshot .name = w.space.snapshot .name := by
  obtain ⟨hanswers, hsession, -, hspaces⟩ :=
    run_eq_ledger Nat { level := .debug } Relabelled.requests
  rw [hanswers, hsession]
  refine ⟨rfl, rfl, _, List.mem_cons_self, by decide, ?_⟩
  exact (hspaces _ List.mem_cons_self ∅ .formula).2.2.2 .name (by decide)

end Desk

end SpectralAlgebra
