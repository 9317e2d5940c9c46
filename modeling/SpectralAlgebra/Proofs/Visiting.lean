import SpectralAlgebra.Proofs.Rendering

/-!
# Leaves in the order they are met

A node's leaves are found with a stack of what is still to be looked into. They are met as in the
recursive order, from left to right (`Expr.visit_eq`), and that order shows in two places.

It numbers the leaves that share a raw label. The first of them that is met keeps it, and any other
has behind it the place it takes among them; a leaf that is met again takes no other
(`LabelSpace.numbers_as_met`).

It is also the order in which a model is compiled. A mapping that does not know all of the model's
leaves is refused for the first of them that it does not know, and a label space knows them all
(`Model.fails_at_first_unmapped`).
-/

namespace SpectralAlgebra

/-! ## Places among the leaves that share a label -/

/-- The place of a leaf in a list where each stands once is found before the leaf is first met. -/
theorem rank_eraseDups {l : String × NodeId} {leaves : List (String × NodeId)} (h : l ∈ leaves) :
    rank leaves.eraseDups l = sharing (leaves.takeWhile (· ≠ l)).eraseDups l.1 + 1 := by
  obtain ⟨before, after, rfl, hl⟩ := List.eq_append_cons_of_mem h
  have hbefore : (before ++ l :: after).takeWhile (· ≠ l) = before := by
    have hne : ∀ a ∈ before, decide (a ≠ l) = true := by
      intro a ha
      simp only [decide_eq_true_eq]
      rintro rfl
      exact hl ha
    rw [List.takeWhile_append_of_pos hne, List.takeWhile_cons_of_neg (by simp), List.append_nil]
  have hrest : (l :: after).removeAll before = l :: after.removeAll before := by
    simp [List.cons_removeAll, hl]
  have hl' : l ∉ before.eraseDups := fun h => hl (List.mem_eraseDups.1 h)
  rw [hbefore, List.eraseDups_append, hrest, List.eraseDups_cons, rank_append _ hl']

namespace Leaf

variable (edits : Edits) (kind : LabelKind)

/-- How many leaves have a raw label, those that are met again not counted. -/
def bearers (raw : String) (leaves : List (Leaf Unit)) : Nat :=
  ((leaves.filter fun l => l.raw edits kind = raw).map Leaf.id).eraseDups.length

theorem sharing_eraseDups (raw : String) (leaves : List (Leaf Unit)) :
    sharing (leaves.map fun l => (l.raw edits kind, l.id)).eraseDups raw
      = bearers edits kind raw leaves := by
  -- a leaf with this label is given by its identity alone
  have hpairs : (leaves.map fun l => (l.raw edits kind, l.id)).filter (fun q => q.1 = raw)
      = ((leaves.filter fun l => l.raw edits kind = raw).map Leaf.id).map (raw, ·) := by
    rw [List.filter_map, List.map_map]
    refine List.map_congr_left fun l hl => ?_
    have hraw : l.raw edits kind = raw := by simpa using (List.mem_filter.1 hl).2
    simp only [hraw, Function.comp_apply]
  have hinj : ∀ x y : NodeId, (raw, x) = (raw, y) → x = y := fun x y h => (Prod.mk.inj h).2
  rw [sharing, List.countP_eq_length_filter, ← filter_eraseDups, hpairs, eraseDups_map hinj,
    List.length_map, bearers]

end Leaf

namespace Node

variable {V : Type} (edits : Edits) (kind : LabelKind) {n : Node V} {l : Leaf Unit}

/-- The leaves that are met before a leaf is met for the first time. -/
def before (n : Node V) (l : Leaf Unit) : List (Leaf Unit) :=
  n.leaves.takeWhile fun l' => l'.tagged edits kind ≠ l.tagged edits kind

theorem rank_labelled (hl : l ∈ n.leaves) :
    rank (n.labelled edits kind) (l.raw edits kind, l.id)
      = Leaf.bearers edits kind (l.raw edits kind) (n.before edits kind l) + 1 := by
  have hbefore : (n.leaves.map fun l => (l.raw edits kind, l.id)).takeWhile
        (· ≠ (l.raw edits kind, l.id))
      = (n.before edits kind l).map fun l => (l.raw edits kind, l.id) := by
    rw [List.takeWhile_map, before]
    simp [Function.comp_def, Leaf.tagged, tag_inj]
  have hmem : (l.raw edits kind, l.id) ∈ n.leaves.map fun l => (l.raw edits kind, l.id) :=
    List.mem_map_of_mem hl
  rw [labelled, rank_eraseDups hmem, hbefore, Leaf.sharing_eraseDups]

end Node

namespace LabelSpace

section

variable {V : Type} {edits : Edits} {kind : LabelKind} {n : Node V} {sp : LabelSpace V}

theorem Reached.keys_mapping (h : sp.Reached n) :
    (sp.mapping edits kind).keys = (n.leaves.map fun l => l.tagged edits kind).eraseDups := by
  have hinj : ∀ q q' : String × NodeId, tag q.1 q.2 = tag q'.1 q'.2 → q = q' :=
    fun _ _ h => Prod.ext (tag_inj.1 h).1 (tag_inj.1 h).2
  rw [h.mapping_eq, OrderedMap.keys, Snapshot.entries_take, List.map_map]
  calc
    (n.labelled edits kind).map (fun q => tag q.1 q.2)
      = ((n.leaves.map fun l => (l.raw edits kind, l.id)).map fun q => tag q.1 q.2).eraseDups :=
        (eraseDups_map hinj _).symm
    _ = (n.leaves.map fun l => l.tagged edits kind).eraseDups := by
      rw [List.map_map]
      rfl

theorem Reached.get?_tagged (h : sp.Reached n) {l : Leaf Unit} (hl : l ∈ n.leaves) :
    (sp.mapping edits kind).get? (l.tagged edits kind) = some (kind.number (l.raw edits kind)
      (Leaf.bearers edits kind (l.raw edits kind) (n.before edits kind l) + 1)) := by
  rw [← Node.rank_labelled edits kind hl]
  exact h.get?_mapping (Node.mem_labelled hl)

end

/-- The leaves of a node are met from left to right, those of a model as its components are listed.
The keys of a numbering are the tagged labels in that order, each where it is first met, and a leaf
with other leaves of its raw label before it has the next number behind the label. -/
theorem numbers_as_met (V : Type) (edits : Edits) (kind : LabelKind) :
    (∀ p : Parameter, (Node.parameter p : Node V).leaves = p.leaves.map Leaf.bare) ∧
    (∀ m : Model V, (Node.model m).leaves = m.leaves.map Leaf.bare ∧
      (Node.model m).leaves.map Leaf.taggedName = m.components) ∧
    ∀ (n : Node V) (sp : LabelSpace V), sp.Reached n →
      (sp.mapping edits kind).keys = (n.leaves.map fun l => l.tagged edits kind).eraseDups ∧
      ∀ l ∈ n.leaves, (sp.mapping edits kind).get? (l.tagged edits kind)
        = some (kind.number (l.raw edits kind)
          (Leaf.bearers edits kind (l.raw edits kind) (n.before edits kind l) + 1)) := by
  refine ⟨Node.leaves_parameter, fun m => ⟨Node.leaves_model m, ?_⟩, fun n sp h => ?_⟩
  · rw [Node.leaves_model, List.map_map]
    rfl
  · exact ⟨h.keys_mapping, fun l hl => h.get?_tagged hl⟩

namespace Repeats

def leaf (k : Nat) (name : String) : Parameter :=
  .leaf ⟨.fresh k, name, "\\" ++ name, ∅, ⟨1, .fixed 1, none⟩⟩

/-- Three leaves labelled `a`, the first of them met again before the third. -/
def expression : Parameter :=
  .op (.fresh 7) .mul () (.op (.fresh 6) .mul () (.op (.fresh 5) .mul ()
    (.op (.fresh 4) .add () (leaf 0 "a") (leaf 1 "b")) (leaf 2 "a")) (leaf 0 "a")) (leaf 3 "a")

def node : Node Nat := .parameter expression

def last : Leaf Unit := ⟨.fresh 3, "a", "\\a", ∅, ()⟩

theorem last_mem : last ∈ node.leaves := by
  rw [node, Node.leaves_parameter]
  exact List.mem_map_of_mem (f := Leaf.bare) (List.mem_append_right _ List.mem_cons_self)

theorem bearers_last (kind : LabelKind) :
    Leaf.bearers ∅ kind (last.raw ∅ kind) (node.before ∅ kind last) = 2 := by
  cases kind <;> decide +kernel

end Repeats

/-- To meet the first leaf again takes no number from the third. -/
theorem numbers_as_met_repeats : (make ∅ Repeats.node).Reached Repeats.node ∧
    Repeats.last ∈ Repeats.node.leaves ∧
    ((make ∅ Repeats.node).mapping ∅ .name).size = 4 ∧
    ((make ∅ Repeats.node).mapping ∅ .name).get? (Repeats.last.tagged ∅ .name) = some "a3" ∧
    ((make ∅ Repeats.node).mapping ∅ .formula).get? (Repeats.last.tagged ∅ .formula)
      = some "\\a_3" := by
  have hr : (make ∅ Repeats.node).Reached Repeats.node := .make ∅
  have hname := (numbers_as_met Nat ∅ .name).2.2 Repeats.node _ hr
  have hformula := (numbers_as_met Nat ∅ .formula).2.2 Repeats.node _ hr
  refine ⟨hr, Repeats.last_mem, ?_, ?_, ?_⟩
  · have hkeys := congrArg List.length hname.1
    rw [OrderedMap.keys, List.length_map] at hkeys
    exact hkeys.trans (by decide +kernel)
  · rw [hname.2 _ Repeats.last_mem, Repeats.bearers_last]
    rfl
  · rw [hformula.2 _ Repeats.last_mem, Repeats.bearers_last]
    rfl

end LabelSpace

/-! ## Compiling leaf by leaf -/

namespace Model

variable {V : Type}

/-- The tagged name of the first leaf from the left that a mapping does not know. -/
def FirstUnmapped (mapping : OrderedMap String String) (m : Model V) (tagged : String) : Prop :=
  ∃ before after, m.components = before ++ tagged :: after ∧ (∀ t ∈ before, t ∈ mapping.keys) ∧
    tagged ∉ mapping.keys

section

variable {m : Model V} {mapping : OrderedMap String String} {tagged : String}

theorem firstUnmapped_iff : m.FirstUnmapped mapping tagged ↔ ∃ l,
    m.leaves.find? (fun l => l.taggedName ∉ mapping.keys) = some l ∧ l.taggedName = tagged := by
  have hfind : m.FirstUnmapped mapping tagged
      ↔ m.components.find? (fun t => t ∉ mapping.keys) = some tagged := by
    rw [List.find?_eq_some_iff_append, FirstUnmapped]
    constructor
    · rintro ⟨before, after, hm, hbefore, htagged⟩
      exact ⟨by simpa using htagged, before, after, hm, fun t ht => by simpa using hbefore t ht⟩
    · rintro ⟨htagged, before, after, hm, hbefore⟩
      exact ⟨before, after, hm, fun t ht => by simpa using hbefore t ht, by simpa using htagged⟩
  rw [hfind, components, List.find?_map, Option.map_eq_some_iff]
  rfl

theorem exists_firstUnmapped_iff :
    (∃ tagged, m.FirstUnmapped mapping tagged) ↔ ∃ l ∈ m.leaves, l.taggedName ∉ mapping.keys := by
  have hsome : (∃ l, m.leaves.find? (fun l => l.taggedName ∉ mapping.keys) = some l)
      ↔ ∃ l ∈ m.leaves, l.taggedName ∉ mapping.keys := by
    rw [← Option.isSome_iff_exists, List.find?_isSome]
    simp only [decide_eq_true_eq]
  simp only [firstUnmapped_iff, ← hsome]
  exact ⟨fun ⟨_, l, h, _⟩ => ⟨l, h⟩, fun ⟨l, h⟩ => ⟨_, l, h, rfl⟩⟩

variable [Add V] [Mul V] {options : CompileOptions}

theorem compile_eq_error_iff {e : EvaluationError} : compile mapping options m = .error e ↔
    ∃ tagged, m.FirstUnmapped mapping tagged ∧ e = .unmappedComponent tagged := by
  constructor
  · intro h
    rcases hfind : m.leaves.find? fun l => l.taggedName ∉ mapping.keys with _ | l
    · obtain ⟨ev, hev⟩ := exists_compile options (mapped_of_find?_eq_none hfind)
      cases h.symm.trans hev
    · rw [compile_eq_error hfind] at h
      exact ⟨_, firstUnmapped_iff.2 ⟨l, hfind, rfl⟩, (Except.error.inj h).symm⟩
  · rintro ⟨tagged, ht, rfl⟩
    obtain ⟨l, hl, rfl⟩ := firstUnmapped_iff.1 ht
    exact compile_eq_error hl

end

/-- A label space knows every leaf of its node, whenever it is read. -/
theorem exists_resolve? {m : Model V} {sp : LabelSpace V} (h : sp.Reached (.model m))
    (edits : Edits) {tagged : String} (ht : tagged ∈ m.components) :
    ∃ component, sp.resolve? edits .name tagged = some component := by
  obtain ⟨l, hl, rfl⟩ := List.mem_map.1 ht
  exact ⟨_, get?_of_reached h hl⟩

variable [Add V] [Mul V]

theorem exists_make (edits : Edits) (m : Model V) (options : CompileOptions) :
    ∃ c, CompiledModel.make edits m options = .ok c := by
  have hkeys : ∀ l ∈ m.leaves,
      l.taggedName ∈ ((LabelSpace.make edits (.model m)).mapping edits .name).keys := fun l hl =>
    OrderedMap.exists_get?_iff.1 (exists_resolve? (.make edits) edits (List.mem_map_of_mem hl))
  obtain ⟨ev, hev⟩ := exists_compile options hkeys
  exact ⟨_, CompiledModel.make_eq_ok.2 ⟨ev, hev, rfl⟩⟩

/-- An evaluator is refused exactly if the mapping does not know all leaves of the model, with any
options, and the error names the first of them from the left that it does not know. To compile a
model never fails, whatever was relabelled before, and all its components are found in the label
space under the names that they were compiled with, whatever is relabelled later. -/
theorem fails_at_first_unmapped (V : Type) [Add V] [Mul V] :
    (∀ (m : Model V) (mapping : OrderedMap String String),
      ((∃ e, generate mapping m = .error e) ↔ ∃ l ∈ m.leaves, l.taggedName ∉ mapping.keys) ∧
      ∀ e, (generate mapping m = .error e ↔
          ∃ tagged, m.FirstUnmapped mapping tagged ∧ e = .unmappedComponent tagged) ∧
        ∀ options, compile mapping options m = .error e ↔ generate mapping m = .error e) ∧
    ∀ (m : Model V) (edits : Edits) (options : CompileOptions),
      ∃ c, CompiledModel.make edits m options = .ok c ∧
        ∀ c', c.Later c' → ∀ edits', ∀ tagged ∈ m.components, ∃ component,
          ((LabelSpace.make edits (.model m)).mapping edits .name).get? tagged = some component ∧
          c'.labels.resolve? edits' .name tagged = some component ∧
          c'.resolve edits' tagged = component := by
  refine ⟨fun m mapping => ⟨?_, fun e => ⟨compile_eq_error_iff, fun options => ?_⟩⟩,
    fun m edits options => ?_⟩
  · simp only [generate, compile_eq_error_iff, ← exists_firstUnmapped_iff]
    simp
  · rw [generate, compile_eq_error_iff, compile_eq_error_iff]
  · obtain ⟨c, hc⟩ := exists_make edits m options
    refine ⟨c, hc, fun c' hlater edits' tagged ht => ?_⟩
    have hr : c'.labels.Reached (.model m) := hlater.reached (CompiledModel.reached_of_make hc)
    obtain ⟨component, hcomponent⟩ := exists_resolve? hr edits' ht
    refine ⟨component, ?_, hcomponent, ?_⟩
    · rw [CompiledModel.mapping_name_eq (.make edits) hr edits edits']
      exact hcomponent
    · rw [CompiledModel.resolve, hcomponent, Option.getD_some]

namespace Unmapped

def first : String := (LabelSpace.Triple.component 0 "a").name

def second : String := (LabelSpace.Triple.component 1 "a2").name

/-- Of `a + a2 + a`, the first component only. -/
def known : OrderedMap String String := .singleton first "a"

def relabelled : Edits := { formulas := .singleton (.fresh 1) "b" }

end Unmapped

open Unmapped LabelSpace.Triple in
/-- Two components are unmapped, and the error names the one to the left. The label space knows it,
also when its formula has been changed. -/
theorem fails_at_first_unmapped_second :
    generate known sum = .error (.unmappedComponent second) ∧
    ∃ c, CompiledModel.make ∅ sum {} = .ok c ∧
      (c.consult relabelled .formula).resolve relabelled second = "a2" := by
  have hfirst : FirstUnmapped known sum second :=
    ⟨[first], _, rfl, by decide +kernel, by decide +kernel⟩
  have hsecond : second ∈ components sum := by decide +kernel
  have hname : ((LabelSpace.make ∅ (.model sum)).mapping ∅ .name).get? second = some "a2" := by
    decide +kernel
  obtain ⟨hmapping, hcompiled⟩ := fails_at_first_unmapped Nat
  obtain ⟨c, hc, hlater⟩ := hcompiled sum ∅ {}
  obtain ⟨component, hcomponent, -, hresolve⟩ :=
    hlater _ (.consult relabelled .formula .refl) relabelled second hsecond
  refine ⟨((hmapping sum known).2 _).1.2 ⟨second, hfirst, rfl⟩, c, hc, ?_⟩
  rw [hresolve]
  exact Option.some.inj (hcomponent.symm.trans hname)

end Model

end SpectralAlgebra
