import SpectralAlgebra.Proofs.Chains
import SpectralAlgebra.Proofs.Numbering
import SpectralAlgebra.Proofs.Reading
import SpectralAlgebra.Proofs.Replacement
import SpectralAlgebra.Proofs.Shapes

/-!
# Labels are renderings

The label of a node is found in its tagged rendering, where one tagged label after the other is
written as what it is resolved to, in a text that gets less tagged and more resolved all the while.
If identities are found in no raw and no resolved label, the outcome is the rendering of the node
with every leaf shown as what it is resolved to, and no identity is left in it
(`LabelSpace.label_eq_rendering`).

A tagged label ends in an identity, and identities stand nowhere but behind the underscores of
tagged labels: they hold no character of the separators, and the separators around a label keep it
from making up one with its neighbours (`NodeId.AbsentFrom.append_cons`). So while a leaf is being
resolved, a place where its identity is read is the end of its own tagged label (`Marked`), and no
occurrence of that label runs over a separator (`Turns.append_cons`).

The composites of a compiled model are labelled in the same way, each in its own tagged name but
with the numbering of the whole model, so its evaluators are those that carry the renderings
(`Model.compile_eq_shown`).
-/

namespace SpectralAlgebra

namespace NodeId

/-- The identity does not occur in the text. -/
def AbsentFrom (x : NodeId) (t : List Char) : Prop := ¬ x.hex.toList <:+: t

variable {x y : NodeId} {a b t : List Char} {c : Char}

theorem absentFrom_of_length (h : t.length < 32) : x.AbsentFrom t := by
  intro hi
  have hle := hi.length_le
  rw [length_hex] at hle
  omega

/-- A character that no identity holds keeps the texts around it from making up an identity. -/
theorem AbsentFrom.append_cons (hc : c ∉ x.hex.toList) (ha : x.AbsentFrom a)
    (hb : x.AbsentFrom b) : x.AbsentFrom (a ++ c :: b) := by
  intro h
  rcases List.infix_append_iff.1 h with h | h | ⟨l₁, l₂, hl, h₁, h₂⟩
  · exact ha h
  · rcases List.infix_cons_iff.1 h with ⟨s, hs⟩ | h
    · rcases hx : x.hex.toList with _ | ⟨d, ds⟩
      · exact absurd (congrArg List.length hx) (by rw [length_hex]; decide)
      · rw [hx] at hs hc
        exact hc (by simp [(List.cons.inj hs).1])
    · exact hb h
  · rcases l₂ with _ | ⟨d, l₂⟩
    · rw [List.append_nil] at hl
      exact ha (hl ▸ h₁.isInfix)
    · rw [hl, (List.cons_prefix_cons.1 h₂).1] at hc
      exact hc (by simp)

theorem absentFrom_hex (h : x ≠ y) : x.AbsentFrom y.hex.toList := by
  intro hi
  have heq := hi.eq_of_length (by rw [length_hex, length_hex])
  exact h (hex_inj (String.toList_inj.1 heq))

theorem absentFrom_tag {raw : String} (h : x.AbsentFrom raw.toList) (hxy : x ≠ y) :
    x.AbsentFrom (tag raw y).toList := by
  have ht := AbsentFrom.append_cons x.underscore_not_mem_hex h (absentFrom_hex hxy)
  simpa [tag] using ht

end NodeId

/-! ## Resolving one leaf -/

/-- Wherever the identity stands behind an underscore, the raw label stands before that. -/
def Marked (raw : List Char) (x : NodeId) (t : List Char) : Prop :=
  ∀ u v, t = u ++ '_' :: (x.hex.toList ++ v) → raw <:+ u

/-- To write `r` for the tagged label of a leaf turns a text into another, and in the text the
leaf's identity is read at the end of its tagged label only. -/
structure Turns (raw : List Char) (x : NodeId) (r t t' : List Char) : Prop where
  marked : Marked raw x t
  replaced_eq : Text.replaced (raw ++ '_' :: x.hex.toList) r t = t'

namespace Turns

variable {raw r a a' b b' t : List Char} {x : NodeId} {c : Char}

theorem tag_ne_nil : raw ++ '_' :: x.hex.toList ≠ [] := by simp

theorem of_absent (h : x.AbsentFrom t) : Turns raw x r t t where
  marked := fun u v ht => absurd ⟨u ++ ['_'], v, by simp [ht]⟩ h
  replaced_eq := by
    refine Text.replaced_of_absent tag_ne_nil r fun hp => h (List.IsInfix.trans ?_ hp)
    exact ⟨raw ++ ['_'], [], by simp⟩

theorem of_tag (h : x.AbsentFrom raw) : Turns raw x r (raw ++ '_' :: x.hex.toList) r where
  marked := fun u v ht => by
    have hle := NodeId.length_le_of_mark x.underscore_not_mem_hex ht.symm h
    have hlen := congrArg List.length ht
    simp only [List.length_append, List.length_cons] at hlen
    rw [(List.append_inj ht (by omega)).1]
  replaced_eq := Text.replaced_pattern tag_ne_nil r

variable (hc : c ∉ x.hex.toList) (hu : c ≠ '_')
include hc hu

theorem marked_append_cons (ha : Marked raw x a) (hb : Marked raw x b) :
    Marked raw x (a ++ c :: b) := by
  intro u v h
  rcases List.append_eq_append_iff.1 h with ⟨s, rfl, hs⟩ | ⟨s, rfl, hs⟩
  · rcases s with _ | ⟨d, s⟩
    · exact absurd (List.cons.inj hs).1 hu
    · -- the identity stands behind the character
      have hraw := hb s v (List.cons.inj hs).2
      exact hraw.trans ⟨a ++ [d], by simp⟩
  · rcases s with _ | ⟨d, s⟩
    · exact absurd (List.cons.inj hs).1.symm hu
    · -- the identity stands before the character, which is none of its own
      rw [List.cons_append, List.cons.injEq] at hs
      obtain ⟨rfl, hrest⟩ := hs
      rcases List.append_eq_append_iff.1 hrest with ⟨w, hw, -⟩ | ⟨w, hw, hv⟩
      · exact ha u w (by rw [hw])
      · rcases w with _ | ⟨e, w⟩
        · rw [List.append_nil] at hw
          exact ha u [] (by rw [hw, List.append_nil])
        · rw [(List.cons.inj hv).1, hw] at hc
          exact absurd (by simp) hc

/-- What is between separators is replaced on its own. -/
theorem append_cons (ha : Turns raw x r a a') (hb : Turns raw x r b b') :
    Turns raw x r (a ++ c :: b) (a' ++ c :: b') where
  marked := marked_append_cons hc hu ha.marked hb.marked
  replaced_eq := by
    rw [Text.replaced_append_cons tag_ne_nil r, ha.replaced_eq, hb.replaced_eq]
    -- an occurrence over the character would have its underscore behind it, with too little before
    rintro u v hp ⟨w, rfl⟩
    rcases List.append_eq_append_iff.1 hp with ⟨s, -, hs⟩ | ⟨s, hraw, hs⟩
    · have hmem : c ∈ '_' :: x.hex.toList := by simp [hs]
      exact (List.mem_cons.1 hmem).elim hu hc
    · rcases s with _ | ⟨d, s⟩
      · exact hu (List.cons.inj hs).1
      · obtain ⟨-, rfl⟩ := List.cons.inj hs
        have hle := (hb.marked s w (by simp)).length_le
        have hlen := congrArg List.length hraw
        simp only [List.length_append, List.length_cons] at hlen
        omega

end Turns

/-! ## Renderings, leaf by leaf -/

section Relates

/-- The characters that a rendering puts around leaves and operators. -/
def separators : List Char := [' ', '(', ')']

/-- What relates the texts of the leaves and of the operators relates the renderings, if it holds
between blank texts and is passed on over the separators. -/
theorem Expr.render_relates {D R : Type} {Q : List Char → List Char → Prop}
    {f f' : Leaf D → String} {sign : Operator → Expr D R → String} (blank : Q [] [])
    (sep : ∀ c ∈ separators, ∀ {a a' b b'}, Q a a' → Q b b' → Q (a ++ c :: b) (a' ++ c :: b'))
    (hsign : ∀ o e, Q (sign o e).toList (sign o e).toList) :
    ∀ {e : Expr D R}, (∀ l ∈ e.leaves, Q (f l).toList (f' l).toList) →
      Q (e.render f sign).toList (e.render f' sign).toList := by
  have henclose : ∀ (o : Operator) (e : Expr D R) {s s' : String}, Q s.toList s'.toList →
      Q (enclose o e s).toList (enclose o e s').toList := by
    intro o e s s' h
    unfold enclose
    split
    · have hq := sep '(' (by decide) blank (sep ')' (by decide) h blank)
      simpa using hq
    · exact h
  intro e h
  induction e with
  | leaf l => exact h l (List.mem_singleton_self l)
  | op id o r lh rh ihl ihr =>
    have hl := henclose o lh (ihl fun l hl => h l (List.mem_append_left _ hl))
    have hr := henclose o rh (ihr fun l hl => h l (List.mem_append_right _ hl))
    have hq := sep ' ' (by decide) hl (sep ' ' (by decide) (hsign o lh) hr)
    simpa [render] using hq

theorem Operator.length_symbol : ∀ o : Operator, o.symbol.toList.length < 32
  | add => by decide
  | mul => by decide

theorem Operator.length_tex : ∀ o : Operator, o.tex.toList.length < 32
  | add => by decide
  | mul => by decide

theorem Parameter.length_sign (p : Parameter) (o : Operator) :
    ∀ kind : LabelKind, (sign kind o p).toList.length < 32
  | .name => o.length_symbol
  | .formula => o.length_tex

theorem Model.length_sign {V : Type} (m : Model V) (o : Operator) :
    ∀ kind : LabelKind, (sign kind o m).toList.length < 32
  | .name => o.length_symbol
  | .formula => by
    dsimp only [sign]
    split
    · decide
    · exact o.length_tex

variable {V : Type}

theorem Node.leaves_parameter (p : Parameter) :
    (parameter p : Node V).leaves = p.leaves.map Leaf.bare := by
  rw [leaves, Expr.visit_eq, List.flatMap_singleton]

theorem Node.leaves_model (m : Model V) : (model m).leaves = m.leaves.map Leaf.bare := by
  rw [leaves, Expr.visit_eq, List.flatMap_singleton]

theorem Node.render_relates {Q : List Char → List Char → Prop} {kind : LabelKind}
    {f f' : Leaf Unit → String} (short : ∀ t : List Char, t.length < 32 → Q t t)
    (sep : ∀ c ∈ [' ', '(', ')'], ∀ {a a' b b'}, Q a a' → Q b b' →
      Q (a ++ c :: b) (a' ++ c :: b')) :
    ∀ {n : Node V}, (∀ l ∈ n.leaves, Q (f l).toList (f' l).toList) →
      Q (n.render kind f).toList (n.render kind f').toList
  | parameter p, h => by
    rw [leaves_parameter, List.forall_mem_map] at h
    exact Expr.render_relates (short [] (by decide)) sep
      (fun o e => short _ (Parameter.length_sign e o kind)) h
  | model m, h => by
    rw [leaves_model, List.forall_mem_map] at h
    exact Expr.render_relates (short [] (by decide)) sep
      (fun o e => short _ (Model.length_sign e o kind)) h

end Relates

/-! ## Resolving one leaf after the other -/

/-- What a leaf is resolved to in the numbering of a node that it belongs to. -/
def Node.resolved {V : Type} (edits : Edits) (kind : LabelKind) (n : Node V) (l : Leaf Unit) :
    String :=
  kind.resolved (n.labelled edits kind) (l.raw edits kind, l.id)

/-- Each identity has one raw label, and none of them is found in a raw or a resolved label. -/
structure Node.Unmixed {V : Type} (edits : Edits) (kind : LabelKind) (n : Node V) : Prop where
  one_label : ∀ l ∈ n.leaves, ∀ l' ∈ n.leaves, l.id = l'.id → l.raw edits kind = l'.raw edits kind
  raw_absent : ∀ l ∈ n.leaves, ∀ l' ∈ n.leaves, l.id.AbsentFrom (l'.raw edits kind).toList
  resolved_absent : ∀ l ∈ n.leaves, ∀ l' ∈ n.leaves,
    l.id.AbsentFrom (n.resolved edits kind l').toList

namespace Node

variable {V : Type} {edits : Edits} {kind : LabelKind} {n n' : Node V}

/-- The text of a leaf while a node's leaves are being resolved: its tagged label, until it is one
of those that are done. -/
def partly (edits : Edits) (kind : LabelKind) (n : Node V) (done : List NodeId) (l : Leaf Unit) :
    String :=
  if l.id ∈ done then n.resolved edits kind l else l.tagged edits kind

theorem mem_labelled_iff {q : String × NodeId} :
    q ∈ n.labelled edits kind ↔ ∃ l ∈ n.leaves, (l.raw edits kind, l.id) = q := by
  rw [labelled, List.mem_eraseDups, List.mem_map]

theorem render_congr {f f' : Leaf Unit → String} (h : ∀ l ∈ n.leaves, f l = f' l) :
    n.render kind f = n.render kind f' := by
  refine String.toList_inj.1 (render_relates (fun _ _ => rfl) ?_ fun l hl => ?_)
  · rintro c - a a' b b' rfl rfl
    rfl
  · rw [h l hl]

/-- A separator is neither in an identity nor before one. -/
theorem sep_not_mem_hex (x : NodeId) : ∀ c ∈ separators, c ∉ x.hex.toList ∧ c ≠ '_' := by
  simp only [separators, List.forall_mem_cons]
  exact ⟨⟨x.not_mem_hex (by decide), by decide⟩, ⟨x.opening_not_mem_hex, by decide⟩,
    ⟨x.not_mem_hex (by decide), by decide⟩, by simp⟩

theorem absentFrom_render {x : NodeId} {f : Leaf Unit → String}
    (h : ∀ l ∈ n.leaves, x.AbsentFrom (f l).toList) : x.AbsentFrom (n.render kind f).toList := by
  exact @render_relates V (fun t _ => x.AbsentFrom t) kind f f
    (fun _ => NodeId.absentFrom_of_length)
    (fun c hc _ _ _ _ ha hb => .append_cons (sep_not_mem_hex x c hc).1 ha hb) n h

section Unmixed

variable (hn : n.Unmixed edits kind)
include hn

theorem turns_partly {l l' : Leaf Unit} (hl : l ∈ n.leaves) (hl' : l' ∈ n.leaves)
    (done : List NodeId) :
    Turns (l.raw edits kind).toList l.id (n.resolved edits kind l).toList
      (n.partly edits kind done l').toList (n.partly edits kind (l.id :: done) l').toList := by
  unfold partly
  by_cases hd : l'.id ∈ done
  · rw [if_pos hd, if_pos (List.mem_cons_of_mem _ hd)]
    exact .of_absent (hn.resolved_absent l hl l' hl')
  · rw [if_neg hd]
    by_cases hid : l.id = l'.id
    · -- the leaf's own label
      have hraw := hn.one_label l hl l' hl' hid
      have hres : n.resolved edits kind l' = n.resolved edits kind l := by
        rw [resolved, resolved, hraw, hid]
      have htag : (l'.tagged edits kind).toList
          = (l.raw edits kind).toList ++ '_' :: l.id.hex.toList := by
        rw [Leaf.tagged, tag, ← hraw, ← hid]
        simp
      rw [if_pos (hid ▸ List.mem_cons_self), hres, htag]
      exact .of_tag (hn.raw_absent l hl l hl)
    · rw [if_neg fun h => (List.mem_cons.1 h).elim (fun h => hid h.symm) hd]
      exact .of_absent (NodeId.absentFrom_tag (hn.raw_absent l hl l' hl') hid)

variable (hsub : ∀ l ∈ n'.leaves, l ∈ n.leaves)
include hsub

theorem replaceAll_partly {l : Leaf Unit} (hl : l ∈ n.leaves) (done : List NodeId) :
    Text.replaceAll (l.tagged edits kind) (n.resolved edits kind l)
        (n'.render kind (n.partly edits kind done))
      = n'.render kind (n.partly edits kind (l.id :: done)) := by
  have ht : Turns (l.raw edits kind).toList l.id (n.resolved edits kind l).toList
      (n'.render kind (n.partly edits kind done)).toList
      (n'.render kind (n.partly edits kind (l.id :: done))).toList :=
    render_relates (fun _ h => .of_absent (NodeId.absentFrom_of_length h))
      (fun c hc _ _ _ _ ha hb =>
        .append_cons (sep_not_mem_hex l.id c hc).1 (sep_not_mem_hex l.id c hc).2 ha hb)
      (fun l' hl' => turns_partly hn hl (hsub l' hl') done)
  refine String.toList_inj.1 ?_
  rw [Text.toList_replaceAll, ← ht.replaced_eq, Leaf.tagged, tag]
  simp

theorem foldl_partly : ∀ (todo : List (String × NodeId)) (done : List NodeId),
    (∀ q ∈ todo, q ∈ n.labelled edits kind) →
      todo.foldl (fun text q =>
          Text.replaceAll (tag q.1 q.2) (kind.resolved (n.labelled edits kind) q) text)
        (n'.render kind (n.partly edits kind done))
      = n'.render kind (n.partly edits kind ((todo.map Prod.snd).reverse ++ done))
  | [], _, _ => rfl
  | q :: todo, done, h => by
    obtain ⟨l, hl, rfl⟩ := mem_labelled_iff.1 (h q List.mem_cons_self)
    rw [List.foldl_cons, List.map_cons, List.reverse_cons, List.append_assoc]
    refine Eq.trans (congrArg (todo.foldl _) (replaceAll_partly hn hsub hl done)) ?_
    exact foldl_partly todo (l.id :: done) fun q hq => h q (List.mem_cons_of_mem _ hq)

/-- The tagged rendering of what is made of a node's leaves is turned into the rendering with the
node's resolved labels. -/
theorem substitute_label :
    substitute (n'.label edits kind) (Snapshot.take edits kind n.leaves).mapping
      = n'.render kind (n.resolved edits kind) := by
  have hnone : n'.label edits kind = n'.render kind (n.partly edits kind []) :=
    render_congr fun l _ => (if_neg List.not_mem_nil).symm
  have hall := foldl_partly hn hsub (n.labelled edits kind) [] fun _ h => h
  rw [substitute, Snapshot.entries_take, List.foldl_map, hnone, hall]
  refine render_congr fun l hl => if_pos ?_
  rw [List.append_nil, List.mem_reverse]
  exact List.mem_map_of_mem (f := Prod.snd) (mem_labelled (hsub l hl))

end Unmixed

end Node

/-! ## Evaluators that carry renderings -/

namespace Model

variable {V : Type}

/-- The name of a model whose components are shown as given. -/
def shown (component : Leaf (ModelData V) → String) (m : Model V) : String :=
  m.render component fun o _ => o.symbol

/-- The evaluator in which every part of a model carries the name it is shown by. -/
def evaluatorShown [Add V] [Mul V] (component : Leaf (ModelData V) → String) (check : Bool) :
    Model V → Evaluator V
  | .leaf l => ⟨component l, leafEvaluation check (component l) l.data⟩
  | .op id o r x y =>
    let label := shown component (.op id o r x y)
    ⟨label, r.shape.evaluation label (evaluatorShown component check x)
      (evaluatorShown component check y)⟩

theorem name_evaluatorShown [Add V] [Mul V] {component : Leaf (ModelData V) → String}
    {check : Bool} : ∀ m : Model V, (m.evaluatorShown component check).name = m.shown component
  | .leaf _ => rfl
  | .op .. => rfl

/-- The entries that report each part of a model by the name it is shown by. -/
def linesShown (component : Leaf (ModelData V) → String) : Model V → List Log.Entry
  | .leaf l => [⟨.trace, s!"generating {l.data.kind.text} evaluator '{component l}'"⟩]
  | .op id o r x y =>
    let label := shown component (.op id o r x y)
    linesShown component x ++ linesShown component y ++
      [⟨.trace, s!"generating '{label}' as {r.shape.label} from '{shown component x}' "
        ++ s!"and '{shown component y}'"⟩]

/-- The entry that ends the report of a model with so many components. -/
def compiledLine (name : String) (components : Nat) : Log.Entry :=
  ⟨.debug, s!"compiled '{name}' ({components} components)"⟩

/-- What a component is shown as in the numbering of a whole model. -/
def componentName (edits : Edits) (m : Model V) (l : Leaf (ModelData V)) : String :=
  (Node.model m).resolved edits .name l.bare

theorem leaves_of_mem_parts : ∀ {m p : Model V}, p ∈ m.parts → ∀ l ∈ p.leaves, l ∈ m.leaves
  | .leaf l, p, hp => by
    obtain rfl := List.mem_singleton.1 hp
    exact fun _ h => h
  | .op id o r x y, p, hp => by
    simp only [parts, List.mem_append, List.mem_singleton] at hp
    rcases hp with (hp | hp) | rfl
    · exact fun l hl => List.mem_append_left _ (leaves_of_mem_parts hp l hl)
    · exact fun l hl => List.mem_append_right _ (leaves_of_mem_parts hp l hl)
    · exact fun _ h => h

section Shown

variable {edits : Edits} {m e : Model V}

theorem bare_mem_leaves {l : Leaf (ModelData V)} (h : l ∈ m.leaves) :
    l.bare ∈ (Node.model m).leaves := by
  rw [Node.leaves_model]
  exact List.mem_map_of_mem h

theorem get?_of_reached {sp : LabelSpace V} (hsp : sp.Reached (.model m))
    {l : Leaf (ModelData V)} (h : l ∈ m.leaves) :
    (sp.mapping edits .name).get? l.taggedName = some (m.componentName edits l) :=
  hsp.get?_mapping (Node.mem_labelled (bare_mem_leaves h))

theorem get?_componentName {l : Leaf (ModelData V)} (h : l ∈ m.leaves) :
    ((LabelSpace.make edits (.model m)).mapping edits .name).get? l.taggedName
      = some (m.componentName edits l) :=
  get?_of_reached (.make edits) h

variable (hn : (Node.model m).Unmixed edits .name)
include hn

theorem substitute_name (he : ∀ l ∈ e.leaves, l ∈ m.leaves) :
    substitute e.name ((LabelSpace.make edits (.model m)).mapping edits .name)
      = e.shown (m.componentName edits) := by
  have hsub : ∀ l ∈ (Node.model e).leaves, l ∈ (Node.model m).leaves := by
    rw [Node.leaves_model, List.forall_mem_map]
    exact fun l hl => bare_mem_leaves (he l hl)
  rw [(LabelSpace.Reached.make edits).mapping_eq]
  exact Node.substitute_label hn hsub

theorem compile_eq_shown [Add V] [Mul V] (options : CompileOptions) :
    ∀ {e : Model V}, (∀ l ∈ e.leaves, l ∈ m.leaves) →
      compile ((LabelSpace.make edits (.model m)).mapping edits .name) options e
        = .ok (e.evaluatorShown (m.componentName edits) options.checkShapes)
  | .leaf l, he =>
    compile_leaf_eq_ok.2 ⟨_, get?_componentName (he l (List.mem_singleton_self l)), rfl⟩
  | .op id o r x y, he => by
    have hx := compile_eq_shown options fun l hl => he l (List.mem_append_left _ hl)
    have hy := compile_eq_shown options fun l hl => he l (List.mem_append_right _ hl)
    rw [compile_op_eq_ok]
    refine ⟨_, _, hx, hy, ?_⟩
    rw [substitute_name hn he]
    rfl

theorem report_eq_shown : ∀ {e : Model V}, (∀ l ∈ e.leaves, l ∈ m.leaves) →
    report ((LabelSpace.make edits (.model m)).mapping edits .name) e
      = (e.linesShown (m.componentName edits), some (e.shown (m.componentName edits)))
  | .leaf l, he => by
    rw [report, get?_componentName (he l (List.mem_singleton_self l))]
    rfl
  | .op id o r x y, he => by
    have hx := report_eq_shown fun l hl => he l (List.mem_append_left _ hl)
    have hy := report_eq_shown fun l hl => he l (List.mem_append_right _ hl)
    simp only [report, hx, hy, substitute_name hn he]
    rfl

end Shown

end Model

/-- What becomes of a compiled model that is asked for names and labels. -/
inductive CompiledModel.Later {V : Type} (c : CompiledModel V) : CompiledModel V → Prop
  | refl : Later c c
  | consult (edits : Edits) (kind : LabelKind) {c' : CompiledModel V} (h : Later c c') :
    Later c (c'.consult edits kind)

namespace CompiledModel

variable {V : Type} {edits : Edits} {m : Model V} {options : CompileOptions}
  {c c' : CompiledModel V}

theorem Later.evaluator_eq (h : c.Later c') : c'.evaluator = c.evaluator := by
  induction h with
  | refl => rfl
  | consult edits kind h ih => exact ih

theorem Later.model_eq (h : c.Later c') : c'.model = c.model := by
  induction h with
  | refl => rfl
  | consult edits kind h ih => exact ih

theorem Later.options_eq (h : c.Later c') : c'.options = c.options := by
  induction h with
  | refl => rfl
  | consult edits kind h ih => exact ih

theorem Later.trans {c'' : CompiledModel V} (h : c.Later c') (h' : c'.Later c'') :
    c.Later c'' := by
  induction h' with
  | refl => exact h
  | consult edits kind h' ih => exact .consult edits kind ih

theorem Later.reached (h : c.Later c') {n : Node V} (hc : c.labels.Reached n) :
    c'.labels.Reached n := by
  induction h with
  | refl => exact hc
  | consult edits kind h ih => exact .consult edits kind ih

section

variable {sp sp' : LabelSpace V} {n : Node V} (h : sp.Reached n) (h' : sp'.Reached n)
  (edits edits' : Edits)
include h h'

/-- Names are not edited, so they are numbered alike in all label spaces of a node. -/
theorem mapping_name_eq : sp.mapping edits .name = sp'.mapping edits' .name := by
  rw [h.mapping_eq, h'.mapping_eq]
  exact congrArg Snapshot.mapping (LabelSpace.take_congr rfl)

theorem label_name_eq : sp.label edits .name = sp'.label edits' .name := by
  rw [LabelSpace.label, LabelSpace.label, mapping_name_eq h h' edits edits', h.node_eq, h'.node_eq,
    Node.label_name, Node.label_name]

end

/-- A leaf has one name, and the entry for it is for the whole of its label. -/
theorem entries_leaf (edits : Edits) (l : Leaf (ModelData V)) :
    (Snapshot.take edits .name (Node.model (.leaf l)).leaves).mapping.entries
      = [(l.taggedName, l.name)] := by
  have hone : (Node.model (.leaf l)).labelled edits .name = [(l.name, l.id)] := by
    rw [Node.labelled_name]
    exact eraseDups_of_nodup (List.nodup_singleton _)
  rw [Snapshot.entries_take, hone, List.map_singleton, LabelKind.resolved, rank_cons_self]
  rfl

variable [Add V] [Mul V]

theorem name_evaluator (h : make edits m options = .ok c) :
    c.evaluator.name = (LabelSpace.make edits (.model m)).label edits .name := by
  obtain ⟨ev, hev, rfl⟩ := make_eq_ok.1 h
  rw [LabelSpace.label, (LabelSpace.Reached.make edits).mapping_eq]
  rw [(LabelSpace.Reached.make edits).mapping_eq] at hev
  cases m with
  | leaf l =>
    obtain ⟨component, hc, rfl⟩ := Model.compile_leaf_eq_ok.1 hev
    have hentries := entries_leaf edits l
    obtain rfl : l.name = component := by
      simpa [OrderedMap.get?, hentries, OrderedMap.find] using hc
    rw [substitute, hentries]
    refine String.toList_inj.1 ?_
    change _ = (Text.replaceAll l.taggedName l.name l.taggedName).toList
    rw [Text.toList_replaceAll, Text.replaced_pattern]
    simp [Leaf.taggedName, tag]
  | op id o r x y =>
    obtain ⟨m₁, m₂, -, -, rfl⟩ := Model.compile_op_eq_ok.1 hev
    rfl

theorem model_of_make (h : make edits m options = .ok c) : c.model = m := by
  obtain ⟨ev, -, rfl⟩ := make_eq_ok.1 h
  rfl

theorem reached_of_make (h : make edits m options = .ok c) : c.labels.Reached (.model m) := by
  obtain ⟨ev, -, rfl⟩ := make_eq_ok.1 h
  exact .make edits

/-- The evaluator is what the model is compiled to with the names that are shown now. -/
theorem Later.compiled (hc : c.Later c') (h : make edits m options = .ok c) (edits' : Edits) :
    c'.labels.Reached (.model c'.model) ∧
      Model.compile (c'.labels.mapping edits' .name) c'.options c'.model = .ok c'.evaluator := by
  obtain ⟨ev, hev, rfl⟩ := make_eq_ok.1 h
  obtain rfl : c'.model = m := hc.model_eq
  obtain rfl : c'.evaluator = ev := hc.evaluator_eq
  obtain rfl : c'.options = options := hc.options_eq
  have hr : c'.labels.Reached (.model c'.model) := hc.reached (.make edits)
  rw [mapping_name_eq (.make edits) hr edits edits'] at hev
  exact ⟨hr, hev⟩

theorem Later.name_eq (hc : c.Later c') (h : make edits m options = .ok c) (edits' : Edits) :
    c'.evaluator.name = c'.name edits' := by
  rw [hc.evaluator_eq, name_evaluator h]
  exact label_name_eq (.make edits) (hc.reached (reached_of_make h)) edits edits'

omit [Add V] [Mul V] in
theorem makeEntries_eq_shown (hn : (Node.model m).Unmixed edits .name) :
    makeEntries edits m = m.linesShown (m.componentName edits) ++
      [Model.compiledLine (m.shown (m.componentName edits))
        ((Node.model m).labelled edits .name).length] := by
  have hsize : ((LabelSpace.make edits (.model m)).mapping edits .name).size
      = ((Node.model m).labelled edits .name).length := by
    rw [(LabelSpace.Reached.make edits).mapping_eq, OrderedMap.size, Snapshot.entries_take,
      List.length_map]
  rw [makeEntries, Model.report_eq_shown hn fun _ hl => hl, hsize]
  rfl

end CompiledModel

namespace LabelSpace

section

variable {V : Type} {edits : Edits} {kind : LabelKind} {n : Node V} {sp : LabelSpace V}

theorem Reached.label_eq (h : sp.Reached n) (hn : n.Unmixed edits kind) :
    sp.label edits kind = n.render kind (n.resolved edits kind) := by
  rw [label, h.mapping_eq, h.node_eq]
  exact Node.substitute_label hn fun _ hl => hl

theorem Reached.resolve?_tagged (h : sp.Reached n) {l : Leaf Unit} (hl : l ∈ n.leaves) :
    sp.resolve? edits kind (l.tagged edits kind) = some (n.resolved edits kind l) :=
  h.get?_mapping (Node.mem_labelled hl)

end

/-- A node whose leaves' identities are in no raw and no resolved label is labelled by its rendering
with the resolved labels, and no identity is left in it. A model of that kind is compiled, all its
parts carry and are reported by their renderings with the labels of the whole model, and any
compiled model is called what its evaluator is called, whatever is edited later. -/
theorem label_eq_rendering (V : Type) [Add V] [Mul V] :
    (∀ (n : Node V) (sp : LabelSpace V) (edits : Edits) (kind : LabelKind),
      sp.Reached n → n.Unmixed edits kind →
        sp.label edits kind = n.render kind (n.resolved edits kind) ∧
        ∀ l ∈ n.leaves,
          sp.resolve? edits kind (l.tagged edits kind) = some (n.resolved edits kind l) ∧
            l.id.AbsentFrom (sp.label edits kind).toList) ∧
    (∀ (m : Model V) (edits : Edits) (options : CompileOptions),
      (Node.model m).Unmixed edits .name →
        CompiledModel.make edits m options = .ok ⟨m, .make edits (.model m),
          m.evaluatorShown (m.componentName edits) options.checkShapes, options⟩ ∧
        CompiledModel.makeEntries edits m = m.linesShown (m.componentName edits) ++
          [Model.compiledLine (m.shown (m.componentName edits))
            ((Node.model m).labelled edits .name).length] ∧
        ∀ p ∈ m.parts,
          Model.compile ((LabelSpace.make edits (.model m)).mapping edits .name) options p
            = .ok (p.evaluatorShown (m.componentName edits) options.checkShapes) ∧
          (p.evaluatorShown (m.componentName edits) options.checkShapes).name
            = (Node.model p).render .name ((Node.model m).resolved edits .name)) ∧
    ∀ (m : Model V) (edits edits' : Edits) (options : CompileOptions) (c c' : CompiledModel V),
      CompiledModel.make edits m options = .ok c → c.Later c' →
        c'.evaluator.name = c'.name edits' := by
  refine ⟨fun n sp edits kind h hn => ⟨h.label_eq hn, fun l hl => ⟨h.resolve?_tagged hl, ?_⟩⟩,
    fun m edits options hn => ⟨?_, CompiledModel.makeEntries_eq_shown hn, fun p hp => ⟨?_, ?_⟩⟩,
    fun m edits edits' options c c' h hc => hc.name_eq h edits'⟩
  · rw [h.label_eq hn]
    exact Node.absentFrom_render fun l' hl' => hn.resolved_absent l hl l' hl'
  · exact CompiledModel.make_eq_ok.2
      ⟨_, Model.compile_eq_shown hn options fun _ hl => hl, rfl⟩
  · exact Model.compile_eq_shown hn options (Model.leaves_of_mem_parts hp)
  · rw [Model.name_evaluatorShown]
    rfl

namespace Repeated

def leaf (k : Nat) (name : String) (kind : ModelKind) (make : Generator Nat) : Model Nat :=
  .leaf ⟨.fresh k, name, name, ∅, ⟨kind, ∅, make⟩⟩

def line (k : Nat) : Model Nat := leaf k "a" .additive (.additive fun _ grid _ => grid.tail)

/-- A factor before the sum of two components of one name. -/
def product : Model Nat :=
  .op (.fresh 4) .mul ⟨.additive, .product⟩
    (leaf 0 "t" .multiplicative (.multiplicative fun _ grid _ => grid.tail))
    (.op (.fresh 3) .add ⟨.additive, .addAdd⟩ (line 1) (line 2))

def relabelled : Edits := { formulas := .singleton (.fresh 1) "\\alpha" }

theorem labelled_product : (Node.model product).labelled ∅ .name
    = [("t", .fresh 0), ("a", .fresh 1), ("a", .fresh 2)] := by
  cbv

theorem unmixed : (Node.model product).Unmixed ∅ .name where
  one_label := by decide
  raw_absent := fun _ _ l' hl' => by
    have hlen : ∀ l ∈ (Node.model product).leaves, (l.raw ∅ .name).toList.length < 32 := by decide
    exact NodeId.absentFrom_of_length (hlen l' hl')
  resolved_absent := fun _ _ l' hl' => by
    have hlen : ∀ l ∈ (Node.model product).leaves,
        ((Node.model product).resolved ∅ .name l).toList.length < 32 := by
      unfold Node.resolved
      rw [labelled_product]
      decide
    exact NodeId.absentFrom_of_length (hlen l' hl')

theorem render_product :
    (Node.model product).render .name ((Node.model product).resolved ∅ .name) = "t * (a + a2)" := by
  cbv

end Repeated

/-- The second component named `a` is `a2` wherever it is shown, also behind the factor. -/
theorem label_eq_rendering_repeated : (Node.model Repeated.product).Unmixed ∅ .name ∧
    (make ∅ (.model Repeated.product)).label ∅ .name = "t * (a + a2)" ∧
    ∃ c, CompiledModel.make ∅ Repeated.product {} = .ok c ∧ c.evaluator.name = "t * (a + a2)" ∧
      (c.consult ∅ .formula).name Repeated.relabelled = "t * (a + a2)" := by
  have h := label_eq_rendering Nat
  have hlabel := (h.1 _ (make ∅ (.model Repeated.product)) ∅ .name (.make ∅) Repeated.unmixed).1
  have hc := (h.2.1 _ ∅ {} Repeated.unmixed).1
  have hname := h.2.2 _ ∅ Repeated.relabelled _ _ _ hc (.consult ∅ .formula .refl)
  have hev : (Repeated.product.evaluatorShown (Repeated.product.componentName ∅) true).name
      = "t * (a + a2)" := (Model.name_evaluatorShown _).trans Repeated.render_product
  exact ⟨Repeated.unmixed, hlabel.trans Repeated.render_product, _, hc, hev, hname.symm.trans hev⟩

end LabelSpace

end SpectralAlgebra
