import SpectralAlgebra.Proofs.Construction
import SpectralAlgebra.Proofs.Overwriting
import SpectralAlgebra.Proofs.Placement
import SpectralAlgebra.Proofs.Templates
import SpectralAlgebra.Site.Replay

/-!
# The sites of nodes have an order

Whatever an entry of a node's site depends on has a shorter name: a composite is rendered longer
than its operands, and a derived quantity is named by its parameter's name and what else the
template has. Only a template that has nothing else, the bare placeholder, gives the derived
quantity the name of its parameter, and then the site depends on itself. So the site of a node that
can be built has an order of evaluation unless a template below it is bare, and if one is, a bare
one is what the failure names (`Node.site_ordered_iff`).
-/

namespace SpectralAlgebra

open Relation

namespace Derived

/-- The quantities that can be declared. -/
def Accepted (d : Derived) : Prop := ∃ template arity combine, make template arity combine = .ok d

/-- The template names the quantity as the parameter itself. -/
def Bare (d : Derived) : Prop := d.template = placeholder

variable {d : Derived}

theorem accepted_iff : d.Accepted ↔ ∃ before after, Framed d.template before after := by
  constructor
  · rintro ⟨template, arity, combine, h⟩
    obtain ⟨⟨-, hframed⟩, rfl⟩ := make_eq_ok_iff.1 h
    exact hframed
  · exact fun h => ⟨d.template, 1, d.combine, make_eq_ok_iff.2 ⟨⟨rfl, h⟩, rfl⟩⟩

/-- An accepted template is the placeholder between two texts, and a name is written there. -/
theorem Accepted.exists_siteName (h : d.Accepted) : ∃ before after : List Char,
    d.template.toList = before ++ placeholder.toList ++ after ∧
      ∀ name, (d.siteName name).toList = before ++ name.toList ++ after := by
  obtain ⟨before, after, h⟩ := accepted_iff.1 h
  exact ⟨before.toList, after.toList, by rw [h.eq]; simp, h.toList_replaceAll⟩

theorem Accepted.siteName_of_bare (h : d.Accepted) (hb : d.Bare) (name : String) :
    d.siteName name = name := by
  obtain ⟨before, after, ht, hn⟩ := h.exists_siteName
  have hlen := congrArg List.length ht
  rw [hb, List.length_append, List.length_append] at hlen
  have hbefore : before = [] := List.eq_nil_of_length_eq_zero (by omega)
  have hafter : after = [] := List.eq_nil_of_length_eq_zero (by omega)
  rw [← String.toList_inj, hn, hbefore, hafter, List.nil_append, List.append_nil]

theorem Accepted.length_lt_siteName (h : d.Accepted) (hb : ¬ d.Bare) (name : String) :
    name.length < (d.siteName name).length := by
  obtain ⟨before, after, ht, hn⟩ := h.exists_siteName
  have hne : before ≠ [] ∨ after ≠ [] := by
    by_contra hnil
    rw [not_or, Classical.not_not, Classical.not_not] at hnil
    refine hb (String.toList_inj.1 ?_)
    rw [ht, hnil.1, hnil.2, List.nil_append, List.append_nil]
  have hpos : 0 < before.length + after.length := by
    rcases hne with h | h
    · exact Nat.add_pos_left (List.length_pos_of_ne_nil h) _
    · exact Nat.add_pos_right _ (List.length_pos_of_ne_nil h)
  rw [← String.length_toList, ← String.length_toList, hn, List.length_append, List.length_append]
  omega

end Derived

/-! ## Nodes that can be built -/

/-- The parameters that making leaves and combining lead to. -/
inductive Parameter.Constructible : Parameter → Prop where
  | make {id : NodeId} {name formula : String} {default : Float} {prior : Prior}
      {derived : Option Derived} {attributes : Attributes} {p : Parameter}
      (hd : ∀ d ∈ derived, d.Accepted)
      (h : Parameter.make id name formula default prior derived attributes = .ok p) :
      Constructible p
  | combine {id : NodeId} {o : Operator} {lh rh : Parameter} (hl : Constructible lh)
      (hr : Constructible rh) : Constructible (Parameter.combine id o lh rh)

namespace Parameter

theorem Constructible.accepted {p : Parameter} (h : p.Constructible) {l : Leaf ParameterData}
    {d : Derived} (hl : .leaf l ∈ p.parts) (hd : l.data.derived = some d) : d.Accepted := by
  induction h with
  | make hderived h =>
    obtain ⟨-, -, rfl⟩ := make_eq_ok_iff.1 h
    cases List.mem_singleton.1 hl
    exact hderived d hd
  | combine _ _ ihl ihr =>
    simp only [Parameter.combine, parts, List.mem_append, List.mem_singleton, reduceCtorEq,
      or_false] at hl
    exact hl.elim ihl ihr

end Parameter

namespace Node

variable {V : Type}

/-- The nodes that can be built: parameters, and models whose parameters can be built. -/
def Constructible : Node V → Prop
  | parameter p => p.Constructible
  | model m => m.Constructible ∧
    ∀ l ∈ m.leaves, ∀ p ∈ l.data.parameters.values, p.Constructible

variable {n : Node V}

theorem Constructible.accepted (hn : n.Constructible) {l : Leaf ParameterData} {d : Derived}
    (h : .derived l d ∈ n.origins) : d.Accepted := by
  obtain ⟨hl, hd⟩ := Parameter.derived_mem_origins.1 h
  rcases n with p | m
  · exact Parameter.Constructible.accepted hn hl hd
  · simp only [parameterParts, Model.parameterParts, List.mem_flatMap] at hl
    obtain ⟨component, hc, p, hp, hl⟩ := hl
    exact (hn.2 component hc p hp).accepted hl hd

theorem site_covers : ∀ n : Node V, (site n).Covers n.origins
  | parameter p => Parameter.site_covers p
  | model m => Model.site_covers m

/-! ## Dependencies -/

/-- A dependency has a shorter name, unless it is that of a bare template on itself. -/
theorem dependsOn_cases (hn : n.Constructible) {x y : String} (h : (site n).DependsOn x y) :
    y.length < x.length ∨
      ∃ l d, .derived l d ∈ n.origins ∧ d.Bare ∧ x = l.taggedName ∧ y = l.taggedName := by
  obtain ⟨e, hx, hy, -⟩ := h
  obtain ⟨q, hq, rfl, hqe⟩ := n.site_covers.deterministic x e hx
  rcases q with l | ⟨l, d⟩ | ⟨name, o, lhName, rhName⟩
  · cases hqe
  · cases hqe
    obtain rfl := List.mem_singleton.1 hy
    by_cases hb : d.Bare
    · exact .inr ⟨l, d, hq, hb, (hn.accepted hq).siteName_of_bare hb _, rfl⟩
    · exact .inl ((hn.accepted hq).length_lt_siteName hb _)
  · cases hqe
    obtain ⟨id, r, lh, rh, -, hname, rfl, rfl⟩ := Parameter.composite_mem_origins.1 hq
    have hlen := Parameter.length_operand_lt id o r lh rh
    rw [← hname] at hlen
    rcases List.mem_pair.1 hy with rfl | rfl
    · exact .inl hlen.1
    · exact .inl hlen.2

theorem acyclic_site (hn : n.Constructible) (hb : ∀ l d, .derived l d ∈ n.origins → ¬ d.Bare)
    (x : String) : ¬ TransGen (site n).DependsOn x x := by
  refine Site.acyclic_of_lt (f := String.length) (fun x y h => ?_) x
  refine (dependsOn_cases hn h).resolve_right ?_
  rintro ⟨l, d, hd, hbare, -⟩
  exact hb l d hd hbare

/-- Along a cycle names cannot get shorter all the time, so it goes through a bare template. -/
theorem bare_of_cycle (hn : n.Constructible) {x : String}
    (h : TransGen (site n).DependsOn x x) :
    ∃ l d, .derived l d ∈ n.origins ∧ d.Bare ∧ x = l.taggedName := by
  have hle : ∀ {y z}, ReflTransGen (site n).DependsOn y z → z.length ≤ y.length := by
    intro y z hyz
    induction hyz with
    | refl => exact Nat.le_refl _
    | tail _ h ih =>
      rcases dependsOn_cases hn h with hlt | ⟨l, d, -, -, hy, hz⟩
      · omega
      · rwa [hz, ← hy]
  obtain ⟨y, hxy, hyx⟩ := TransGen.head'_iff.1 h
  rcases dependsOn_cases hn hxy with hlt | ⟨l, d, hd, hb, hx, -⟩
  · have := hle hyx
    omega
  · exact ⟨l, d, hd, hb, hx⟩

/-- A tagged name is found in another one only as the whole of it. -/
theorem taggedName_unique {ls : List (Leaf ParameterData)} (hl : Legible ls)
    {l l' : Leaf ParameterData} (hmem : l ∈ ls) (hmem' : l' ∈ ls) {before after : List Char}
    (h : before ++ l'.taggedName.toList ++ after = l.taggedName.toList) :
    l'.taggedName = l.taggedName := by
  have hmark : (before ++ l'.name.toList) ++ '_' :: (l'.id.hex.toList ++ after)
      = l.name.toList ++ '_' :: l.id.hex.toList := by
    simpa [Leaf.taggedName, tag] using h
  have hle := NodeId.length_le_of_mark l'.id.underscore_not_mem_hex hmark
    (hl.no_id l hmem l' hmem')
  have hlen := congrArg List.length hmark
  simp only [List.length_append, List.length_cons, NodeId.length_hex] at hle hlen
  obtain ⟨hname, hid⟩ := List.append_inj hmark (by rw [List.length_append]; omega)
  have hafter : after = [] := List.eq_nil_of_length_eq_zero (by omega)
  rw [hafter, List.append_nil] at hid
  have hid : l'.id = l.id := NodeId.hex_inj (String.toList_inj.1 (List.cons.inj hid).2)
  rw [Leaf.taggedName, Leaf.taggedName, hid, hl.same_name l' hmem' l hmem hid]

/-- The site that a bare template names depends on itself. -/
theorem dependsOn_self (hn : n.Constructible) (hl : Legible n.parameterLeaves)
    {l : Leaf ParameterData} {d : Derived} (h : .derived l d ∈ n.origins) (hb : d.Bare) :
    (site n).DependsOn l.taggedName l.taggedName := by
  have hname : (Origin.derived l d).name = l.taggedName := (hn.accepted h).siteName_of_bare hb _
  have hpart := (Parameter.derived_mem_origins.1 h).1
  have hkey := n.site_covers.other_mem _ h rfl
  rw [hname] at hkey
  obtain ⟨e, he⟩ := OrderedMap.exists_get?_iff.2 hkey
  refine ⟨e, he, ?_, hkey⟩
  obtain ⟨q, hq, hqn, hqe⟩ := n.site_covers.deterministic _ e he
  rcases q with l' | ⟨l', d'⟩ | ⟨name, o, lhName, rhName⟩
  · cases hqe
  · cases hqe
    obtain ⟨before, after, -, hd'⟩ := (hn.accepted hq).exists_siteName
    have hpart' := (Parameter.derived_mem_origins.1 hq).1
    have hchars : before ++ l'.taggedName.toList ++ after = l.taggedName.toList := by
      rw [← hd', ← hqn]
      rfl
    rw [taggedName_unique hl (mem_parameterLeaves hpart _ (List.mem_singleton_self l))
      (mem_parameterLeaves hpart' _ (List.mem_singleton_self l')) hchars]
    exact List.mem_singleton_self _
  · -- no composite has the name of a leaf
    obtain ⟨id, r, lh, rh, hp, rfl, rfl, rfl⟩ := Parameter.composite_mem_origins.1 hq
    cases (name_eq_iff hl hp hpart).1 hqn

end Node

/-! ## Replaying -/

namespace Site

variable {samples : Values} {x : String}

theorem bind_ne_cycle {α β : Type} {r : Except SiteError α} {f : α → Except SiteError β}
    (hr : r ≠ .error (.cycle x)) (hf : ∀ v, f v ≠ .error (.cycle x)) :
    r >>= f ≠ .error (.cycle x) := by
  rcases r with e | v
  · exact fun h => hr (congrArg Except.error (Except.error.inj h))
  · exact hf v

theorem sampleValue_ne_cycle (name : String) (prior : Prior) :
    sampleValue samples name prior ≠ .error (.cycle x) := by
  unfold sampleValue
  split
  · simp
  · split <;> simp

theorem replaySamples_ne_cycle : ∀ (entries : List (String × Prior)) (values : Values),
    replaySamples samples entries values ≠ .error (.cycle x)
  | [], _ => by simp [replaySamples]
  | (name, prior) :: rest, values => by
    rw [replaySamples]
    exact bind_ne_cycle (sampleValue_ne_cycle name prior) fun v => replaySamples_ne_cycle rest _

theorem collect_ne_cycle (values : Values) :
    ∀ names : List String, collect values names ≠ .error (.cycle x)
  | [] => by simp [collect]
  | name :: rest => by
    rw [collect]
    split
    · simp
    · exact bind_ne_cycle (collect_ne_cycle values rest) fun xs => by simp

theorem replayDeterministic_ne_cycle (s : Site) : ∀ (names : List String) (values : Values),
    replayDeterministic s names values ≠ .error (.cycle x)
  | [], _ => by simp [replayDeterministic]
  | name :: rest, values => by
    rw [replayDeterministic]
    split
    · exact replayDeterministic_ne_cycle s rest values
    · exact bind_ne_cycle (collect_ne_cycle values _) fun xs =>
        replayDeterministic_ne_cycle s rest _

/-- Only the order of evaluation can fail for a cycle. -/
theorem replay_ne_cycle {s : Site} {names : List String} (h : s.order = .ok names) :
    s.replay samples ≠ .error (.cycle x) := by
  unfold replay
  rw [h]
  exact bind_ne_cycle (replaySamples_ne_cycle s.sample.entries ∅) fun values =>
    replayDeterministic_ne_cycle s names values

end Site

namespace Node

variable {V : Type}

/-- The deterministic sites of a node that can be built have an order of evaluation, and replaying
never fails for the want of one, if no template below the node is bare. Where raw names hold no
identity that is also needed, and the failure names a leaf with a bare template. -/
theorem site_ordered_iff (n : Node V) (hn : n.Constructible) :
    ((∀ l d, .derived l d ∈ n.origins → ¬ d.Bare) → (∃ names, (site n).order = .ok names) ∧
      ∀ samples x, (site n).replay samples ≠ .error (.cycle x)) ∧
    (Legible n.parameterLeaves →
      ((∃ names, (site n).order = .ok names) ↔ ∀ l d, .derived l d ∈ n.origins → ¬ d.Bare) ∧
      ∀ e, (site n).order = .error e →
        ∃ l d, .derived l d ∈ n.origins ∧ d.Bare ∧ e = .cycle l.taggedName) := by
  refine ⟨fun hb => ?_, fun hl => ⟨⟨?_, fun hb => Site.exists_order (acyclic_site hn hb)⟩, ?_⟩⟩
  · obtain ⟨names, hnames⟩ := Site.exists_order (acyclic_site hn hb)
    exact ⟨⟨names, hnames⟩, fun samples x => Site.replay_ne_cycle hnames⟩
  · rintro ⟨names, hnames⟩ l d h hb
    exact Site.acyclic_of_order_eq_ok hnames l.taggedName (.single (dependsOn_self hn hl h hb))
  · intro e he
    obtain ⟨x, rfl, hx⟩ := Site.order_eq_error he
    obtain ⟨l, d, hd, hb, rfl⟩ := bare_of_cycle hn hx
    exact ⟨l, d, hd, hb, rfl⟩

namespace Shadowed

def same : Derived := ⟨Derived.placeholder, fun xs => xs.headD 0⟩

def leaf : Leaf ParameterData := ⟨.fresh 0, "p", "p", ∅, ⟨1, .fixed 1, some same⟩⟩

def node : Node Float := .parameter (.leaf leaf)

theorem accepted : same.Accepted :=
  Derived.accepted_iff.2 ⟨"", "", by decide, by decide, by decide⟩

theorem made : Parameter.make (.fresh 0) "p" "p" 1 (.fixed 1) (some same) ∅ = .ok (.leaf leaf) := by
  have hfinite : (1 : Float).isFinite = true := by decide +kernel
  have hvalue : ((1 : Float) == 1) = true := by decide +kernel
  rw [Parameter.make, Prior.check, hfinite, hvalue]
  rfl

theorem constructible : node.Constructible := by
  refine .make (fun d hd => ?_) made
  cases hd
  exact accepted

theorem legible : Legible node.parameterLeaves where
  same_name := by
    intro l hl l' hl' _
    rw [List.mem_singleton.1 hl, List.mem_singleton.1 hl']
  no_id := by
    intro l hl l' _ hi
    have hle := hi.length_le
    rw [List.mem_singleton.1 hl, NodeId.length_hex] at hle
    exact absurd hle (by decide)

end Shadowed

/-- A derived quantity with the bare placeholder for a template is accepted and depends on
itself. -/
theorem site_ordered_iff_shadowed : Shadowed.node.Constructible ∧
    Legible Shadowed.node.parameterLeaves ∧
      (site Shadowed.node).order = .error (.cycle Shadowed.leaf.taggedName) := by
  obtain ⟨-, hl⟩ := site_ordered_iff Shadowed.node Shadowed.constructible
  obtain ⟨hok, herror⟩ := hl Shadowed.legible
  have hd : Origin.derived Shadowed.leaf Shadowed.same ∈ Shadowed.node.origins :=
    Parameter.derived_mem_origins.2 ⟨List.mem_singleton_self _, rfl⟩
  refine ⟨Shadowed.constructible, Shadowed.legible, ?_⟩
  rcases he : (site Shadowed.node).order with e | names
  · obtain ⟨l, d, hld, -, rfl⟩ := herror e he
    cases List.mem_singleton.1 (Parameter.derived_mem_origins.1 hld).1
    rfl
  · exact absurd rfl (hok.1 ⟨names, he⟩ _ _ hd)

end Node

end SpectralAlgebra
