import SpectralAlgebra.Node
import SpectralAlgebra.Proofs.Origins
import SpectralAlgebra.Proofs.Reading

/-!
# Which definition a site keeps

Several origins may define one name, and the site of a node keeps the definition of the last one in
the order in which the parts are visited (`Node.get?_site`). Composites share a name exactly if they
have the same flat form, so a composite can lose its definition to one that groups the same chain
in another way: below a node with `(a + b) + c` and then `a + (b + c)`, the name `a + b + c` stands
for the sum of `a` and `b + c`. The entry of a composite is always that of some grouping of its
chain, unless a derived quantity takes the name, and it is its own exactly if no later definition
is different (`Node.composite_definition`).
-/

namespace SpectralAlgebra

namespace Origin

/-- The last definition that the origins have for a name. -/
def definition? (n : String) : List Origin → Option DeterministicSite
  | [] => none
  | a :: as => (definition? n as).or (if a.name = n then a.deterministic? else none)

variable {n : String} {d : DeterministicSite}

theorem definition?_append : ∀ {as bs : List Origin},
    definition? n (as ++ bs) = (definition? n bs).or (definition? n as)
  | [], bs => by simp [definition?]
  | a :: as, bs => by
    rw [List.cons_append, definition?, definition?_append, definition?, Option.or_assoc]

theorem definition?_singleton (a : Origin) :
    definition? n [a] = if a.name = n then a.deterministic? else none :=
  Option.none_or

theorem definition?_eq_none_iff : ∀ {as : List Origin},
    definition? n as = none ↔ ∀ a ∈ as, a.name = n → a.deterministic? = none
  | [] => by simp [definition?]
  | a :: as => by
    rw [definition?, Option.or_eq_none_iff, definition?_eq_none_iff, List.forall_mem_cons]
    by_cases ha : a.name = n <;> simp [ha, and_comm]

/-- No origin behind this one defines its name. -/
def IsLast (a : Origin) (as : List Origin) : Prop :=
  ∃ before after, as = before ++ a :: after ∧
    ∀ b ∈ after, b.name = a.name → b.deterministic? = none

theorem IsLast.mem {a : Origin} {as : List Origin} (h : a.IsLast as) : a ∈ as := by
  obtain ⟨before, after, rfl, -⟩ := h
  exact List.mem_append_right _ List.mem_cons_self

theorem IsLast.cons {a b : Origin} {as : List Origin} (h : a.IsLast as) : a.IsLast (b :: as) := by
  obtain ⟨before, after, rfl, ha⟩ := h
  exact ⟨b :: before, after, rfl, ha⟩

theorem IsLast.definition? {a : Origin} {as : List Origin} (h : a.IsLast as)
    (hd : a.deterministic? = some d) : definition? a.name as = some d := by
  obtain ⟨before, after, rfl, ha⟩ := h
  rw [definition?_append, Origin.definition?, definition?_eq_none_iff.2 ha, if_pos rfl, hd]
  rfl

theorem exists_isLast : ∀ {as : List Origin}, definition? n as = some d →
    ∃ a : Origin, a.IsLast as ∧ a.name = n ∧ a.deterministic? = some d
  | [], h => by cases h
  | a :: as, h => by
    rw [definition?, Option.or_eq_some_iff] at h
    rcases h with h | ⟨hnone, h⟩
    · obtain ⟨b, hb, hn, hd⟩ := exists_isLast h
      exact ⟨b, hb.cons, hn, hd⟩
    · obtain ⟨rfl, hd⟩ := Option.ite_none_right_eq_some.1 h
      exact ⟨a, ⟨[], as, rfl, definition?_eq_none_iff.1 hnone⟩, rfl, hd⟩

end Origin

/-! ## Sites -/

theorem Site.get?_addDeterministic {a : Origin} {d : DeterministicSite}
    (hd : a.deterministic? = some d) (s : Site) (n : String) :
    (s.addDeterministic a.name d).deterministic.get? n
      = (Origin.definition? n [a]).or (s.deterministic.get? n) := by
  rw [addDeterministic, OrderedMap.get?_insert, Origin.definition?_singleton, hd]
  by_cases hn : n = a.name
  · rw [if_pos hn, if_pos hn.symm]
    rfl
  · rw [if_neg hn, if_neg (Ne.symm hn), Option.none_or]

namespace Parameter

theorem leaves_subset : ∀ {p q : Parameter}, q ∈ p.parts → ∀ l ∈ q.leaves, l ∈ p.leaves
  | .leaf _, _, hq, l, hl => by
    obtain rfl := List.mem_singleton.1 hq
    exact hl
  | .op id o r lh rh, _, hq, l, hl => by
    simp only [parts, List.mem_append, List.mem_singleton] at hq
    rcases hq with (hq | hq) | rfl
    · exact List.mem_append_left _ (leaves_subset hq l hl)
    · exact List.mem_append_right _ (leaves_subset hq l hl)
    · exact hl

theorem get?_site (n : String) : ∀ p : Parameter,
    (site p).deterministic.get? n = Origin.definition? n (origins p.parts)
  | .leaf l => by
    let bare : Site := ⟨OrderedMap.singleton l.taggedName l.data.prior, ∅⟩
    have hbare : bare.deterministic.get? n = Origin.definition? n [.leaf l] := by
      rw [Origin.definition?_singleton]
      exact (ite_self none).symm
    have hown : origins [.leaf l] = .leaf l :: l.data.derived.toList.map (.derived l) :=
      List.append_nil _
    rcases hd : l.data.derived with _ | d
    · simp only [site, parts, hown, hd]
      exact hbare
    · have h := Site.get?_addDeterministic (a := .derived l d) rfl bare n
      rw [hbare, ← Origin.definition?_append] at h
      simp only [site, parts, hown, hd]
      exact h
  | .op id o r lh rh => by
    rw [parts, origins_append, origins_append, Origin.definition?_append,
      Origin.definition?_append, ← get?_site n lh, ← get?_site n rh, ← OrderedMap.get?_merge]
    exact Site.get?_addDeterministic (a := .composite (Expr.op id o r lh rh).name o lh.name rh.name)
      rfl ((site lh).merge (site rh)) n

end Parameter

namespace Model

variable {V : Type}

theorem origins_leaf (l : Leaf (ModelData V)) : origins (.leaf l)
    = Parameter.origins (l.data.parameters.values.flatMap Parameter.parts) :=
  congrArg Parameter.origins (List.flatMap_singleton _ l)

theorem origins_op (id : NodeId) (o : Operator) (r : Resolution) (lh rh : Model V) :
    origins (.op id o r lh rh) = lh.origins ++ rh.origins := by
  rw [origins, parameterParts_op, Parameter.origins_append, ← origins, ← origins]

theorem get?_foldl_merge (n : String) : ∀ (ps : List Parameter) (s : Site),
    (ps.foldl (fun s p => s.merge (Parameter.site p)) s).deterministic.get? n
      = (Origin.definition? n (Parameter.origins (ps.flatMap Parameter.parts))).or
        (s.deterministic.get? n)
  | [], _ => rfl
  | p :: ps, s => by
    rw [List.foldl_cons, get?_foldl_merge n ps, Site.merge, OrderedMap.get?_merge,
      Parameter.get?_site, List.flatMap_cons, Parameter.origins_append, Origin.definition?_append,
      Option.or_assoc]

theorem get?_site (n : String) : ∀ m : Model V,
    (site m).deterministic.get? n = Origin.definition? n m.origins
  | .leaf l => by
    rw [site, get?_foldl_merge, origins_leaf]
    exact Option.or_none
  | .op id o r lh rh => by
    rw [site, Site.merge, OrderedMap.get?_merge, get?_site n lh, get?_site n rh, origins_op,
      Origin.definition?_append]

end Model

namespace Node

variable {V : Type}

/-- Every parameter that is or is below a node. -/
def parameterParts : Node V → List Parameter
  | parameter p => p.parts
  | model m => m.parameterParts

def origins (n : Node V) : List Origin := Parameter.origins n.parameterParts

/-- The leaves of the parameters that are or are below a node. -/
def parameterLeaves : Node V → List (Leaf ParameterData)
  | parameter p => p.leaves
  | model m => m.leaves.flatMap fun l => l.data.parameters.values.flatMap Expr.leaves

theorem mem_parameterLeaves : ∀ {n : Node V} {p : Parameter}, p ∈ n.parameterParts →
    ∀ l ∈ p.leaves, l ∈ n.parameterLeaves
  | parameter _, _, hp, l, hl => Parameter.leaves_subset hp l hl
  | model m, p, hp, l, hl => by
    simp only [parameterParts, Model.parameterParts, parameterLeaves, List.mem_flatMap] at hp ⊢
    obtain ⟨component, hc, q, hq, hp⟩ := hp
    exact ⟨component, hc, q, hq, Parameter.leaves_subset hp l hl⟩

/-- The site of a node keeps the last definition of a name. -/
theorem get?_site (x : String) : ∀ n : Node V,
    (site n).deterministic.get? x = Origin.definition? x n.origins
  | parameter p => Parameter.get?_site x p
  | model m => Model.get?_site x m

variable {n : Node V} {p q : Parameter}

theorem name_eq_iff (h : Legible n.parameterLeaves) (hp : p ∈ n.parameterParts)
    (hq : q ∈ n.parameterParts) : p.name = q.name ↔ p.flat = q.flat :=
  Expr.name_eq_iff h (mem_parameterLeaves hp) (mem_parameterLeaves hq)

variable {id id' : NodeId} {o o' : Operator} {r r' : Unit} {lh rh lh' rh' : Parameter}

theorem operator_eq_of_flat
    (h : (Expr.op id o r lh rh).flat = (Expr.op id' o' r' lh' rh').flat) : o = o' :=
  (Flat.chain.inj h).1

/-- What a site has under the name of a composite is the definition of a grouping of its chain or of
a derived quantity. -/
theorem definition_cases {d : DeterministicSite} (h : Legible n.parameterLeaves)
    (hq : .op id o r lh rh ∈ n.parameterParts)
    (hd : (site n).deterministic.get? (Expr.op id o r lh rh).name = some d) :
    (∃ id' r' lh' rh', .op id' o r' lh' rh' ∈ n.parameterParts ∧
      (Expr.op id' o r' lh' rh').flat = (Expr.op id o r lh rh).flat ∧
      (Origin.composite (Expr.op id o r lh rh).name o lh'.name rh'.name).IsLast n.origins ∧
      d = ⟨[lh'.name, rh'.name], o.combinator⟩) ∨
    ∃ l f, (Origin.derived l f).IsLast n.origins ∧
      f.siteName l.taggedName = (Expr.op id o r lh rh).name ∧ d = ⟨[l.taggedName], f.combine⟩ := by
  rw [get?_site] at hd
  obtain ⟨a, ha, hn, hd⟩ := Origin.exists_isLast hd
  rcases a with l | ⟨l, f⟩ | ⟨name, o', lhName, rhName⟩
  · cases hd
  · exact .inr ⟨l, f, ha, hn, (Option.some.inj hd).symm⟩
  · obtain ⟨id', r', lh', rh', hq', rfl, rfl, rfl⟩ := Parameter.composite_mem_origins.1 ha.mem
    have hf := (name_eq_iff h hq' hq).1 hn
    cases operator_eq_of_flat hf
    refine .inl ⟨id', r', lh', rh', hq', hf, ?_, (Option.some.inj hd).symm⟩
    rwa [← hn]

/-- Below a node, parts have the name of a composite exactly if they group its chain. The entry of
the composite is that of some grouping of the chain, or of a derived quantity that takes the name,
and its own exactly if a definition like its own is the last one of the name. -/
theorem composite_definition (n : Node V) (h : Legible n.parameterLeaves) (id : NodeId)
    (o : Operator) (r : Unit) (lh rh : Parameter) (hq : .op id o r lh rh ∈ n.parameterParts) :
    (∀ p ∈ n.parameterParts,
      p.name = (Expr.op id o r lh rh).name ↔ p.flat = (Expr.op id o r lh rh).flat) ∧
    ((site n).deterministic.get? (Expr.op id o r lh rh).name
        = some ⟨[lh.name, rh.name], o.combinator⟩ ↔
      (Origin.composite (Expr.op id o r lh rh).name o lh.name rh.name).IsLast n.origins) ∧
    ((∃ id' r' lh' rh', .op id' o r' lh' rh' ∈ n.parameterParts ∧
        (Expr.op id' o r' lh' rh').flat = (Expr.op id o r lh rh).flat ∧
        (site n).deterministic.get? (Expr.op id o r lh rh).name
          = some ⟨[lh'.name, rh'.name], o.combinator⟩) ∨
      ∃ l f, .derived l f ∈ n.origins ∧ f.siteName l.taggedName = (Expr.op id o r lh rh).name ∧
        (site n).deterministic.get? (Expr.op id o r lh rh).name
          = some ⟨[l.taggedName], f.combine⟩) := by
  refine ⟨fun p hp => name_eq_iff h hp hq, ⟨fun hd => ?_, fun hlast => ?_⟩, ?_⟩
  · rcases definition_cases h hq hd with ⟨id', r', lh', rh', -, -, hlast, he⟩ | ⟨l, f, -, -, he⟩
    · obtain ⟨hdeps, -⟩ := DeterministicSite.mk.inj he
      simp only [List.cons.injEq, and_true] at hdeps
      rwa [hdeps.1, hdeps.2]
    · obtain ⟨hdeps, -⟩ := DeterministicSite.mk.inj he
      simp at hdeps
  · rw [get?_site]
    exact hlast.definition? rfl
  · have hmem : (Origin.composite (Expr.op id o r lh rh).name o lh.name rh.name) ∈ n.origins :=
      Parameter.composite_mem_origins.2 ⟨id, r, lh, rh, hq, rfl, rfl, rfl⟩
    rcases hd : (site n).deterministic.get? (Expr.op id o r lh rh).name with _ | d
    · rw [get?_site] at hd
      cases Origin.definition?_eq_none_iff.1 hd _ hmem rfl
    · rcases definition_cases h hq hd with ⟨id', r', lh', rh', hq', hf, -, he⟩ | ⟨l, f, ha, hn, he⟩
      · exact .inl ⟨id', r', lh', rh', hq', hf, congrArg some he⟩
      · exact .inr ⟨l, f, ha.mem, hn, congrArg some he⟩

namespace Regrouped

def leaf (i : Nat) (name : String) (value : Float) : Parameter :=
  .leaf ⟨.fresh i, name, name, ∅, ⟨value, .fixed value, none⟩⟩

def a : Parameter := leaf 0 "a" 1e16

def b : Parameter := leaf 1 "b" (-1e16)

def c : Parameter := leaf 2 "c" 1

def ab : Parameter := .op (.fresh 3) .add () a b

def bc : Parameter := .op (.fresh 4) .add () b c

def left : Parameter := .op (.fresh 5) .add () ab c

def right : Parameter := .op (.fresh 6) .add () a bc

def product : Parameter := .op (.fresh 7) .mul () left right

def node : Node Float := .parameter product

def nameOf (id : NodeId) : String :=
  if id = .fresh 0 then "a" else if id = .fresh 1 then "b" else "c"

theorem legible : Legible node.parameterLeaves where
  same_name := by
    have hname : ∀ l ∈ node.parameterLeaves, l.name = nameOf l.id := by decide
    intro l hl l' hl' hid
    rw [hname l hl, hname l' hl', hid]
  no_id := by
    have hlen : ∀ l ∈ node.parameterLeaves, l.name.toList.length = 1 := by decide
    intro l hl l' _ hi
    have hle := hi.length_le
    rw [NodeId.length_hex, hlen l hl] at hle
    exact absurd hle (by decide)

theorem mem_left : left ∈ node.parameterParts := Parameter.lh_mem_parts _ _ _ _ _

theorem mem_right : right ∈ node.parameterParts := Parameter.rh_mem_parts _ _ _ _ _

theorem isLast_right : (Origin.composite right.name .add a.name bc.name).IsLast node.origins := by
  refine ⟨Parameter.origins (left.parts ++ a.parts ++ bc.parts),
    [.composite product.name .mul left.name right.name], rfl, fun x hx hn => ?_⟩
  obtain rfl := List.mem_singleton.1 hx
  have hf := (name_eq_iff legible (Parameter.self_mem_parts product) mem_right).1 hn
  exact absurd (operator_eq_of_flat hf) (by decide)

end Regrouped

open Regrouped in
/-- The grouping that is met first is lost: its name is defined by the other one. -/
theorem composite_definition_regrouped :
    Legible node.parameterLeaves ∧ left ∈ node.parameterParts ∧ left.name = right.name ∧
      (site node).deterministic.get? left.name
        = some ⟨[a.name, bc.name], Operator.add.combinator⟩ ∧
      (site node).deterministic.get? left.name
        ≠ some ⟨[ab.name, c.name], Operator.add.combinator⟩ := by
  obtain ⟨hname, hown, -⟩ :=
    composite_definition node legible (.fresh 6) .add () a bc mem_right
  have hlr : left.name = right.name := (hname left mem_left).2 rfl
  have hright := hown.2 isLast_right
  refine ⟨legible, mem_left, hlr, hlr ▸ hright, fun h => ?_⟩
  rw [hlr] at h
  have hdeps := (DeterministicSite.mk.inj (Option.some.inj (hright.symm.trans h))).1
  -- a part of a sum has a shorter name than the sum
  have hlt := (Parameter.length_operand_lt (.fresh 3) .add () a b).1
  rw [(List.cons.inj hdeps).1] at hlt
  exact Nat.lt_irrefl _ hlt

end Node

end SpectralAlgebra
