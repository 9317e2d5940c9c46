import SpectralAlgebra.Proofs.Acyclicity
import SpectralAlgebra.Proofs.Numbering
import SpectralAlgebra.Proofs.Reconstruction

/-!
# Sites are complete and closed

The sample sites of a node are the leaves of its parameters, each once and where it is first met,
with their priors. Its deterministic sites are those of the composites and the derived quantities,
and all that they depend on are sites again, whichever of several definitions of a name is kept
(`Node.site_complete`).

So when a compiled model's site is replayed, nothing can be missing but a value for a sample site:
the samples are gone through in the order of the map, and the first one that has neither a value nor
a constant is what the failure names.
-/

namespace SpectralAlgebra

/-! ## Leaves by identity -/

section Identity

variable {D : Type} {ls : List (Leaf D)} {l l' : Leaf D}

/-- Each identity is that of one leaf. -/
def Identified (ls : List (Leaf D)) : Prop := ∀ l ∈ ls, ∀ l' ∈ ls, l.id = l'.id → l = l'

theorem Identified.taggedName_inj (h : Identified ls) (hl : l ∈ ls) (hl' : l' ∈ ls)
    (hn : l.taggedName = l'.taggedName) : l = l' :=
  h l hl l' hl' (tag_inj.1 hn).2

/-- The leaves without repeats, each where its identity is first met. -/
def firstMet : List (Leaf D) → List (Leaf D)
  | [] => []
  | l :: ls => l :: (firstMet ls).filter fun l' => l'.id ≠ l.id

theorem firstMet_sublist : ∀ ls : List (Leaf D), (firstMet ls).Sublist ls
  | [] => .slnil
  | l :: ls => (List.filter_sublist.trans (firstMet_sublist ls)).cons_cons l

theorem map_firstMet {β : Type} [BEq β] [LawfulBEq β] {f : Leaf D → β} :
    ∀ {ls : List (Leaf D)}, (∀ l ∈ ls, ∀ l' ∈ ls, f l = f l' ↔ l.id = l'.id) →
      (firstMet ls).map f = (ls.map f).eraseDups
  | [], _ => rfl
  | l :: ls, h => by
    have ih : (firstMet ls).map f = (ls.map f).eraseDups := map_firstMet fun a ha b hb =>
      h a (List.mem_cons_of_mem _ ha) b (List.mem_cons_of_mem _ hb)
    rw [firstMet, List.map_cons, List.map_cons, List.eraseDups_cons, filter_eraseDups, ← ih,
      List.filter_map]
    refine congrArg (fun r => f l :: r.map f) (List.filter_congr fun a ha => ?_)
    have hiff := h a (List.mem_cons_of_mem _ ((firstMet_sublist ls).mem ha)) l List.mem_cons_self
    simp only [Function.comp_apply, decide_not, Bool.not_eq_eq_eq_not, Bool.not_not]
    rw [Bool.eq_iff_iff, decide_eq_true_iff, beq_iff_eq, hiff]

end Identity

/-! ## Sample sites -/

theorem Parameter.keys_sample : ∀ p : Parameter,
    (site p).sample.keys = (p.leaves.map Leaf.taggedName).eraseDups
  | .leaf _ => rfl
  | .op _ _ _ lh rh => by
    rw [Expr.leaves, List.map_append]
    exact OrderedMap.keys_merge (keys_sample lh) (keys_sample rh)

theorem Parameter.leaf_mem_parts {l : Leaf ParameterData} :
    ∀ {p : Parameter}, .leaf l ∈ p.parts ↔ l ∈ p.leaves
  | .leaf l' => by simp [parts, Expr.leaves]
  | .op _ _ _ lh rh => by
    simp [parts, Expr.leaves, leaf_mem_parts (p := lh), leaf_mem_parts (p := rh)]

namespace Model

variable {V : Type}

theorem keys_sample_foldl : ∀ (ps : List Parameter) {s : Site} {ls : List (Leaf ParameterData)},
    s.sample.keys = (ls.map Leaf.taggedName).eraseDups →
      (ps.foldl (fun s p => s.merge (Parameter.site p)) s).sample.keys
        = ((ls ++ ps.flatMap Expr.leaves).map Leaf.taggedName).eraseDups
  | [], s, ls, h => by rw [List.flatMap_nil, List.append_nil]; exact h
  | p :: ps, s, ls, h => by
    have hs : (s.merge (Parameter.site p)).sample.keys
        = ((ls ++ p.leaves).map Leaf.taggedName).eraseDups := by
      rw [List.map_append]
      exact OrderedMap.keys_merge h (Parameter.keys_sample p)
    rw [List.foldl_cons, keys_sample_foldl ps hs, List.flatMap_cons, List.append_assoc]

theorem keys_sample : ∀ m : Model V, (site m).sample.keys
    = ((Node.model m).parameterLeaves.map Leaf.taggedName).eraseDups
  | .leaf l => by
    have hempty : (∅ : Site).sample.keys
        = (([] : List (Leaf ParameterData)).map Leaf.taggedName).eraseDups := rfl
    have h := keys_sample_foldl l.data.parameters.values hempty
    simpa [site, Node.parameterLeaves, Expr.leaves] using h
  | .op id o r x y => by
    have hp : Node.parameterLeaves (.model (.op id o r x y))
        = Node.parameterLeaves (.model x) ++ Node.parameterLeaves (.model y) :=
      List.flatMap_append
    rw [hp, List.map_append]
    exact OrderedMap.keys_merge (keys_sample x) (keys_sample y)

end Model

namespace Node

variable {V : Type} {n : Node V}

theorem keys_sample : ∀ n : Node V,
    (site n).sample.keys = (n.parameterLeaves.map Leaf.taggedName).eraseDups
  | parameter p => Parameter.keys_sample p
  | model m => Model.keys_sample m

theorem leaf_mem_parameterParts {l : Leaf ParameterData} :
    ∀ {n : Node V}, .leaf l ∈ n.parameterParts ↔ l ∈ n.parameterLeaves
  | parameter _ => Parameter.leaf_mem_parts
  | model m => by
    simp only [parameterParts, Model.parameterParts, parameterLeaves, List.mem_flatMap,
      Parameter.leaf_mem_parts]

theorem operands_mem_parameterParts {id : NodeId} {o : Operator} {r : Unit} {lh rh : Parameter} :
    ∀ {n : Node V}, .op id o r lh rh ∈ n.parameterParts →
      lh ∈ n.parameterParts ∧ rh ∈ n.parameterParts
  | parameter _, h =>
    ⟨Parameter.parts_trans h (Parameter.lh_mem_parts ..),
      Parameter.parts_trans h (Parameter.rh_mem_parts ..)⟩
  | model _, h => Model.operands_mem_parameterParts h

theorem get?_sample (h : Identified n.parameterLeaves) {l : Leaf ParameterData}
    (hl : l ∈ n.parameterLeaves) : (site n).sample.get? l.taggedName = some l.data.prior := by
  have hleaf : .leaf l ∈ n.origins :=
    Parameter.leaf_mem_origins.2 (leaf_mem_parameterParts.2 hl)
  obtain ⟨prior, hprior⟩ := OrderedMap.exists_get?_iff.2 (n.site_covers.leaf_mem l hleaf)
  obtain ⟨l', hl', hname, rfl⟩ := n.site_covers.sample _ _ hprior
  have hl' := leaf_mem_parameterParts.1 (Parameter.leaf_mem_origins.1 hl')
  rw [hprior, h.taggedName_inj hl' hl hname]

theorem entries_sample (h : Identified n.parameterLeaves) : (site n).sample.entries
    = (firstMet n.parameterLeaves).map fun l => (l.taggedName, l.data.prior) := by
  have hname : ∀ l ∈ n.parameterLeaves, ∀ l' ∈ n.parameterLeaves,
      l.taggedName = l'.taggedName ↔ l.id = l'.id := fun l hl l' hl' =>
    ⟨fun hn => (tag_inj.1 hn).2, fun hid => congrArg Leaf.taggedName (h l hl l' hl' hid)⟩
  refine OrderedMap.entries_eq_map (n.keys_sample.trans (map_firstMet hname).symm) fun l hl => ?_
  exact get?_sample h ((firstMet_sublist _).mem hl)

/-! ## Deterministic sites -/

theorem mem_keys_deterministic {x : String} : x ∈ (site n).deterministic.keys ↔
    (∃ id o r lh rh, .op id o r lh rh ∈ n.parameterParts ∧ (Expr.op id o r lh rh).name = x) ∨
      ∃ l ∈ n.parameterLeaves, ∃ d, l.data.derived = some d ∧ d.siteName l.taggedName = x := by
  constructor
  · intro hx
    obtain ⟨e, he⟩ := OrderedMap.exists_get?_iff.2 hx
    obtain ⟨q, hq, rfl, hqe⟩ := n.site_covers.deterministic x e he
    rcases q with l | ⟨l, d⟩ | ⟨name, o, lhName, rhName⟩
    · cases hqe
    · obtain ⟨hl, hd⟩ := Parameter.derived_mem_origins.1 hq
      exact .inr ⟨l, leaf_mem_parameterParts.1 hl, d, hd, rfl⟩
    · obtain ⟨id, r, lh, rh, hp, rfl, -, -⟩ := Parameter.composite_mem_origins.1 hq
      exact .inl ⟨id, o, r, lh, rh, hp, rfl⟩
  · rintro (⟨id, o, r, lh, rh, hp, rfl⟩ | ⟨l, hl, d, hd, rfl⟩)
    · exact n.site_covers.other_mem (.composite _ o lh.name rh.name)
        (Parameter.composite_mem_origins.2 ⟨id, r, lh, rh, hp, rfl, rfl, rfl⟩) rfl
    · exact n.site_covers.other_mem (.derived l d)
        (Parameter.derived_mem_origins.2 ⟨leaf_mem_parameterParts.2 hl, hd⟩) rfl

theorem dependency_mem_site {x y : String} {d : DeterministicSite}
    (hx : (site n).deterministic.get? x = some d) (hy : y ∈ d.dependencies) :
    y ∈ (site n).sample.keys ∨ y ∈ (site n).deterministic.keys :=
  n.site_covers.dependency_mem operands_mem_parameterParts hx hy

end Node

/-! ## What can be missing -/

namespace Site

variable {samples : Values}

/-- A sample site that has neither a constant nor a value given. -/
def unset (samples : Values) (e : String × Prior) : Bool :=
  e.2.fixedValue?.isNone && !samples.contains e.1

/-- The first sample site that is unset. -/
def missing? (s : Site) (samples : Values) : Option String :=
  (s.sample.entries.find? (unset samples)).map Prod.fst

theorem sampleValue_of_unset {e : String × Prior} (h : unset samples e = true) :
    sampleValue samples e.1 e.2 = .error (.missingValue e.1) := by
  simp only [unset, OrderedMap.contains, Bool.and_eq_true, Option.isNone_iff_eq_none,
    Bool.not_eq_true', Option.isSome_eq_false_iff] at h
  rw [sampleValue, h.2]
  simp only [h.1]

theorem exists_sampleValue {e : String × Prior} (h : unset samples e = false) :
    ∃ x, samples.get? e.1 = some x ∨ samples.get? e.1 = none ∧ e.2.fixedValue? = some x := by
  rcases hs : samples.get? e.1 with _ | x
  · rcases hf : e.2.fixedValue? with _ | x
    · simp [unset, OrderedMap.contains, hs, hf] at h
    · exact ⟨x, .inr ⟨rfl, rfl⟩⟩
  · exact ⟨x, .inl rfl⟩

theorem replaySamples_eq_error {name : String} :
    ∀ {entries : List (String × Prior)} {values : Values},
      (entries.find? (unset samples)).map Prod.fst = some name →
        replaySamples samples entries values = .error (.missingValue name)
  | [], _, h => by cases h
  | e :: rest, values, h => by
    rw [replaySamples]
    rcases hu : unset samples e with _ | _
    · rw [List.find?_cons_of_neg (by simp [hu])] at h
      obtain ⟨x, hx⟩ := exists_sampleValue hu
      rw [sampleValue_eq_ok hx]
      exact replaySamples_eq_error h
    · rw [List.find?_cons_of_pos hu] at h
      obtain rfl := Option.some.inj h
      rw [sampleValue_of_unset hu]
      rfl

theorem missing?_eq_none_iff {s : Site} : s.missing? samples = none ↔
    ∀ e ∈ s.sample.entries, e.2.fixedValue? = none → e.1 ∈ samples.keys := by
  simp only [missing?, Option.map_eq_none_iff, List.find?_eq_none, unset, Bool.and_eq_true,
    Option.isNone_iff_eq_none, Bool.not_eq_true', not_and, Bool.not_eq_false,
    OrderedMap.contains_iff]

/-- What is given and the constants make up an assignment, if no sample site is unset. -/
theorem exists_assigns {s : Site} (h : s.missing? samples = none) :
    ∃ σ, s.Assigns samples σ := by
  have hx : ∀ e ∈ s.sample.entries, ∃ x,
      samples.get? e.1 = some x ∨ samples.get? e.1 = none ∧ e.2.fixedValue? = some x := by
    intro e he
    refine exists_sampleValue (Bool.eq_false_iff.2 ?_)
    exact List.find?_eq_none.1 (Option.map_eq_none_iff.1 h) e he
  refine ⟨fun n => ((samples.get? n).or ((s.sample.get? n).bind Prior.fixedValue?)).getD 0,
    fun n prior hn => ?_⟩
  obtain ⟨x, hx | ⟨hx, hf⟩⟩ := hx _ (OrderedMap.get?_eq_some_iff.1 hn)
  · exact .inl (by simp [hx])
  · exact .inr ⟨hx, by simp [hx, hn, hf]⟩

end Site

/-- What a model's site depends on is in it, so samples and an order are all that a replay needs. -/
theorem Model.exists_replay {V : Type} {m : Model V} {samples : Site.Values}
    (ha : ∀ x, ¬ Relation.TransGen (site m).DependsOn x x)
    (h : (site m).missing? samples = none) :
    ∃ values, (site m).replay samples = .ok values := by
  obtain ⟨σ, hσ⟩ := Site.exists_assigns h
  obtain ⟨values, hr, -⟩ := Site.replay_eq_ok (P := fun _ _ => True) hσ dependency_mem_site ha
    (fun _ _ => trivial) fun _ _ _ _ _ => trivial
  exact ⟨values, hr⟩

namespace CompiledModel

variable {V : Type} {c : CompiledModel V} {samples : Site.Values}

theorem paramValues_eq_error (edits : Edits) {name : String}
    (h : c.site.missing? samples = some name) :
    c.paramValues edits samples = .error (.missingValue name) := by
  rw [paramValues, Site.replay, Site.replaySamples_eq_error h]
  rfl

theorem exists_paramValues (edits : Edits) (hn : (Node.model c.model).Constructible)
    (hb : ∀ l d, .derived l d ∈ (Node.model c.model).origins → ¬ d.Bare)
    (h : c.site.missing? samples = none) : ∃ params, c.paramValues edits samples = .ok params := by
  obtain ⟨values, hr⟩ := Model.exists_replay (Node.acyclic_site hn hb) h
  exact ⟨_, paramValues_eq_valuesWith edits hr⟩

end CompiledModel

/-- The sample sites of a node are its parameter leaves, each once and in the order they are first
met, with their priors; its deterministic sites are those of its composites and of the derived
quantities; and all dependencies are sites. So if no template below a model is bare, the parameter
values of a compiled model are found exactly if every sample site without a constant has its value
given, and else the first one that has not is missing. -/
theorem Node.site_complete (V : Type) :
    (∀ n : Node V,
      (Identified n.parameterLeaves → (site n).sample.entries
        = (firstMet n.parameterLeaves).map fun l => (l.taggedName, l.data.prior)) ∧
      (∀ x, x ∈ (site n).deterministic.keys ↔
        (∃ id o r lh rh, .op id o r lh rh ∈ n.parameterParts ∧ (Expr.op id o r lh rh).name = x) ∨
          ∃ l ∈ n.parameterLeaves, ∃ d, l.data.derived = some d ∧ d.siteName l.taggedName = x) ∧
      ∀ x d, (site n).deterministic.get? x = some d → ∀ y ∈ d.dependencies,
        y ∈ (site n).sample.keys ∨ y ∈ (site n).deterministic.keys) ∧
    ∀ (c : CompiledModel V) (edits : Edits) (samples : Site.Values),
      (Node.model c.model).Constructible →
      (∀ l d, .derived l d ∈ (Node.model c.model).origins → ¬ d.Bare) →
        ((∃ params, c.paramValues edits samples = .ok params) ↔
          ∀ e ∈ c.site.sample.entries, e.2.fixedValue? = none → e.1 ∈ samples.keys) ∧
        ∀ e, c.paramValues edits samples = .error e ↔
          ∃ name, c.site.missing? samples = some name ∧ e = .missingValue name := by
  refine ⟨fun n => ⟨entries_sample, fun x => mem_keys_deterministic,
    fun x d hx y => dependency_mem_site hx⟩, fun c edits samples hn hb => ?_⟩
  rw [← Site.missing?_eq_none_iff]
  rcases hm : c.site.missing? samples with _ | name
  · obtain ⟨params, hp⟩ := CompiledModel.exists_paramValues edits hn hb hm
    exact ⟨⟨fun _ => rfl, fun _ => ⟨params, hp⟩⟩, fun e => by simp [hp]⟩
  · have he := CompiledModel.paramValues_eq_error edits hm
    exact ⟨by simp [he], fun e => by simp [he, eq_comm]⟩

namespace Node

namespace Listed

def doubled : Derived := ⟨"twice \x7bname\x7d", fun xs => 2 * xs.headD 0⟩

def offset : Leaf ParameterData := ⟨.fresh 0, "f", "f", ∅, ⟨3, .fixed 3, none⟩⟩

def norm : Leaf ParameterData :=
  ⟨.fresh 1, "K", "K", ∅, ⟨2, .distribution (.uniform 0 10), some doubled⟩⟩

def slope : Leaf ParameterData := ⟨.fresh 2, "a", "a", ∅, ⟨1, .distribution (.uniform 0 10), none⟩⟩

def sum : Parameter := .op (.fresh 3) .add () (.leaf offset) (.leaf norm)

def declared : OrderedMap String Parameter :=
  ⟨[("norm", sum), ("slope", .leaf slope), ("scale", .leaf norm)], by decide⟩

def line : Model Float :=
  .leaf ⟨.fresh 4, "Line", "L", ∅, .additive, declared, .additive fun _ grid _ => grid.tail⟩

theorem accepted : doubled.Accepted :=
  Derived.accepted_iff.2 ⟨"twice ", "", by decide, by decide, by decide⟩

theorem derived_eq :
    ∀ l ∈ [offset, norm, slope, norm], ∀ d, l.data.derived = some d → d = doubled := by
  simp [offset, norm, slope, eq_comm]

theorem constructible_leaf {l : Leaf ParameterData} (hl : l ∈ [offset, norm, slope, norm]) :
    Parameter.Constructible (.leaf l) := by
  have ha : ∀ l ∈ [offset, norm, slope, norm], l.data.prior.Admits l.data.default := by
    decide +kernel
  have hu : ∀ l ∈ [offset, norm, slope, norm], Unreserved l.attributes := by decide
  exact .make (fun d h => derived_eq l hl d h ▸ accepted)
    (Parameter.make_eq_ok_iff.2 ⟨ha l hl, hu l hl, rfl⟩)

theorem made : Model.make (.fresh 4) "Line" "L" .additive declared.entries
    (.additive fun _ grid _ => grid.tail) ∅ = .ok line :=
  Model.make_eq_ok_iff.2 ⟨rfl, by decide, declared.nodup_keys, rfl⟩

theorem constructible : (Node.model line).Constructible := by
  have hoffset := constructible_leaf (l := offset) (by simp)
  have hnorm := constructible_leaf (l := norm) (by simp)
  have hslope := constructible_leaf (l := slope) (by simp)
  refine ⟨.make made, fun l hl p hp => ?_⟩
  obtain rfl := List.mem_singleton.1 hl
  have hp : p ∈ [sum, .leaf slope, .leaf norm] := hp
  simp only [List.mem_cons, List.not_mem_nil, or_false] at hp
  rcases hp with rfl | rfl | rfl
  · exact .combine hoffset hnorm
  · exact hslope
  · exact hnorm

theorem identified : Identified (Node.model line).parameterLeaves := by
  have hleaves : ∀ l ∈ (Node.model line).parameterLeaves,
      l = if l.id = .fresh 0 then offset else if l.id = .fresh 1 then norm else slope := by
    change ∀ l ∈ [offset, norm, slope, norm], _
    simp only [List.forall_mem_cons, List.not_mem_nil, false_implies, implies_true, and_true]
    exact ⟨rfl, rfl, rfl, rfl⟩
  intro l hl l' hl' h
  rw [hleaves l hl, hleaves l' hl', h]

theorem covers : ∀ l ∈ line.leaves,
    l.taggedName ∈ ((LabelSpace.make ∅ (.model line)).mapping ∅ .name).keys := by
  decide +kernel

theorem not_bare : ∀ l d, .derived l d ∈ (Node.model line).origins → ¬ d.Bare := by
  intro l d h
  obtain ⟨hl, hd⟩ := Parameter.derived_mem_origins.1 h
  have hl : l ∈ [offset, norm, slope, norm] := leaf_mem_parameterParts.1 hl
  obtain rfl := derived_eq l hl d hd
  exact ne_of_beq_false rfl

end Listed

open Listed in
/-- The constant may be left out, and of the other two the one met first is missing. -/
theorem site_complete_listed : Identified (Node.model line).parameterLeaves ∧
    (Node.model line).Constructible ∧
    (∀ l d, .derived l d ∈ (Node.model line).origins → ¬ d.Bare) ∧
    (site (.model line)).sample.entries
      = [offset, norm, slope].map (fun l => (l.taggedName, l.data.prior)) ∧
    ∃ c, CompiledModel.make ∅ line {} = .ok c ∧
      c.paramValues ∅ (.singleton slope.taggedName 1)
        = .error (.missingValue norm.taggedName) := by
  obtain ⟨hsite, hvalues⟩ := site_complete Float
  have hmissing : (Model.site line).missing? (.singleton slope.taggedName 1)
      = some norm.taggedName := by decide +kernel
  have hentries := (hsite (.model line)).1 identified
  obtain ⟨ev, hev⟩ := Model.exists_compile {} covers
  let c : CompiledModel Float := ⟨line, .make ∅ (.model line), ev, {}⟩
  exact ⟨identified, constructible, not_bare, hentries, c,
    CompiledModel.make_eq_ok.2 ⟨ev, hev, rfl⟩,
    ((hvalues c ∅ _ constructible not_bare).2 _).2 ⟨_, hmissing, rfl⟩⟩

end Node

end SpectralAlgebra
