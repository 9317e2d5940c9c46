import SpectralAlgebra.Proofs.Exact

/-!
# What the name of a model says

Models of one name have the same leaves and the same flat form. What they compute also depends on
what their convolutions reach, and a name does not show that of a product with an additive model in
it (`Model.name_alone_misleads`). It is all that is missing: under exact arithmetic, and as long as
norm convolutions pass on failures, models of one name may stand for each other if their leaves have
the same depths (`Model.name_means`).

No weaker condition would do. Let leaves count the convolutions that they stand under and let sums
and products put the counts one after the other, which is associative. Then the value of a model is
the list of its depths (`Model.eval_tallied`), so models that differ in depths differ in value.
-/

namespace SpectralAlgebra

variable {V : Type}

/-! ## Leaves that count -/

/-- Depths, put one after the other by sums and products. -/
structure Tally where
  depths : List Nat

namespace Tally

instance : Add Tally := ⟨fun a b => ⟨a.depths ++ b.depths⟩⟩

instance : Mul Tally := ⟨fun a b => ⟨a.depths ++ b.depths⟩⟩

instance : AddSemigroup Tally := ⟨fun _ _ _ => congrArg mk (List.append_assoc ..)⟩

instance : Semigroup Tally := ⟨fun _ _ _ => congrArg mk (List.append_assoc ..)⟩

/-- The tally of a convolution that has taken up another one. -/
def under (a : Tally) : Tally := ⟨0 :: a.depths.map (· + 1)⟩

def bins (grid : List Tally) (a : Tally) : List Tally := grid.tail.map fun _ => a

def generator : ModelKind → Generator Tally
  | .additive => .additive fun _ grid _ => bins grid ⟨[0]⟩
  | .multiplicative => .multiplicative fun _ grid _ => bins grid ⟨[0]⟩
  | .convolution .flux => .fluxConvolution fun _ _ flux _ => flux.map under
  | .convolution .norm => .normConvolution fun _ _ _ flux _ => .ok (flux.map under)

def leaf (l : Leaf (ModelData V)) : Leaf (ModelData Tally) :=
  { l with data := ⟨l.data.kind, ∅, generator l.data.kind⟩ }

theorem kind_generator : ∀ k : ModelKind, (generator k).kind = k
  | .additive | .multiplicative | .convolution .flux | .convolution .norm => rfl

/-- The same value in all bins of the flux and the source. -/
def views (a : Tally) : Views Tally :=
  (fun grid => .bins (bins grid a), fun grid => .bins (bins grid a))

theorem bins_ne {a b : Tally} (h : a ≠ b) :
    ∀ {grid : List Tally}, 2 ≤ grid.length → bins grid a ≠ bins grid b
  | _ :: _ :: _, _, he => h (List.cons.inj he).1

theorem combine_bins (o : Operator) (grid : List Tally) (a b : Tally) :
    Readout.combine o (.bins (bins grid a)) (.bins (bins grid b))
      = .bins (bins grid (o.apply a b)) := by
  simp [Readout.combine, bins]

theorem map_bins (grid : List Tally) (a : Tally) : (bins grid a).map under = bins grid a.under :=
  List.map_map

theorem views_mul (a b : Tally) : a.views * b.views = (a * b).views :=
  Prod.ext (funext fun grid => combine_bins .mul grid a b)
    (funext fun grid => combine_bins .mul grid a b)

theorem views_add (a b : Tally) : a.views + b.views = (a + b).views :=
  Prod.ext (funext fun grid => combine_bins .add grid a b)
    (funext fun grid => combine_bins .add grid a b)

theorem checkBins_bins (check : Bool) (component : String) (grid : List Tally) (a : Tally) :
    checkBins check component grid (bins grid a) = .ok (bins grid a) := by
  simp [checkBins, bins, binCount]

variable (mapping : OrderedMap String String) (options : CompileOptions)
  (l : Leaf (ModelData V))

theorem values_leaf (h : l.data.kind.isConvolution = false) :
    (Model.leafEvaluator mapping options (leaf l)).values ∅ = views ⟨[0]⟩ := by
  have heval : ∀ grid, (Model.leafEvaluator mapping options (leaf l)).eval ∅ grid
      = .ok (bins grid ⟨[0]⟩) := by
    intro grid
    have hc := checkBins_bins options.checkShapes ((mapping.get? (leaf l).taggedName).getD "") grid
      ⟨[0]⟩
    rcases hk : l.data.kind with _ | _ | c
    · simp only [Evaluator.eval, Model.leafEvaluator, leafEvaluation, leaf, hk, generator]
      exact hc
    · simp only [Evaluator.eval, Model.leafEvaluator, leafEvaluation, leaf, hk, generator]
      exact hc
    · rw [hk] at h
      cases h
  simp only [Evaluator.values, Views.of, heval]
  rfl

theorem acts_leaf (h : l.data.kind.isConvolution) (a : Tally) :
    (Model.leafEvaluator mapping options (leaf l)).acts ∅ l.data.kind a.views
      = a.under.views := by
  have hact : ∀ S grid, Evaluator.action ∅ l.data.kind
      (Model.leafEvaluator mapping options (leaf l)) a.views.flux S grid
        = .ok (bins grid a.under) := by
    intro S grid
    have hc := checkBins_bins options.checkShapes ((mapping.get? (leaf l).taggedName).getD "") grid
      a.under
    rw [← map_bins] at hc ⊢
    rcases hk : l.data.kind with _ | _ | _ | _
    · rw [hk] at h
      cases h
    · rw [hk] at h
      cases h
    · simp only [Evaluator.action, Model.leafEvaluator, leafEvaluation, leaf, hk, generator]
      exact hc
    · simp only [Evaluator.action, Model.leafEvaluator, leafEvaluation, leaf, hk, generator]
      exact hc
  have hsource : a.views.source = a.views.flux := rfl
  rw [Evaluator.acts, hsource]
  simp only [Views.of, hact]
  rfl

end Tally

namespace Model

variable {m n x y : Model V}

theorem kind_mapLeaves {W : Type} {f : Leaf (ModelData V) → Leaf (ModelData W)}
    (hf : ∀ l, (f l).data.kind = l.data.kind) : ∀ m : Model V, kind (m.mapLeaves f) = m.kind
  | .leaf l => hf l
  | .op .. => rfl

/-- The same model with leaves that count. -/
def tallied (m : Model V) : Model Tally := m.mapLeaves Tally.leaf

theorem kind_tallied (m : Model V) : m.tallied.kind = m.kind :=
  kind_mapLeaves (V := V) (f := Tally.leaf) (fun _ => rfl) m

theorem flat_tallied : ∀ m : Model V, m.tallied.flat = m.flat
  | .leaf _ => rfl
  | .op _ o _ x y => congrArg₂ (Flat.join o) (flat_tallied x) (flat_tallied y)

section Effects

variable (mapping : OrderedMap String String) (options : CompileOptions)

def tally : Leaf (ModelData Tally) → Option (Views Tally) → Views Tally :=
  leafEffect mapping options ∅

theorem tally_leaf (l : Leaf (ModelData V)) (h : l.data.kind.isConvolution = false)
    (a? : Option (Views Tally)) :
    tally mapping options (Tally.leaf l) a? = onto (· * ·) (Tally.views ⟨[0]⟩) a? := by
  have hk : (Tally.leaf l).data.kind.isConvolution = false := h
  simp [tally, leafEffect, hk, Tally.values_leaf mapping options l h]

theorem tally_convolution (l : Leaf (ModelData V)) (h : l.data.kind.isConvolution) (a : Tally) :
    tally mapping options (Tally.leaf l) (some a.views) = a.under.views := by
  have hk : (Tally.leaf l).data.kind.isConvolution = true := h
  simp only [tally, leafEffect, hk, if_true]
  exact Tally.acts_leaf mapping options l h a

theorem onto_views {v : Views Tally} {ds : List Nat} (h : v = Tally.views ⟨ds⟩) (a : Tally) :
    onto (· * ·) v (some a.views) = Tally.views ⟨ds ++ a.depths.map (· + 0)⟩ := by
  simp only [Nat.add_zero, List.map_id', h]
  exact Tally.views_mul _ _

/-- Counting leaves make the depths. -/
theorem effect_tallied : ∀ {m : Model V}, m.WellKinded →
    (m.kind.isConvolution = false →
      m.tallied.effect (tally mapping options) none = Tally.views ⟨m.depths⟩) ∧
    ∀ a : Tally, m.tallied.effect (tally mapping options) (some a.views)
      = Tally.views ⟨m.depths ++ a.depths.map (· + m.acting)⟩
  | .leaf l, hm => by
    by_cases hk : (kind (.leaf l)).isConvolution
    · rw [acting_leaf hk]
      exact ⟨fun h => absurd hk (by simp [h]), tally_convolution mapping options l hk⟩
    · rw [Bool.not_eq_true] at hk
      refine ⟨fun _ => tally_leaf mapping options l hk none, fun a => ?_⟩
      rw [acting_eq_zero hm hk]
      exact (tally_leaf mapping options l hk _).trans (onto_views rfl a)
  | .op id .add r x y, ⟨hx, hy, hr⟩ => by
    obtain ⟨hkx, hky⟩ := Resolution.infer_add_eq_ok_iff.1 ⟨r, hr⟩
    have hval : effect (tally mapping options) (tallied (.op id .add r x y)) none
        = Tally.views ⟨depths (.op id .add r x y)⟩ := by
      have ihx := (effect_tallied hx).1 (by rw [hkx]; rfl)
      have ihy := (effect_tallied hy).1 (by rw [hky]; rfl)
      simp only [depths, acting_of_additive hkx, Nat.add_zero, List.map_id']
      exact (congrArg₂ _ ihx ihy).trans (Tally.views_add _ _)
    refine ⟨fun _ => hval, fun a => ?_⟩
    rw [acting_sum hr]
    exact onto_views hval a
  | .op id .mul r x y, ⟨hx, hy, hr⟩ => by
    have ihx := effect_tallied hx
    have ihy := effect_tallied hy
    have hkx : kind (tallied x) = kind x := kind_tallied x
    have hky : kind (tallied y) = kind y := kind_tallied y
    by_cases hxy : (kind x).isConvolution ∧ kind y = .additive
    · have heffect : effect (tally mapping options) (tallied (.op id .mul r x y))
          = onto (· * ·) (Tally.views ⟨depths (.op id .mul r x y)⟩) := by
        change effect _ (.op id .mul r (tallied x) (tallied y)) = _
        rw [effect, hkx, hky, if_pos hxy, ihy.1 (by rw [hxy.2]; rfl), ihx.2]
        rfl
      rw [heffect, acting_applied hr hxy]
      exact ⟨fun _ => rfl, onto_views rfl⟩
    · have heffect : ∀ a?, effect (tally mapping options) (tallied (.op id .mul r x y)) a?
          = effect (tally mapping options) (tallied x)
            (some (effect (tally mapping options) (tallied y) a?)) := by
        intro a?
        change effect _ (.op id .mul r (tallied x) (tallied y)) a? = _
        rw [effect, hkx, hky, if_neg hxy]
      refine ⟨fun h => ?_, fun a => ?_⟩
      · rw [heffect, ihy.1 (Resolution.factors_of_infer hr h hxy).2, ihx.2]
        rfl
      · rw [heffect, ihy.2, ihx.2, acting_product hx hy hr hxy]
        simp only [depths, List.map_append, List.map_map, List.append_assoc, Function.comp_def,
          Nat.add_assoc, Nat.add_comm (acting x)]

end Effects

theorem constructible_tallied (h : m.Constructible) : m.tallied.Constructible := by
  induction h with
  | make h =>
    obtain ⟨hk, ha, hn, rfl⟩ := make_eq_ok_iff.1 h
    exact .leaf (Tally.kind_generator _) ha
  | @combine id o x y _ _ _ h ihx ihy =>
    obtain ⟨r, hr, rfl⟩ := combine_eq_ok h
    have hc : Model.combine id o x.tallied y.tallied = .ok (.op id o r x.tallied y.tallied) := by
      rw [Model.combine, kind_tallied, kind_tallied, hr]
    exact ihx.combine ihy hc

theorem passesOn_tallied (m : Model V) : m.tallied.PassesOn := by
  intro l hl make hg component grid flux own
  rw [tallied, Expr.leaves_mapLeaves, List.mem_map] at hl
  obtain ⟨l, -, rfl⟩ := hl
  have hg : Tally.generator l.data.kind = .normConvolution make := hg
  rcases hk : l.data.kind with _ | _ | _ | _ <;> rw [hk] at hg <;> cases hg
  exact .const _

/-- The value of an additive model with counting leaves is the depths of its leaves. -/
theorem eval_tallied {mapping : OrderedMap String String} {options : CompileOptions}
    {ev : Evaluator Tally} (hm : m.Constructible) (hk : m.kind = .additive)
    (h : compile mapping options m.tallied = .ok ev) (grid : List Tally) :
    ev.eval ∅ grid = .ok (Tally.bins grid ⟨m.depths⟩) := by
  have hc : m.kind.isConvolution = false := by rw [hk]; rfl
  have hden := compile_denotes ∅ (constructible_tallied hm).wellKinded (passesOn_tallied m) h
  rw [kind_tallied] at hden
  have hval : Views.of (ev.eval ∅) (ev.eval ∅) = Tally.views ⟨m.depths⟩ :=
    (hden.factor hc none).symm.trans ((effect_tallied mapping options hm.wellKinded).1 hc)
  exact Readout.eq_ok_of_ofOutcome (congrFun (congrArg Prod.fst hval) grid)

theorem exists_compile_tallied {mapping : OrderedMap String String} (options : CompileOptions)
    (h : ∀ l ∈ m.leaves, l.taggedName ∈ mapping.keys) :
    ∃ ev, compile mapping options m.tallied = .ok ev := by
  refine exists_compile options fun l hl => ?_
  rw [tallied, Expr.leaves_mapLeaves, List.mem_map] at hl
  obtain ⟨l, hl, rfl⟩ := hl
  exact h l hl

/-- With leaves that count, each of two additive models gives its own depths in every bin. -/
def ToldApart (mapping : OrderedMap String String) (options : CompileOptions) (m n : Model V) :
    Prop :=
  ∃ ev ev', compile mapping options m.tallied = .ok ev ∧
    compile mapping options n.tallied = .ok ev' ∧
    ∀ grid, ev.call ∅ grid none none = .ok (Tally.bins grid ⟨m.depths⟩) ∧
      ev'.call ∅ grid none none = .ok (Tally.bins grid ⟨n.depths⟩) ∧
      (2 ≤ grid.length → Tally.bins grid ⟨m.depths⟩ ≠ Tally.bins grid ⟨n.depths⟩)

theorem toldApart {mapping : OrderedMap String String} (options : CompileOptions)
    (hm : m.Constructible) (hn : n.Constructible) (hkm : m.kind = .additive)
    (hkn : n.kind = .additive) (hd : m.depths ≠ n.depths)
    (hmapped : ∀ l ∈ m.leaves, l.taggedName ∈ mapping.keys)
    (hmapped' : ∀ l ∈ n.leaves, l.taggedName ∈ mapping.keys) :
    ToldApart mapping options m n := by
  obtain ⟨ev, hev⟩ := exists_compile_tallied options hmapped
  obtain ⟨ev', hev'⟩ := exists_compile_tallied options hmapped'
  have hne : (⟨m.depths⟩ : Tally) ≠ ⟨n.depths⟩ := fun h => hd (Tally.mk.inj h)
  exact ⟨ev, ev', hev, hev', fun grid => ⟨eval_tallied hm hkm hev grid,
    eval_tallied hn hkn hev' grid, Tally.bins_ne hne⟩⟩

theorem ToldApart.not_interchangeable {mapping : OrderedMap String String}
    {options : CompileOptions} (h : ToldApart mapping options m n) :
    ¬ Interchangeable mapping options m.tallied n.tallied := by
  obtain ⟨ev, ev', hev, hev', hvalues⟩ := h
  rintro (⟨e, he, -⟩ | ⟨ev₁, ev₁', h₁, h₁', hagree⟩)
  · cases he.symm.trans hev
  · obtain rfl := Except.ok.inj (h₁.symm.trans hev)
    obtain rfl := Except.ok.inj (h₁'.symm.trans hev')
    let grid : List Tally := [⟨[]⟩, ⟨[]⟩]
    obtain ⟨hv, hv', hne⟩ := hvalues grid
    have heq := ((hagree ∅ grid none none _).1 hv).symm.trans hv'
    exact hne (Nat.le_refl 2) (Except.ok.inj heq)

/-! ## Namesakes -/

/-- Models that can be made and have one name, over leaves that have each an identity, and no
identity in their raw names. -/
structure Namesakes (m n : Model V) : Prop where
  left : m.Constructible
  right : n.Constructible
  identified : Identified (m.leaves ++ n.leaves)
  legible : Legible (m.leaves ++ n.leaves)
  name : m.name = n.name

namespace Namesakes

variable (h : Namesakes m n)
include h

theorem flat_eq : m.flat = n.flat :=
  (Expr.name_eq_iff h.legible (fun _ => List.mem_append_left _)
    fun _ => List.mem_append_right _).1 h.name

theorem leaves_eq : m.leaves = n.leaves :=
  leaves_eq_of_ids h.identified (fun _ => List.mem_append_left _)
    (fun _ => List.mem_append_right _) (Expr.ids_eq_of_flat h.flat_eq)

theorem kind_eq : m.kind = n.kind :=
  kind_congr h.left.wellKinded h.right.wellKinded h.leaves_eq

theorem tallied : Namesakes m.tallied n.tallied := by
  have hleaves : m.tallied.leaves ++ n.tallied.leaves = (m.leaves ++ n.leaves).map Tally.leaf := by
    rw [List.map_append]
    exact congrArg₂ _ (Expr.leaves_mapLeaves _ m) (Expr.leaves_mapLeaves _ n)
  have hlegible : Legible (m.tallied.leaves ++ n.tallied.leaves) := by
    rw [hleaves]
    constructor <;> simp only [List.forall_mem_map]
    · exact h.legible.same_name
    · exact h.legible.no_id
  refine ⟨constructible_tallied h.left, constructible_tallied h.right, ?_, hlegible, ?_⟩
  · rw [hleaves]
    simp only [Identified, List.forall_mem_map]
    exact fun l hl l' hl' hid => congrArg _ (h.identified l hl l' hl' hid)
  · have hflat : m.tallied.flat = n.tallied.flat := by
      rw [flat_tallied, flat_tallied, h.flat_eq]
    exact (Expr.name_eq_iff hlegible (fun _ => List.mem_append_left _)
      fun _ => List.mem_append_right _).2 hflat

end Namesakes

/-- Transforms of one name have their leaves at the same depths. Models of one name that have their
leaves at the same depths may stand for each other, where arithmetic is exact and norm convolutions
pass on failures. Models of one name that do not are told apart by leaves that count. -/
theorem name_means (V : Type) [AddSemigroup V] [Semigroup V] (m n : Model V) (h : Namesakes m n) :
    (m.kind ≠ .additive → m.depths = n.depths) ∧
    (m.depths = n.depths → m.PassesOn →
      ∀ mapping options, Interchangeable mapping options m n) ∧
    (m.depths ≠ n.depths → Namesakes m.tallied n.tallied ∧ m.tallied.PassesOn ∧
      ∀ mapping options, (∀ l ∈ m.leaves, l.taggedName ∈ mapping.keys) →
        ToldApart mapping options m n ∧
          ¬ Interchangeable mapping options m.tallied n.tallied) := by
  have hwm := h.left.wellKinded
  have hwn := h.right.wellKinded
  have htransform : m.kind ≠ .additive → m.depths = n.depths := fun hk => by
    rw [depths_of_transform hwm hk, depths_of_transform hwn (h.kind_eq ▸ hk), h.leaves_eq]
  refine ⟨htransform, fun hd hp mapping options => ?_, fun hd => ?_⟩
  · exact interchangeable_of_effect hwm hwn hp h.leaves_eq fun params =>
      effect_eq_of_depths leafEffect_multiplies h.identified hwm hwn
        (fun _ => List.mem_append_left _) (fun _ => List.mem_append_right _) h.flat_eq hd
  · have hk : m.kind = .additive := by
      by_contra hk
      exact hd (htransform hk)
    refine ⟨h.tallied, passesOn_tallied m, fun mapping options hmapped => ?_⟩
    have hapart : ToldApart mapping options m n :=
      toldApart options h.left h.right hk (h.kind_eq ▸ hk) hd hmapped (h.leaves_eq ▸ hmapped)
    exact ⟨hapart, hapart.not_interchangeable⟩

namespace Grouped

def shift : Leaf (ModelData Nat) := ⟨.fresh 0, "c", "c", ∅, .convolution .flux, ∅,
  .fluxConvolution fun _ _ flux _ => flux.map (· + 1)⟩

def base : Leaf (ModelData Nat) :=
  ⟨.fresh 1, "a", "a", ∅, .additive, ∅, .additive fun _ _ _ => [1]⟩

def factor : Leaf (ModelData Nat) :=
  ⟨.fresh 2, "m", "m", ∅, .multiplicative, ∅, .multiplicative fun _ _ _ => [2]⟩

/-- A norm convolution that looks at how its source fails on a grid without edges. -/
def look : Leaf (ModelData Nat) := ⟨.fresh 3, "n", "n", ∅, .convolution .norm, ∅,
  .normConvolution fun _ source _ flux _ =>
    match source [] with
    | .error (.degenerateGrid _) => .ok flux
    | _ => .ok (flux.map (· + 1))⟩

def leaves : List (Leaf (ModelData Nat)) := [shift, base, factor, look]

/-- The product, if it is legal. -/
def product (i : Nat) (x y : Model Nat) : Model Nat :=
  match combine (.fresh i) .mul x y with
  | .ok m => m
  | .error _ => x

def left (x y z : Leaf (ModelData Nat)) : Model Nat :=
  product 5 (product 4 (.leaf x) (.leaf y)) (.leaf z)

def right (x y z : Leaf (ModelData Nat)) : Model Nat :=
  product 7 (.leaf x) (product 6 (.leaf y) (.leaf z))

theorem constructible_product {x y : Model Nat} (i : Nat) (hx : x.Constructible)
    (hy : y.Constructible) : (product i x y).Constructible := by
  unfold product
  split
  · rename_i h
    exact hx.combine hy h
  · exact hx

theorem constructible_leaf {l : Leaf (ModelData Nat)} (hl : l ∈ leaves) :
    Constructible (.leaf l) := by
  have h : ∀ l ∈ leaves, l.data.generator.kind = l.data.kind ∧ Unreserved l.attributes := by
    decide
  exact .leaf (h l hl).1 (h l hl).2

def find (id : NodeId) : Leaf (ModelData Nat) :=
  if id = .fresh 0 then shift else if id = .fresh 1 then base
  else if id = .fresh 2 then factor else look

theorem identified : Identified leaves := by
  have h : ∀ l ∈ leaves, l = find l.id := by
    simp only [leaves, List.forall_mem_cons, List.not_mem_nil, false_implies, implies_true,
      and_true]
    exact ⟨rfl, rfl, rfl, rfl⟩
  intro l hl l' hl' hid
  rw [h l hl, h l' hl', hid]

theorem legible : Legible leaves where
  same_name := fun l hl l' hl' hid => congrArg Leaf.name (identified l hl l' hl' hid)
  no_id := by
    have hlen : ∀ l ∈ leaves, l.name.toList.length = 1 := by decide
    intro l hl l' _ hi
    have hle := hi.length_le
    rw [NodeId.length_hex, hlen l hl] at hle
    exact absurd hle (by decide)

theorem namesakes {x y z : Leaf (ModelData Nat)} (hx : x ∈ leaves) (hy : y ∈ leaves)
    (hz : z ∈ leaves) (hl : (left x y z).leaves = [x, y, z])
    (hr : (right x y z).leaves = [x, y, z]) (hf : (left x y z).flat = (right x y z).flat) :
    Namesakes (left x y z) (right x y z) := by
  have hmem : ∀ l ∈ (left x y z).leaves ++ (right x y z).leaves, l ∈ leaves := by
    simp [hl, hr, hx, hy, hz]
  have hx := constructible_leaf hx
  have hy := constructible_leaf hy
  have hz := constructible_leaf hz
  refine ⟨constructible_product 5 (constructible_product 4 hx hy) hz,
    constructible_product 7 hx (constructible_product 6 hy hz), ?_, ?_, ?_⟩
  · exact fun l hl l' hl' => identified l (hmem l hl) l' (hmem l' hl')
  · exact ⟨fun l hl l' hl' => legible.same_name l (hmem l hl) l' (hmem l' hl'),
      fun l hl l' hl' => legible.no_id l (hmem l hl) l' (hmem l' hl')⟩
  · exact (Expr.name_eq_iff legible (fun l hl => hmem l (List.mem_append_left _ hl))
      fun l hl => hmem l (List.mem_append_right _ hl)).2 hf

theorem passesOn {m : Model Nat}
    (h : ∀ l ∈ m.leaves, l.data.generator.kind ≠ .convolution .norm) : m.PassesOn := by
  intro l hl make hg
  exact absurd (congrArg Generator.kind hg) (h l hl)

def mapping : OrderedMap String String := .ofList (leaves.map fun l => (l.taggedName, l.name))

theorem mapped {l : Leaf (ModelData Nat)} (hl : l ∈ leaves) : l.taggedName ∈ mapping.keys :=
  OrderedMap.mem_keys_ofList.2 (by simpa [mapping] using ⟨l, hl, rfl⟩)

end Grouped

open Grouped in
/-- A factor behind an emission is convolved in one grouping and not in the other. Groupings also
differ in what they ask for first, and so in how they fail, and a norm convolution that looks at how
its source fails gives other values. -/
theorem name_alone_misleads :
    (Namesakes (left shift base factor) (right shift base factor) ∧
      PassesOn (left shift base factor) ∧
      ∃ ev ev', compile mapping {} (left shift base factor) = .ok ev ∧
        compile mapping {} (right shift base factor) = .ok ev' ∧
        ev.call ∅ [0, 1] none none = .ok [4] ∧ ev'.call ∅ [0, 1] none none = .ok [3]) ∧
    (Namesakes (left look factor shift) (right look factor shift) ∧
      depths (left look factor shift) = depths (right look factor shift) ∧
      ∃ ev ev', compile mapping {} (left look factor shift) = .ok ev ∧
        compile mapping {} (right look factor shift) = .ok ev' ∧
        ev.call ∅ [0, 1] (some [5]) (some fun _ _ => .error (.degenerateGrid 0)) = .ok [13] ∧
        ev'.call ∅ [0, 1] (some [5]) (some fun _ _ => .error (.degenerateGrid 0)) = .ok [12]) ∧
    Namesakes (left factor shift base) (right factor shift base) ∧
      PassesOn (left factor shift base) ∧
      depths (left factor shift base) = depths (right factor shift base) ∧
      ∃ ev ev', compile mapping {} (left factor shift base) = .ok ev ∧
        compile mapping {} (right factor shift base) = .ok ev' ∧
        ev.call ∅ [0, 1, 2] none none = .error (.binCount "a" 3 2 1) ∧
        ev'.call ∅ [0, 1, 2] none none = .error (.binCount "m" 3 2 1) := by
  have hs : shift ∈ Grouped.leaves := by simp [Grouped.leaves]
  have hb : base ∈ Grouped.leaves := by simp [Grouped.leaves]
  have hf : factor ∈ Grouped.leaves := by simp [Grouped.leaves]
  have hl : look ∈ Grouped.leaves := by simp [Grouped.leaves]
  refine ⟨⟨namesakes hs hb hf rfl rfl rfl, passesOn (by decide), _, _, rfl, rfl, ?_, ?_⟩,
    ⟨namesakes hl hf hs rfl rfl rfl, rfl, _, _, rfl, rfl, ?_, ?_⟩,
    namesakes hf hs hb rfl rfl rfl, passesOn (by decide), rfl, _, _, rfl, rfl, ?_, ?_⟩
  all_goals rfl

open Grouped in
/-- The two groupings of a transform and an emission are as good as each other, and those of a
convolved emission and a factor are not. -/
theorem name_means_grouped :
    Namesakes (left shift factor base) (right shift factor base) ∧
      PassesOn (left shift factor base) ∧
      depths (left shift factor base) = depths (right shift factor base) ∧
      Interchangeable mapping {} (left shift factor base) (right shift factor base) ∧
      Namesakes (left shift base factor) (right shift base factor) ∧
      depths (left shift base factor) ≠ depths (right shift base factor) ∧
      (∃ ev ev', compile mapping {} (tallied (left shift base factor)) = .ok ev ∧
        compile mapping {} (tallied (right shift base factor)) = .ok ev' ∧
        ev.call ∅ [⟨[]⟩, ⟨[]⟩] none none = .ok [⟨[0, 1, 0]⟩] ∧
        ev'.call ∅ [⟨[]⟩, ⟨[]⟩] none none = .ok [⟨[0, 1, 1]⟩]) ∧
      ¬ Interchangeable mapping {} (tallied (left shift base factor))
        (tallied (right shift base factor)) := by
  have hs : shift ∈ Grouped.leaves := by simp [Grouped.leaves]
  have hb : base ∈ Grouped.leaves := by simp [Grouped.leaves]
  have hf : factor ∈ Grouped.leaves := by simp [Grouped.leaves]
  have hsame := namesakes hs hf hb rfl rfl rfl
  have hother := namesakes hs hb hf rfl rfl rfl
  have hp : PassesOn (left shift factor base) := passesOn (by decide)
  have hd : depths (left shift base factor) ≠ depths (right shift base factor) := by decide
  have hmapped : ∀ l ∈ (left shift base factor).leaves, l.taggedName ∈ mapping.keys :=
    fun l hl => mapped (List.mem_append_left [look] hl)
  obtain ⟨-, hmeans, -⟩ := name_means Nat _ _ hsame
  obtain ⟨-, -, htold⟩ := name_means Nat _ _ hother
  obtain ⟨⟨ev, ev', hev, hev', hvalues⟩, hne⟩ := (htold hd).2.2 mapping {} hmapped
  obtain ⟨hv, hv', -⟩ := hvalues [⟨[]⟩, ⟨[]⟩]
  exact ⟨hsame, hp, rfl, hmeans rfl hp mapping {}, hother, hd, ⟨ev, ev', hev, hev', hv, hv'⟩, hne⟩

end Model

end SpectralAlgebra
