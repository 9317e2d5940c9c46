import Mathlib.Algebra.Group.Defs
import SpectralAlgebra.Proofs.Completeness
import SpectralAlgebra.Proofs.LeafKinds
import SpectralAlgebra.Proofs.Reading

/-!
# What convolutions reach

A convolution acts on what follows it in its product. How far that goes is a matter of grouping: the
factor of `(c * a) * f` is not convolved and that of `c * (a * f)` is, and both are called
`c * a * f`. Let the depth of a leaf be the number of convolutions that it stands under. Two models
with the same flat form and the same depths have the same effect on what follows them, whatever the
effects of their leaves are, if addition and multiplication are associative
(`Model.effect_eq_of_depths`).

The effect of a product is found from its parts and their depths alone. They are gone through from
right to left; at each depth there is the product of what has been met since a convolution took it
up, and a convolution takes up the product one deeper (`Model.foldr_links`).
-/

namespace SpectralAlgebra

namespace Resolution

variable {o : Operator} {k₁ k₂ : ModelKind} {r : Resolution}

theorem operands_of_infer (hr : infer o k₁ k₂ = .ok r) (h : r.kind ≠ .additive) :
    k₁ ≠ .additive ∧ k₂ ≠ .additive := by
  have hs := strength_of_infer hr
  constructor <;> rintro rfl
  · rcases k₂ with _ | _ | _ | _ <;> exact h (ModelKind.strength_inj hs)
  · rcases k₁ with _ | _ | _ | _ <;> exact h (ModelKind.strength_inj hs)

theorem additive_of_infer (hr : infer .mul k₁ .additive = .ok r) : r.kind = .additive := by
  rcases k₁ with _ | _ | _ | _ <;> cases hr <;> rfl

/-- A product that is no convolution has none in it, unless one is applied to its right operand. -/
theorem factors_of_infer (hr : infer .mul k₁ k₂ = .ok r) (h : r.kind.isConvolution = false)
    (hk : ¬ (k₁.isConvolution ∧ k₂ = .additive)) :
    k₁.isConvolution = false ∧ k₂.isConvolution = false := by
  rcases k₁ with _ | _ | _ | _ <;> rcases k₂ with _ | _ | _ | _ <;> cases hr <;>
    first
    | exact ⟨rfl, rfl⟩
    | exact absurd ⟨rfl, rfl⟩ hk
    | cases h

theorem shape_of_factors (hr : infer .mul k₁ k₂ = .ok r) (h₁ : k₁.isConvolution = false)
    (h₂ : k₂.isConvolution = false) : r.shape = .product := by
  match k₁, k₂, r, hr with
  | .additive, .multiplicative, _, rfl | .multiplicative, .additive, _, rfl
  | .multiplicative, .multiplicative, _, rfl => rfl

end Resolution

namespace Model

variable {V : Type} {m n x y : Model V} {id : NodeId} {o : Operator} {r : Resolution}

/-- How many convolutions act on what the model is applied to. -/
def acting (m : Model V) : Nat :=
  if m.kind = .additive then 0 else m.leaves.countP fun l => l.data.kind.isConvolution

/-- How many convolutions each leaf stands under, from left to right. -/
def depths : Model V → List Nat
  | .leaf _ => [0]
  | .op _ _ _ x y => depths x ++ (depths y).map (· + acting x)

/-- The parts of the chain of an operator with their depths. -/
def links (o : Operator) : Model V → List (Model V × Nat)
  | .leaf l => [(.leaf l, 0)]
  | .op id o' r x y =>
    if o' = o then links o x ++ (links o y).map fun p => (p.1, p.2 + acting x)
    else [(.op id o' r x y, 0)]

/-! ## Acting convolutions -/

theorem acting_of_additive (h : m.kind = .additive) : m.acting = 0 := if_pos h

theorem acting_of_multiplicative (hw : m.WellKinded) (h : m.kind = .multiplicative) :
    m.acting = 0 := by
  rw [acting, if_neg (by simp [h]), List.countP_eq_zero]
  intro l hl hc
  have hle := strength_le_of_has hw ⟨l, hl, rfl⟩
  rw [h] at hle
  rcases hk : l.data.kind with _ | _ | _ | _ <;> simp [hk, ModelKind.isConvolution] at hc <;>
    simp [hk, ModelKind.strength] at hle

theorem acting_pos (hw : m.WellKinded) (h : m.kind.isConvolution) : 0 < m.acting := by
  have hne : m.kind ≠ .additive := by
    intro ha
    simp [ha, ModelKind.isConvolution] at h
  obtain ⟨l, hl, hk⟩ := has_kind hw
  rw [acting, if_neg hne, List.countP_pos_iff]
  exact ⟨l, hl, hk ▸ h⟩

theorem acting_eq_zero (hw : m.WellKinded) (h : m.kind.isConvolution = false) : m.acting = 0 := by
  rcases hk : m.kind with _ | _ | c
  · exact acting_of_additive hk
  · exact acting_of_multiplicative hw hk
  · rw [hk] at h
    cases h

theorem acting_leaf {l : Leaf (ModelData V)} (h : (kind (.leaf l)).isConvolution) :
    acting (.leaf l) = 1 := by
  have hk : l.data.kind.isConvolution = true := h
  have hne : kind (.leaf l) ≠ .additive := by
    intro ha
    simp [ha, ModelKind.isConvolution] at h
  simp [acting, hne, Expr.leaves, hk]

theorem acting_sum (hr : Resolution.infer .add x.kind y.kind = .ok r) :
    acting (.op id .add r x y) = 0 := by
  obtain ⟨hx, hy⟩ := Resolution.infer_add_eq_ok_iff.1 ⟨r, hr⟩
  rw [hx, hy] at hr
  cases hr
  rfl

theorem acting_applied (hr : Resolution.infer .mul x.kind y.kind = .ok r)
    (h : x.kind.isConvolution ∧ y.kind = .additive) : acting (.op id .mul r x y) = 0 := by
  rw [h.2] at hr
  exact acting_of_additive (Resolution.additive_of_infer hr)

theorem acting_product (hx : x.WellKinded) (hy : y.WellKinded)
    (hr : Resolution.infer .mul x.kind y.kind = .ok r)
    (h : ¬ (x.kind.isConvolution ∧ y.kind = .additive)) :
    acting (.op id .mul r x y) = x.acting + y.acting := by
  by_cases hk : r.kind = .additive
  · obtain ⟨hkx, hky⟩ := Resolution.factors_of_infer hr (by rw [hk]; rfl) h
    rw [acting_eq_zero hx hkx, acting_eq_zero hy hky]
    exact acting_of_additive hk
  · obtain ⟨hkx, hky⟩ := Resolution.operands_of_infer hr hk
    have hk : kind (.op id .mul r x y) ≠ .additive := hk
    rw [acting, if_neg hk, acting, if_neg hkx, acting, if_neg hky, Expr.leaves, List.countP_append]

/-! ## Depths -/

theorem length_depths : ∀ m : Model V, m.depths.length = m.leaves.length
  | .leaf _ => rfl
  | .op _ _ _ x y => by
    rw [depths, Expr.leaves, List.length_append, List.length_append, List.length_map,
      length_depths x, length_depths y]

/-- The first leaf stands under nothing. -/
theorem exists_depths : ∀ m : Model V, ∃ ds, m.depths = 0 :: ds
  | .leaf _ => ⟨[], rfl⟩
  | .op _ _ _ x y => by
    obtain ⟨ds, h⟩ := exists_depths x
    exact ⟨ds ++ (depths y).map (· + acting x), by rw [depths, h, List.cons_append]⟩

/-- The number of convolutions before each leaf. -/
def before : List (Leaf (ModelData V)) → List Nat
  | [] => []
  | l :: ls => 0 :: (before ls).map (· + if l.data.kind.isConvolution then 1 else 0)

theorem before_append : ∀ ls ls' : List (Leaf (ModelData V)), before (ls ++ ls')
    = before ls ++ (before ls').map (· + ls.countP fun l => l.data.kind.isConvolution)
  | [], ls' => by simp [before]
  | l :: ls, ls' => by
    rw [List.cons_append, before, before_append ls ls', before, List.map_append, List.map_map,
      List.countP_cons]
    simp only [Function.comp_def, Nat.add_assoc, List.cons_append]

/-- In a transform a leaf stands under all convolutions before it. -/
theorem depths_of_transform : ∀ {m : Model V}, m.WellKinded → m.kind ≠ .additive →
    m.depths = before m.leaves
  | .leaf _, _, _ => rfl
  | .op _ _ _ x y, ⟨hx, hy, hr⟩, h => by
    obtain ⟨hkx, hky⟩ := Resolution.operands_of_infer hr h
    rw [depths, depths_of_transform hx hkx, depths_of_transform hy hky, Expr.leaves, before_append,
      acting, if_neg hkx]

/-! ## Parts of a chain -/

theorem map_links (o : Operator) :
    ∀ m : Model V, (m.links o).map (fun p => p.1.flat) = m.flat.links o
  | .leaf _ => rfl
  | .op _ o' _ x y => by
    rw [links, Expr.flat, Flat.join, Flat.links]
    split
    · rename_i h
      subst h
      rw [List.map_append, List.map_map, map_links o' x, ← map_links o' y]
      rfl
    · rfl

theorem depths_eq (o : Operator) :
    ∀ m : Model V, m.depths = (m.links o).flatMap fun p => p.1.depths.map (· + p.2)
  | .leaf _ => rfl
  | .op _ o' _ x y => by
    rw [links]
    split
    · rename_i h
      subst h
      rw [List.flatMap_append, List.flatMap_map, depths, depths_eq o' x, depths_eq o' y,
        List.map_flatMap]
      simp only [List.map_map, Function.comp_def, Nat.add_assoc]
    · simp

theorem mem_links {p : Model V × Nat} : ∀ {m : Model V}, p ∈ m.links o →
    p.1.leaves.length ≤ m.leaves.length ∧ (∀ l ∈ p.1.leaves, l ∈ m.leaves) ∧
      (m.WellKinded → p.1.WellKinded)
  | .leaf l, h => by
    obtain rfl := List.mem_singleton.1 h
    exact ⟨Nat.le_refl _, fun _ hl => hl, fun hm => hm⟩
  | .op _ o' _ x y, h => by
    rw [links] at h
    split at h
    · rw [Expr.leaves, List.length_append]
      rcases List.mem_append.1 h with h | h
      · obtain ⟨hlen, hl, hw⟩ := mem_links h
        exact ⟨by omega, fun l hl' => List.mem_append_left _ (hl l hl'), fun hm => hw hm.1⟩
      · obtain ⟨q, hq, rfl⟩ := List.mem_map.1 h
        obtain ⟨hlen, hl, hw⟩ := mem_links hq
        exact ⟨by simp only; omega, fun l hl' => List.mem_append_right _ (hl l hl'),
          fun hm => hw hm.2.1⟩
    · obtain rfl := List.mem_singleton.1 h
      exact ⟨Nat.le_refl _, fun _ hl => hl, fun hm => hm⟩

theorem length_leaves_pos (m : Model V) : 0 < m.leaves.length := by
  obtain ⟨ds, h⟩ := exists_depths m
  rw [← length_depths, h]
  exact Nat.succ_pos _

/-- The parts of a composite's own chain are smaller. -/
theorem length_lt_of_mem_links {p : Model V × Nat} (h : p ∈ links o (.op id o r x y)) :
    p.1.leaves.length < (Expr.op id o r x y).leaves.length := by
  have hx := length_leaves_pos x
  have hy := length_leaves_pos y
  rw [links, if_pos rfl] at h
  rw [Expr.leaves, List.length_append]
  rcases List.mem_append.1 h with h | h
  · have hle := (mem_links h).1
    omega
  · obtain ⟨q, hq, rfl⟩ := List.mem_map.1 h
    have hle := (mem_links hq).1
    simp only
    omega

/-- What the parts of two chains have in common if the flat forms agree part by part and the depths
agree as a whole. -/
theorem map_links_congr {β : Type} {F : Model V × Nat → β} : ∀ {L L' : List (Model V × Nat)},
    L.map (fun p => p.1.flat) = L'.map (fun p => p.1.flat) →
    L.flatMap (fun p => p.1.depths.map (· + p.2))
      = L'.flatMap (fun p => p.1.depths.map (· + p.2)) →
    (∀ p ∈ L, ∀ q ∈ L', p.1.flat = q.1.flat → p.1.depths = q.1.depths → p.2 = q.2 → F p = F q) →
      L.map F = L'.map F
  | [], [], _, _, _ => rfl
  | p :: L, q :: L', hf, hd, hF => by
    simp only [List.map_cons, List.cons.injEq] at hf
    obtain ⟨hflat, hf⟩ := hf
    simp only [List.flatMap_cons] at hd
    -- the flat form says how many depths belong to a part, and the first of them is the part's own
    have hlen : p.1.leaves.length = q.1.leaves.length := by
      simpa using congrArg List.length (Expr.ids_eq_of_flat hflat)
    obtain ⟨hpq, hd⟩ := List.append_inj hd (by simp [length_depths, hlen])
    obtain ⟨ds, hp⟩ := exists_depths p.1
    obtain ⟨es, hq⟩ := exists_depths q.1
    have hdepth : p.2 = q.2 := by
      rw [hp, hq] at hpq
      simpa using (List.cons.inj hpq).1
    rw [hdepth] at hpq
    have hdepths : p.1.depths = q.1.depths :=
      List.map_injective_iff.2 (add_left_injective q.2) hpq
    have hrest : L.map F = L'.map F := map_links_congr hf hd fun a ha b hb =>
      hF a (List.mem_cons_of_mem p ha) b (List.mem_cons_of_mem q hb)
    rw [List.map_cons, List.map_cons, hrest,
      hF p List.mem_cons_self q List.mem_cons_self hflat hdepths hdepth]

/-! ## Models of the same leaves -/

variable {ls : List (Leaf (ModelData V))}

theorem leaves_eq_of_ids (hid : Identified ls) :
    ∀ {a b : List (Leaf (ModelData V))}, (∀ l ∈ a, l ∈ ls) → (∀ l ∈ b, l ∈ ls) →
      a.map Leaf.id = b.map Leaf.id → a = b
  | [], [], _, _, _ => rfl
  | l :: a, l' :: b, ha, hb, h => by
    rw [List.forall_mem_cons] at ha hb
    obtain ⟨hl, h⟩ := List.cons.inj h
    rw [hid l ha.1 l' hb.1 hl, leaves_eq_of_ids hid ha.2 hb.2 h]

theorem kind_congr (hm : m.WellKinded) (hn : n.WellKinded) (h : m.leaves = n.leaves) :
    m.kind = n.kind := by
  have hhas : ∀ k, m.Has k ↔ n.Has k := fun k => by rw [Has, Has, h]
  rw [kind_eq_iff hm]
  simp only [hhas]
  exact (kind_eq_iff hn).1 rfl

theorem acting_congr (hm : m.WellKinded) (hn : n.WellKinded) (h : m.leaves = n.leaves) :
    m.acting = n.acting := by
  rw [acting, acting, kind_congr hm hn h, h]

end Model

/-! ## Effects -/

section Onto

variable {Q : Type}

/-- A value in front of what there is already. -/
def onto (f : Q → Q → Q) (v : Q) : Option Q → Q
  | none => v
  | some a => f v a

theorem onto_assoc {f : Q → Q → Q} (hf : ∀ a b c, f (f a b) c = f a (f b c)) (v w : Q) :
    ∀ a? : Option Q, onto f (f v w) a? = f v (onto f w a?)
  | none => rfl
  | some _ => hf _ _ _

end Onto

/-- The products that wait at each depth for a convolution. -/
abbrev Pending (Q : Type) := Nat → Option Q

/-- What stands at a depth, with so many convolutions acting. -/
structure Stage (Q : Type) where
  acting : Nat
  effect : Option Q → Q
  depth : Nat

namespace Stage

variable {Q : Type} [Semigroup Q]

/-- With `k` convolutions acting, what waits `k` deeper is taken up. -/
def push (t : Stage Q) (s : Pending Q) : Pending Q := fun j =>
  if j = t.depth then
    some (onto (· * ·) (t.effect (s (t.depth + t.acting))) (if t.acting = 0 then none else s j))
  else if j = t.depth + t.acting then none
  else s j

/-- A convolution takes up all of an additive model. -/
theorem push_onto {k d : Nat} (hk : k ≠ 0) (f g : Option Q → Q) {s : Pending Q}
    (hs : ∀ j, d < j → s j = none) :
    push ⟨k, f, d⟩ (push ⟨0, g, d + k⟩ s) = push ⟨0, onto (· * ·) (f (some (g none))), d⟩ s := by
  funext j
  have hdk : s (d + k) = none := hs (d + k) (by omega)
  by_cases hj : j = d
  · simp [push, onto, hk, hj, hdk]
  · by_cases hj' : j = d + k
    · simp [push, hj', hk, hdk]
    · simp [push, hj, hj']

/-- Of two transforms the left one takes up what the right one makes. -/
theorem push_push {k l d : Nat} {f : Option Q → Q} (g : Option Q → Q) {s : Pending Q}
    (hf : k = 0 → ∀ a?, f a? = onto (· * ·) (f none) a?)
    (hs : ∀ j, d < j → j ≠ d + (k + l) → s j = none) :
    push ⟨k, f, d⟩ (push ⟨l, g, d + k⟩ s) = push ⟨k + l, fun a? => f (some (g a?)), d⟩ s := by
  funext j
  rcases Nat.eq_zero_or_pos k with rfl | hk
  · -- both stand at one depth, and what waits there is multiplied by either
    by_cases hj : j = d
    · have hfg : ∀ a? : Option Q, f (some (onto (· * ·) (g (s (d + l))) a?))
          = onto (· * ·) (f (some (g (s (d + l))))) a? := by
        intro a?
        rw [hf rfl, hf rfl (some (g (s (d + l))))]
        exact (onto_assoc mul_assoc _ _ a?).symm
      simp only [push, hj, Nat.add_zero, Nat.zero_add, if_true, hfg]
      rfl
    · simp [push, hj]
  · -- nothing waits between the two
    have hdk : l ≠ 0 → s (d + k) = none := fun hl => hs (d + k) (by omega) (by omega)
    have hwait : (if l = 0 then none else s (d + k)) = none := by
      split
      · rfl
      · rename_i hl
        exact hdk hl
    by_cases hj : j = d
    · simp [push, hj, hk.ne', hwait, onto, Nat.add_assoc]
    · by_cases hj' : j = d + k
      · by_cases hl : l = 0 <;> simp [push, hj', hl, hdk, hk.ne']
      · simp [push, hj, hj', Nat.add_assoc]

end Stage

namespace Model

variable {V Q : Type} {m : Model V} {φ : Leaf (ModelData V) → Option Q → Q}

section Definitions

variable [Mul Q] [Add Q]

/-- What a model makes of what follows it, given what its leaves do. -/
def effect (φ : Leaf (ModelData V) → Option Q → Q) : Model V → Option Q → Q
  | .leaf l => φ l
  | .op _ .add _ x y => onto (· * ·) (effect φ x none + effect φ y none)
  | .op _ .mul _ x y =>
    if (kind x).isConvolution ∧ kind y = .additive then
      onto (· * ·) (effect φ x (some (effect φ y none)))
    else fun a? => effect φ x (some (effect φ y a?))

/-- Leaves that are no convolutions multiply what follows them. -/
def Multiplies (φ : Leaf (ModelData V) → Option Q → Q) : Prop :=
  ∀ l, l.data.kind.isConvolution = false → ∀ a?, φ l a? = onto (· * ·) (φ l none) a?

def stage (φ : Leaf (ModelData V) → Option Q → Q) (p : Model V × Nat) : Stage Q :=
  ⟨p.1.acting, p.1.effect φ, p.2⟩

end Definitions

/-! ## Products -/

section Products

variable [Semigroup Q] [Add Q]

theorem effect_eq_onto (hφ : Multiplies φ) : ∀ {m : Model V}, m.WellKinded →
    m.kind.isConvolution = false → ∀ a?, m.effect φ a? = onto (· * ·) (m.effect φ none) a?
  | .leaf l, _, h, a? => hφ l h a?
  | .op _ .add _ _ _, _, _, _ => rfl
  | .op _ .mul _ x y, ⟨hx, hy, hr⟩, h, a? => by
    rw [effect]
    split
    · rfl
    · rename_i hxy
      obtain ⟨hkx, hky⟩ := Resolution.factors_of_infer hr h hxy
      change effect φ x (some (effect φ y a?)) = onto _ (effect φ x (some (effect φ y none))) a?
      rw [effect_eq_onto hφ hy hky, effect_eq_onto hφ hx hkx,
        effect_eq_onto hφ hx hkx (some (effect φ y none))]
      exact (onto_assoc mul_assoc _ _ a?).symm

/-- The parts of a chain, one after the other, do to what waits as the whole chain does. Between the
depth of the chain and that of what it acts on nothing may wait. -/
theorem foldr_links (hφ : Multiplies φ) : ∀ {m : Model V} {d : Nat} {s : Pending Q}, m.WellKinded →
    (∀ j, d < j → j ≠ d + m.acting → s j = none) →
      (m.links .mul).foldr (fun p => (stage φ (p.1, d + p.2)).push) s = (stage φ (m, d)).push s
  | .leaf _, _, _, _, _ => rfl
  | .op _ .add _ _ _, _, _, _, _ => rfl
  | .op id .mul r x y, d, s, ⟨hx, hy, hr⟩, hs => by
    have hshift : ∀ p : Nat, d + (p + acting x) = d + acting x + p := fun p => by omega
    rw [links, if_pos rfl, List.foldr_append, List.foldr_map]
    simp only [hshift]
    by_cases hxy : (kind x).isConvolution ∧ kind y = .additive
    · have hkx : acting x ≠ 0 := (acting_pos hx hxy.1).ne'
      have hky : acting y = 0 := acting_of_additive hxy.2
      rw [acting_applied hr hxy] at hs
      have hs : ∀ j, d < j → s j = none := fun j hj => hs j hj (by omega)
      have hwait : ∀ j, d < j → j ≠ d + acting x → (stage φ (y, d + acting x)).push s j = none := by
        intro j hj hne
        simp [stage, Stage.push, hne, hs j hj]
      rw [foldr_links hφ hy fun j hj _ => hs j (by omega), foldr_links hφ hx hwait]
      simp only [stage, hky, acting_applied hr hxy, effect, if_pos hxy]
      exact Stage.push_onto hkx _ _ hs
    · have hf : acting x = 0 → ∀ a?, effect φ x a? = onto (· * ·) (effect φ x none) a? := fun h =>
        effect_eq_onto hφ hx (Bool.eq_false_iff.2 fun hc => (acting_pos hx hc).ne' h)
      rw [acting_product hx hy hr hxy] at hs
      have hwait : ∀ j, d < j → j ≠ d + acting x → (stage φ (y, d + acting x)).push s j = none := by
        intro j hj hne
        by_cases hj' : j = d + acting x + acting y
        · have hky : acting y ≠ 0 := by omega
          simp [stage, Stage.push, hj', hky]
        · simp [stage, Stage.push, hne, hj', hs j hj (by omega)]
      rw [foldr_links hφ hy fun j hj hne => hs j (by omega) (by omega), foldr_links hφ hx hwait]
      simp only [stage, acting_product hx hy hr hxy, effect, if_neg hxy]
      exact Stage.push_push _ hf hs

/-- A product acts as its parts do at their depths. -/
theorem effect_eq_foldr (hφ : Multiplies φ) (hm : m.WellKinded) (a? : Option Q) :
    some (m.effect φ a?) = ((m.links .mul).map (stage φ)).foldr Stage.push
      (fun j => if j = m.acting then a? else none) 0 := by
  have h := foldr_links hφ (d := 0) (s := fun j => if j = m.acting then a? else none) hm
    fun j _ hj => if_neg (by simpa using hj)
  simp only [Nat.zero_add] at h
  rw [List.foldr_map, h]
  by_cases hk : m.acting = 0
  · simp [stage, Stage.push, onto, hk]
  · simp [stage, Stage.push, onto, hk, Ne.symm hk]

end Products

/-! ## Sums -/

section Sums

variable [Mul Q] [AddSemigroup Q]

theorem foldr_terms : ∀ (m : Model V) (a? : Option Q),
    (m.links .add).foldr (fun p t? => some (onto (· + ·) (p.1.effect φ none) t?)) a?
      = some (onto (· + ·) (m.effect φ none) a?)
  | .leaf _, _ => rfl
  | .op _ .mul _ _ _, _ => rfl
  | .op _ .add _ x y, a? => by
    rw [links, if_pos rfl, List.foldr_append, List.foldr_map, foldr_terms y, foldr_terms x, effect]
    exact congrArg some (onto_assoc add_assoc _ _ a?).symm

/-- A sum has the value of its terms. -/
theorem value_eq_foldr (m : Model V) : some (m.effect φ none)
    = ((m.links .add).map (stage φ)).foldr (fun t a? => some (onto (· + ·) (t.effect none) a?))
      none := by
  rw [List.foldr_map]
  exact (foldr_terms m none).symm

end Sums

variable [Semigroup Q] [AddSemigroup Q] {ls : List (Leaf (ModelData V))}

/-- Where sums and products are exact, the flat form of a model and the depths of its leaves say
what it makes of what follows it. By recursion on the number of leaves: the parts of a chain are
smaller, and what the parts do and where they stand is what the whole does. -/
theorem effect_eq_of_depths (hφ : Multiplies φ) (hid : Identified ls) :
    ∀ {m n : Model V}, m.WellKinded → n.WellKinded → (∀ l ∈ m.leaves, l ∈ ls) →
      (∀ l ∈ n.leaves, l ∈ ls) → m.flat = n.flat → m.depths = n.depths → m.effect φ = n.effect φ
  | .leaf l, .leaf l', _, _, hm, hn, hf, _ => by
    have hl : l.id = l'.id := (Flat.leaf.inj hf).2
    rw [hid l (hm l (List.mem_singleton_self l)) l' (hn l' (List.mem_singleton_self l')) hl]
  | .leaf _, .op .., _, _, _, _, hf, _ => by cases hf
  | .op .., .leaf _, _, _, _, _, hf, _ => by cases hf
  | .op i o r x y, .op i' o' r' x' y', hwm, hwn, hm, hn, hf, hd => by
    obtain rfl : o = o' := (Flat.chain.inj hf).1
    have hleaves : (Expr.op i o r x y).leaves = (Expr.op i' o r' x' y').leaves :=
      leaves_eq_of_ids hid hm hn (Expr.ids_eq_of_flat hf)
    have hparts : (links o (.op i o r x y)).map (stage φ)
        = (links o (.op i' o r' x' y')).map (stage φ) := by
      refine map_links_congr (by rw [map_links, map_links, hf])
        (by rw [← depths_eq, ← depths_eq, hd]) fun p hp q hq hflat hdepths hdepth => ?_
      obtain ⟨-, hpl, hwp⟩ := mem_links hp
      obtain ⟨-, hql, hwq⟩ := mem_links hq
      have hpm : ∀ l ∈ p.1.leaves, l ∈ ls := fun l hl => hm l (hpl l hl)
      have hqn : ∀ l ∈ q.1.leaves, l ∈ ls := fun l hl => hn l (hql l hl)
      have hsmaller := length_lt_of_mem_links hp
      have heffect := effect_eq_of_depths hφ hid (hwp hwm) (hwq hwn) hpm hqn hflat hdepths
      have hacting := acting_congr (hwp hwm) (hwq hwn)
        (leaves_eq_of_ids hid hpm hqn (Expr.ids_eq_of_flat hflat))
      rw [stage, stage, heffect, hacting, hdepth]
    rcases o with _ | _
    · have hvalue : effect φ (.op i .add r x y) none = effect φ (.op i' .add r' x' y') none := by
        rw [← Option.some_inj, value_eq_foldr, value_eq_foldr, hparts]
      exact congrArg (onto (· * ·)) hvalue
    · funext a?
      rw [← Option.some_inj, effect_eq_foldr hφ hwm, effect_eq_foldr hφ hwn, hparts,
        acting_congr hwm hwn hleaves]
termination_by m => m.leaves.length

end Model

end SpectralAlgebra
