import SpectralAlgebra.Proofs.Placement

/-!
# Unrelated sites are reversed

Sites are walked from in the order they are declared, and a site is placed in front of those placed
before. So the sites that depend on sample sites only have in the order of evaluation the reverse of
the declared order (`Site.filter_order`). Where no deterministic site has another one among its
dependencies these are all sites (`Site.order_of_unrelated`).

Only users are put on the stack, so a site without deterministic dependencies never gets there but
at the start. It leaves the stack when all that was put above it is placed, and is placed in front.
-/

namespace SpectralAlgebra.Site

open Relation

variable {s : Site}

/-- The site has no deterministic site among its dependencies. -/
def Independent (s : Site) (x : String) : Prop := s.requirements x = []

instance : DecidablePred s.Independent := fun _ => inferInstanceAs (Decidable (_ = _))

theorem independent_iff {x : String} : s.Independent x ↔ ∀ y, ¬ s.DependsOn x y := by
  rw [Independent, List.eq_nil_iff_forall_not_mem]
  exact forall_congr' fun y => not_congr mem_requirements

section Placing

variable {users : String → List String} {keys : List String} {P : String → Prop} [DecidablePred P]

/-- Of the sites with `P` that are on the stack each is there once, and it is not placed yet. -/
structure Queued (keys : List String) (P : String → Prop) [DecidablePred P]
    (stack placed : List String) : Prop where
  stack_sub : ∀ x ∈ stack, x ∈ keys
  once : (stack.filter P).Nodup
  not_placed : ∀ x ∈ stack, P x → x ∉ placed

/-- The sites with `P` that are placed when those on the stack have been placed in front. -/
def queue (P : String → Prop) [DecidablePred P] (stack placed : List String) : List String :=
  (stack.filter P).reverse ++ placed.filter P

variable {stack placed rest : List String} {x : String}

/-- If sites with `P` are nobody's users, none of them gets on the stack. -/
theorem Queued.meet (hu : ∀ x ∈ keys, ∀ u ∈ users x, u ∈ keys ∧ ¬ P u)
    (h : Queued keys P (x :: rest) placed) (pending : List String) :
    Queued keys P ((users x).filter (· ∈ pending) ++ x :: rest) placed ∧
      queue P ((users x).filter (· ∈ pending) ++ x :: rest) placed
        = queue P (x :: rest) placed := by
  have huser : ∀ u ∈ (users x).filter (· ∈ pending), u ∈ keys ∧ ¬ P u := fun u hm =>
    hu x (h.stack_sub x List.mem_cons_self) u (List.mem_filter.1 hm).1
  have hstack : ((users x).filter (· ∈ pending) ++ x :: rest).filter P = (x :: rest).filter P := by
    have hnone : ((users x).filter (· ∈ pending)).filter P = [] :=
      List.filter_eq_nil_iff.2 fun u hm => by simpa using (huser u hm).2
    rw [List.filter_append, hnone, List.nil_append]
  refine ⟨⟨fun y hy => ?_, hstack ▸ h.once, fun y hy hP => ?_⟩, by rw [queue, hstack, queue]⟩
  · exact (List.mem_append.1 hy).elim (fun hm => (huser y hm).1) (h.stack_sub y)
  · exact h.not_placed y ((List.mem_append.1 hy).resolve_left fun hm => (huser y hm).2 hP) hP

theorem Queued.leave (h : Queued keys P (x :: rest) placed) :
    Queued keys P rest (if x ∈ placed then placed else x :: placed) ∧
      queue P rest (if x ∈ placed then placed else x :: placed) = queue P (x :: rest) placed := by
  have hrest : ∀ y ∈ rest, y ∈ x :: rest := fun y => List.mem_cons_of_mem x
  have hsub : ∀ y ∈ rest, y ∈ keys := fun y hy => h.stack_sub y (hrest y hy)
  have honce := h.once
  by_cases hP : P x
  · have hx : (x :: rest).filter P = x :: rest.filter P :=
      List.filter_cons_of_pos (by simpa using hP)
    rw [hx, List.nodup_cons] at honce
    rw [if_neg (h.not_placed x List.mem_cons_self hP)]
    refine ⟨⟨hsub, honce.2, fun y hy hPy hm => ?_⟩, ?_⟩
    · rcases List.mem_cons.1 hm with rfl | hm
      · exact honce.1 (List.mem_filter.2 ⟨hy, by simpa using hPy⟩)
      · exact h.not_placed y (hrest y hy) hPy hm
    · rw [queue, queue, hx, List.filter_cons_of_pos (by simpa using hP), List.reverse_cons,
        List.append_assoc]
      rfl
  · have hx : ∀ l : List String, (x :: l).filter P = l.filter P := fun l =>
      List.filter_cons_of_neg (by simpa using hP)
    rw [hx] at honce
    refine ⟨⟨hsub, honce, fun y hy hPy => ?_⟩, ?_⟩
    · split_ifs
      · exact h.not_placed y (hrest y hy) hPy
      · rw [List.mem_cons, not_or]
        exact ⟨fun e => hP (e ▸ hPy), h.not_placed y (hrest y hy) hPy⟩
    · rw [queue, queue, hx]
      split_ifs
      · rfl
      · rw [hx]

/-- Sites that are nobody's users are placed in the order in which they stand on the stack. -/
theorem filter_place (hu : ∀ x ∈ keys, ∀ u ∈ users x, u ∈ keys ∧ ¬ P u)
    {pending names : List String} (hq : Queued keys P stack placed)
    (h : place users pending stack placed = .ok names) :
    names.filter P = queue P stack placed := by
  fun_induction place users pending stack placed with
  | case1 pending placed =>
    obtain rfl := Except.ok.inj h
    rfl
  | case2 pending placed x rest hx hl => cases h
  | case3 pending placed x rest hx hl pending' ih =>
    obtain ⟨hmet, hqueue⟩ := hq.meet hu pending'
    rw [← hqueue]
    exact ih hmet h
  | case4 pending placed x rest hx ih =>
    rw [← hq.leave.2]
    exact ih hq.leave.1 h

end Placing

/-- In every order that is found the independent sites come in the reverse of the declared order. -/
theorem filter_order {names : List String} (h : s.order = .ok names) :
    names.filter s.Independent = (s.deterministic.keys.filter s.Independent).reverse := by
  have hplace : place s.users s.deterministic.keys s.deterministic.keys [] = .ok names := by
    unfold order at h
    split at h
    · cases h
    · rename_i placed hp
      split at h
      · cases h
      · rwa [← Except.ok.inj h]
  have husers : ∀ x ∈ s.deterministic.keys, ∀ u ∈ s.users x,
      u ∈ s.deterministic.keys ∧ ¬ s.Independent u := fun x hx u hu =>
    ⟨mem_keys_of_mem_users hu, fun hi =>
      independent_iff.1 hi x (dependsOn_iff_mem_users.2 ⟨hu, hx⟩)⟩
  have hfilter := filter_place husers ⟨fun _ => id, s.deterministic.nodup_keys.filter _,
    fun _ _ _ => List.not_mem_nil⟩ hplace
  rwa [queue, List.filter_nil, List.append_nil] at hfilter

/-- No deterministic site has another one among its dependencies. -/
def Unrelated (s : Site) : Prop := ∀ x y, s.DependsOn x y → y = x

theorem Unrelated.dependsOn_self (h : s.Unrelated) {x : String} (hx : TransGen s.DependsOn x x) :
    s.DependsOn x x := by
  obtain ⟨y, hxy, -⟩ := TransGen.head'_iff.1 hx
  obtain rfl := h x y hxy
  exact hxy

theorem Unrelated.order_eq_reverse (h : s.Unrelated) (hself : ∀ x, ¬ s.DependsOn x x) :
    s.order = .ok s.deterministic.keys.reverse := by
  obtain ⟨names, ho⟩ := exists_order fun x hx => hself x (h.dependsOn_self hx)
  have hindependent : ∀ x, s.Independent x := fun x =>
    independent_iff.2 fun y hxy => hself x (h x y hxy ▸ hxy)
  have hall : ∀ l : List String, l.filter s.Independent = l := fun l =>
    List.filter_eq_self.2 fun x _ => by simpa using hindependent x
  have hfilter := filter_order ho
  rw [hall, hall] at hfilter
  rw [ho, hfilter]

theorem length_le_one_of_reverse_eq : ∀ {l : List String}, l.Nodup → l.reverse = l → l.length ≤ 1
  | [], _, _ => Nat.zero_le 1
  | [_], _, _ => Nat.le_refl 1
  | a :: b :: l, hn, h => by
    have hlast := congrArg List.head? h
    rw [List.head?_reverse, List.getLast?_cons_cons, List.head?_cons] at hlast
    exact absurd (List.mem_of_getLast? hlast) (List.nodup_cons.1 hn).1

/-- Where no deterministic site has another one among its dependencies, the order found is the
reverse of the declared one, and it fails to be found just for a site that depends on itself. So
the declared order is kept only if there are no two sites that could be exchanged. -/
theorem order_of_unrelated (s : Site) (h : s.Unrelated) :
    ((∀ x, ¬ s.DependsOn x x) → s.order = .ok s.deterministic.keys.reverse) ∧
    (∀ x, s.DependsOn x x → ∃ y, s.DependsOn y y ∧ s.order = .error (.cycle y)) ∧
    (s.order = .ok s.deterministic.keys ↔
      (∀ x, ¬ s.DependsOn x x) ∧ s.deterministic.keys.length ≤ 1) := by
  have hself : ∀ names, s.order = .ok names → ∀ x, ¬ s.DependsOn x x := fun names ho x hx =>
    acyclic_of_order_eq_ok ho x (.single hx)
  refine ⟨h.order_eq_reverse, fun x hx => ?_, fun ho => ?_, fun ⟨hnone, hle⟩ => ?_⟩
  · rcases he : s.order with e | names
    · obtain ⟨y, rfl, hy⟩ := order_eq_error he
      exact ⟨y, h.dependsOn_self hy, rfl⟩
    · exact absurd hx (hself names he x)
  · refine ⟨hself _ ho, length_le_one_of_reverse_eq s.deterministic.nodup_keys ?_⟩
    exact Except.ok.inj ((h.order_eq_reverse (hself _ ho)).symm.trans ho)
  · rw [h.order_eq_reverse hnone]
    rcases hl : s.deterministic.keys with _ | ⟨a, _ | ⟨b, l⟩⟩
    · rfl
    · rfl
    · rw [hl] at hle
      simp at hle

namespace Siblings

def site : Site :=
  ((Site.addSample ∅ "a" (.fixed 2)).addDeterministic "x" ⟨["a"], fun xs => xs.headD 0 + 1⟩)
    |>.addDeterministic "y" ⟨["a"], fun xs => -xs.headD 0⟩

theorem not_dependsOn (x y : String) : ¬ site.DependsOn x y :=
  not_dependsOn_of_forall (by decide) x y

theorem unrelated : site.Unrelated := fun x y h => absurd h (not_dependsOn x y)

end Siblings

/-- Two sites that depend on one sample site are exchanged. -/
theorem order_of_unrelated_siblings : Siblings.site.Unrelated ∧
    Siblings.site.deterministic.keys = ["x", "y"] ∧ Siblings.site.order = .ok ["y", "x"] :=
  ⟨Siblings.unrelated, rfl, (order_of_unrelated _ Siblings.unrelated).1 fun x =>
    Siblings.not_dependsOn x x⟩

end SpectralAlgebra.Site
