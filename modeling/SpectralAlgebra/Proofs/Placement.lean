import Mathlib.Data.List.Basic
import Mathlib.Logic.Relation
import Mathlib.Tactic.ByContra
import Mathlib.Tactic.SplitIfs
import SpectralAlgebra.Site.Order

/-!
# The order of evaluation is right

`Site.order` finds an order exactly when the deterministic sites have no cycle of dependencies, and
it names a member of a cycle otherwise (`Site.order_spec`).

While sites are placed, a site is waiting until it is met, then open until all its users are placed.
Every open or waiting site stands on the stack, every open site leads to whatever stands above the
place where it was met, and the waiting users of an open site stand above it (`Stacked`). So when a
site is placed, its users are placed already or lead to it (`Settled`). A dependency that comes
after its user in the result has therefore been placed before the user, being led to by it: the two
lie on a cycle. The second pass stops at the first such dependency (`secondMet_eq_firstUnmet`).
-/

namespace SpectralAlgebra

namespace Site

open Relation

/-- A deterministic site lists another one among its dependencies. -/
def DependsOn (s : Site) (x y : String) : Prop :=
  ∃ d, s.deterministic.get? x = some d ∧ y ∈ d.dependencies ∧ y ∈ s.deterministic.keys

theorem mem_users {s : Site} {x u : String} :
    u ∈ s.users x ↔ ∃ d, s.deterministic.get? u = some d ∧ x ∈ d.dependencies := by
  simp only [users, List.mem_flatMap, List.mem_map, List.mem_filter, decide_eq_true_eq,
    OrderedMap.get?_eq_some_iff]
  constructor
  · rintro ⟨⟨n, d⟩, he, y, ⟨hy, rfl⟩, rfl⟩
    exact ⟨d, he, hy⟩
  · rintro ⟨d, he, hx⟩
    exact ⟨(u, d), he, x, ⟨hx, rfl⟩, rfl⟩

theorem mem_keys_of_mem_users {s : Site} {x u : String} (h : u ∈ s.users x) :
    u ∈ s.deterministic.keys := by
  obtain ⟨d, hd, -⟩ := mem_users.1 h
  exact OrderedMap.exists_get?_iff.1 ⟨d, hd⟩

theorem mem_requirements {s : Site} {x y : String} : y ∈ s.requirements x ↔ s.DependsOn x y := by
  unfold requirements DependsOn
  cases s.deterministic.get? x <;> simp [OrderedMap.contains_iff]

theorem dependsOn_iff_mem_users {s : Site} {x y : String} :
    s.DependsOn x y ↔ x ∈ s.users y ∧ y ∈ s.deterministic.keys := by
  rw [mem_users]
  exact ⟨fun ⟨d, hd, hy, hk⟩ => ⟨⟨d, hd, hy⟩, hk⟩, fun ⟨⟨d, hd, hy⟩, hk⟩ => ⟨d, hd, hy, hk⟩⟩

theorem not_dependsOn_of_forall {s : Site} (h : ∀ e ∈ s.deterministic.entries,
    ∀ y ∈ e.2.dependencies, y ∉ s.deterministic.keys) (x y : String) : ¬ s.DependsOn x y :=
  fun ⟨_, hd, hy, hk⟩ => h _ (OrderedMap.get?_eq_some_iff.1 hd) y hy hk

section Placing

variable (users : String → List String)

/-- There is a way from one site to the other by going to users. -/
def Leads : String → String → Prop := ReflTransGen fun x u => u ∈ users x

/-- What holds of a stack while some sites are open and some wait. Below a site on the stack only
the others are looked for. -/
def Stacked (opened waiting : String → Prop) : List String → Prop
  | [] => ∀ x, ¬ opened x ∧ ¬ waiting x
  | x :: below =>
    (∀ g, opened g → Leads users g x) ∧ (opened x → ∀ u ∈ users x, ¬ waiting u) ∧
      Stacked (fun g => opened g ∧ g ≠ x) (fun g => waiting g ∧ g ≠ x) below

/-- Every site in a list has each of its users further back, or is led to by it. -/
def Settled : List String → Prop
  | [] => True
  | y :: back => (∀ u ∈ users y, u ∈ back ∨ Leads users u y) ∧ Settled back

theorem Stacked.mono :
    ∀ {stack : List String} {opened opened' waiting waiting' : String → Prop},
      Stacked users opened waiting stack → (∀ g, opened' g → opened g) →
        (∀ g, waiting' g → waiting g) → Stacked users opened' waiting' stack
  | [], _, _, _, _, h, ho, hw => fun x => ⟨fun hx => (h x).1 (ho x hx), fun hx => (h x).2 (hw x hx)⟩
  | _ :: _, _, _, _, _, ⟨hl, hu, hs⟩, ho, hw =>
    ⟨fun g hg => hl g (ho g hg), fun hx u hm hu' => hu (ho _ hx) u hm (hw u hu'),
      hs.mono (fun g hg => ⟨ho g hg.1, hg.2⟩) fun g hg => ⟨hw g hg.1, hg.2⟩⟩

theorem Stacked.push :
    ∀ {new stack : List String} {opened waiting : String → Prop},
      (∀ x ∈ new, ¬ opened x ∧ ∀ g, opened g → Leads users g x) →
        Stacked users (fun g => opened g ∧ g ∉ new) (fun g => waiting g ∧ g ∉ new) stack →
          Stacked users opened waiting (new ++ stack)
  | [], _, _, _, _, h => h.mono users (fun g hg => ⟨hg, by simp⟩) fun g hg => ⟨hg, by simp⟩
  | x :: new, stack, opened, waiting, hn, h => by
    obtain ⟨hx, hl⟩ := hn x List.mem_cons_self
    refine ⟨hl, fun ho => absurd ho hx, Stacked.push (fun y hy => ?_) ?_⟩
    · obtain ⟨hy', hl'⟩ := hn y (List.mem_cons_of_mem x hy)
      exact ⟨fun ho => hy' ho.1, fun g hg => hl' g hg.1⟩
    · exact h.mono users (fun g hg => ⟨hg.1.1, by simp [hg.1.2, hg.2]⟩)
        fun g hg => ⟨hg.1.1, by simp [hg.1.2, hg.2]⟩

variable {users} {keys pending stack placed : List String}

/-- A site is open when it has been met and is not placed yet. -/
def Opened (keys pending placed : List String) (x : String) : Prop :=
  x ∈ keys ∧ x ∉ pending ∧ x ∉ placed

/-- What every step of placing keeps. -/
structure Placing (users : String → List String) (keys pending stack placed : List String) :
    Prop where
  pending_nodup : pending.Nodup
  pending_sub : ∀ x ∈ pending, x ∈ keys ∧ x ∉ placed
  placed_nodup : placed.Nodup
  placed_sub : ∀ x ∈ placed, x ∈ keys
  stack_sub : ∀ x ∈ stack, x ∈ keys
  stacked : Stacked users (Opened keys pending placed) (· ∈ pending) stack
  settled : Settled users placed
  no_loop : ∀ x ∈ keys, x ∉ pending → x ∉ users x

theorem Stacked.start (users : String → List String) :
    ∀ {stack : List String} {waiting : String → Prop}, (∀ x, waiting x → x ∈ stack) →
      Stacked users (fun _ => False) waiting stack
  | [], _, h => fun x => ⟨id, fun hx => by simpa using h x hx⟩
  | x :: stack, _, h =>
    ⟨fun _ hg => hg.elim, fun hx => hx.elim,
      (Stacked.start users fun y hy => (List.mem_cons.1 (h y hy.1)).resolve_left hy.2).mono users
        (fun _ hg => hg.1) fun _ hg => hg⟩

theorem Placing.start (hk : keys.Nodup) : Placing users keys keys keys [] where
  pending_nodup := hk
  pending_sub := fun x hx => ⟨hx, by simp⟩
  placed_nodup := .nil
  placed_sub := by simp
  stack_sub := fun _ => id
  stacked := (Stacked.start users fun _ => id).mono users (fun _ hg => hg.2.1 hg.1) fun _ => id
  settled := trivial
  no_loop := fun x hx hp => absurd hx hp

/-- Meeting a waiting site that does not use itself: its waiting users go on top of it. -/
theorem Placing.meet {x : String} {rest : List String} (hu : ∀ y, ∀ u ∈ users y, u ∈ keys)
    (h : Placing users keys pending (x :: rest) placed) (hx : x ∈ pending) (hl : x ∉ users x) :
    Placing users keys (pending.erase x)
      ((users x).filter (· ∈ pending.erase x) ++ x :: rest) placed := by
  have hmem : ∀ y, y ∈ pending.erase x ↔ y ≠ x ∧ y ∈ pending := fun y =>
    h.pending_nodup.mem_erase_iff
  have hopen : ∀ g, Opened keys (pending.erase x) placed g →
      g = x ∨ Opened keys pending placed g := by
    rintro g ⟨hk, hp, hg⟩
    by_cases hgx : g = x
    · exact .inl hgx
    · exact .inr ⟨hk, fun hm => hp ((hmem g).2 ⟨hgx, hm⟩), hg⟩
  obtain ⟨hlead, -, hbelow⟩ := h.stacked
  have hlead' : ∀ g, Opened keys (pending.erase x) placed g → Leads users g x := by
    intro g hg
    rcases hopen g hg with rfl | hg
    · exact .refl
    · exact hlead g hg
  refine ⟨h.pending_nodup.erase x, fun y hy => h.pending_sub y ((hmem y).1 hy).2, h.placed_nodup,
    h.placed_sub, fun y hy => ?_, ?_, h.settled, fun y hy hp => ?_⟩
  · rcases List.mem_append.1 hy with hy | hy
    · exact hu x y (List.mem_filter.1 hy).1
    · exact h.stack_sub y hy
  · refine Stacked.push users (fun y hy => ?_) ⟨fun g hg => hlead' g hg.1, fun _ u hux hw => ?_, ?_⟩
    · obtain ⟨hyx, hyp⟩ := List.mem_filter.1 hy
      exact ⟨fun ho => ho.2.1 (by simpa using hyp), fun g hg => (hlead' g hg).tail hyx⟩
    · exact hw.2 (List.mem_filter.2 ⟨hux, by simpa using hw.1⟩)
    · exact hbelow.mono users (fun g hg => ⟨(hopen g hg.1.1).resolve_left hg.2, hg.2⟩)
        fun g hg => ⟨((hmem g).1 hg.1.1).2, hg.2⟩
  · by_cases hyx : y = x
    · exact hyx ▸ hl
    · exact h.no_loop y hy fun hm => hp ((hmem y).2 ⟨hyx, hm⟩)

/-- Meeting a site again: it is placed now, if it was not before. -/
theorem Placing.leave {x : String} {rest : List String} (hu : ∀ y, ∀ u ∈ users y, u ∈ keys)
    (h : Placing users keys pending (x :: rest) placed) (hx : x ∉ pending) :
    Placing users keys pending rest (if x ∈ placed then placed else x :: placed) := by
  obtain ⟨hlead, husers, hbelow⟩ := h.stacked
  have hk := h.stack_sub x List.mem_cons_self
  have hsub : ∀ y ∈ rest, y ∈ keys := fun y hy => h.stack_sub y (List.mem_cons_of_mem x hy)
  have hwait : ∀ g ∈ pending, g ∈ pending ∧ g ≠ x := fun g hg => ⟨hg, fun e => hx (e ▸ hg)⟩
  split_ifs with hp
  · exact { h with
      stack_sub := hsub
      stacked := hbelow.mono users (fun g hg => ⟨hg, fun e => hg.2.2 (e ▸ hp)⟩) hwait }
  · refine ⟨h.pending_nodup, fun y hy => ⟨(h.pending_sub y hy).1, ?_⟩,
      List.nodup_cons.2 ⟨hp, h.placed_nodup⟩, ?_, hsub, hbelow.mono users (fun g hg => ?_) hwait,
      ⟨fun u hux => ?_, h.settled⟩, h.no_loop⟩
    · rw [List.mem_cons, not_or]
      exact ⟨(hwait y hy).2, (h.pending_sub y hy).2⟩
    · rintro y (_ | ⟨_, hy⟩)
      · exact hk
      · exact h.placed_sub y hy
    · obtain ⟨hgk, hgp, hgx⟩ := hg
      rw [List.mem_cons, not_or] at hgx
      exact ⟨⟨hgk, hgp, hgx.2⟩, hgx.1⟩
    · -- no user of an open site waits, so each is placed or open, and then it leads here
      have hnw := husers ⟨hk, hx, hp⟩ u hux
      by_cases hup : u ∈ placed
      · exact .inl hup
      · exact .inr (hlead u ⟨hu x u hux, hnw, hup⟩)

theorem Placing.perm (hk : keys.Nodup) (h : Placing users keys pending [] placed) :
    placed.Perm keys := by
  refine (List.perm_ext_iff_of_nodup h.placed_nodup hk).2 fun x => ⟨h.placed_sub x, fun hx => ?_⟩
  obtain ⟨ho, hw⟩ := h.stacked x
  by_contra hp
  exact ho ⟨hx, hw, hp⟩

/-- Placing fails only at a site that uses itself. Otherwise all sites are placed. -/
theorem place_spec (hk : keys.Nodup) (hu : ∀ y, ∀ u ∈ users y, u ∈ keys)
    (h : Placing users keys pending stack placed) :
    (∀ x, place users pending stack placed = .error x → x ∈ users x) ∧
      ∀ names, place users pending stack placed = .ok names →
        names.Perm keys ∧ Settled users names ∧ ∀ x ∈ keys, x ∉ users x := by
  fun_induction place users pending stack placed with
  | case1 pending placed =>
    refine ⟨fun x hx => by simp at hx, fun names hn => ?_⟩
    obtain rfl := Except.ok.inj hn
    refine ⟨h.perm hk, h.settled, fun x hx => h.no_loop x hx (h.stacked x).2⟩
  | case2 pending placed x rest hx hl =>
    refine ⟨fun y hy => ?_, fun names hn => by simp at hn⟩
    obtain rfl := Except.error.inj hy
    exact hl
  | case3 pending placed x rest hx hl pending' ih => exact ih (h.meet hu hx hl)
  | case4 pending placed x rest hx ih => exact ih (h.leave hu hx)

end Placing

section Reading

variable {requirements : String → List String}

/-- The first requirement that comes neither before the name that has it nor is that name. -/
def firstUnmet (requirements : String → List String) : List String → List String → Option String
  | _, [] => none
  | met, x :: rest =>
    match (requirements x).find? (· ∉ x :: met) with
    | some y => some y
    | none => firstUnmet requirements (x :: met) rest

theorem meetNext_of_notMem {met rest : List String} {x : String} (h : x ∉ met) :
    meetNext requirements met (x :: rest)
      = some (x, x :: met, (requirements x).filter (· ∉ x :: met) ++ rest) := by
  rw [meetNext, if_neg h]

/-- As long as each walk meets its first name only, the names met are those that walks started
from, and a walk has a second name to meet if its first one has an unmet requirement. -/
theorem secondMet_eq_firstUnmet :
    ∀ {names met : List String}, names.Nodup → (∀ x ∈ names, x ∉ met) →
      secondMet requirements met names = firstUnmet requirements met names
  | [], _, _, _ => rfl
  | x :: rest, met, hn, hm => by
    rw [List.nodup_cons] at hn
    have hrest : ∀ y ∈ rest, y ∉ x :: met := by
      intro y hy h
      rcases List.mem_cons.1 h with rfl | h
      · exact hn.1 hy
      · exact hm y (List.mem_cons_of_mem x hy) h
    have ih := secondMet_eq_firstUnmet hn.2 hrest
    rw [secondMet, meetNext_of_notMem (hm x List.mem_cons_self), firstUnmet, ← List.head?_filter,
      List.append_nil]
    rcases hf : (requirements x).filter (· ∉ x :: met) with _ | ⟨y, ys⟩
    · exact ih
    · have hy : y ∉ x :: met := by
        have hmem : y ∈ (requirements x).filter (· ∉ x :: met) := hf ▸ List.mem_cons_self
        simpa using (List.mem_filter.1 hmem).2
      simp only [meetNext_of_notMem hy, List.head?_cons]

theorem firstUnmet_eq_some {y : String} :
    ∀ {names met : List String}, firstUnmet requirements met names = some y →
      ∃ front x back, names = front ++ x :: back ∧ y ∈ requirements x ∧ y ≠ x ∧ y ∉ met ∧
        y ∉ front
  | [], _, h => by simp [firstUnmet] at h
  | x :: rest, met, h => by
    simp only [firstUnmet] at h
    split at h
    · rename_i z hz
      obtain rfl := Option.some.inj h
      have hm := List.find?_some hz
      simp only [List.mem_cons, not_or, decide_eq_true_eq] at hm
      exact ⟨[], x, rest, rfl, List.mem_of_find?_eq_some hz, hm.1, hm.2, by simp⟩
    · obtain ⟨front, z, back, rfl, hr, hz, hm, hf⟩ := firstUnmet_eq_some h
      rw [List.mem_cons, not_or] at hm
      exact ⟨x :: front, z, back, rfl, hr, hz, hm.2, by simp [hm.1, hf]⟩

theorem firstUnmet_eq_none :
    ∀ {names met : List String}, firstUnmet requirements met names = none →
      ∀ {front x back}, names = front ++ x :: back → ∀ y ∈ requirements x,
        y = x ∨ y ∈ met ∨ y ∈ front
  | [], _, _, front, x, back, hn, _, _ => by simp at hn
  | z :: rest, met, h, front, x, back, hn, y, hy => by
    simp only [firstUnmet] at h
    split at h
    · simp at h
    · rename_i hz
      rcases front with _ | ⟨w, front⟩
      · obtain ⟨rfl, rfl⟩ := List.cons.inj hn
        have hm := List.find?_eq_none.1 hz y hy
        simp only [List.mem_cons, not_or, decide_eq_true_eq, not_and_or, not_not] at hm
        exact hm.imp_right .inl
      · obtain ⟨rfl, rfl⟩ := List.cons.inj hn
        rcases firstUnmet_eq_none h rfl y hy with hy | hy | hy
        · exact .inl hy
        · rcases List.mem_cons.1 hy with rfl | hy
          · exact .inr (.inr List.mem_cons_self)
          · exact .inr (.inl hy)
        · exact .inr (.inr (List.mem_cons_of_mem _ hy))

end Reading

theorem Settled.at {users : String → List String} :
    ∀ {front back : List String} {y : String}, Settled users (front ++ y :: back) →
      ∀ u ∈ users y, u ∈ back ∨ Leads users u y
  | [], _, _, h => h.1
  | _ :: _, _, _, h => Settled.at h.2

theorem DependsOn.of_leads {s : Site} {x y z : String} (h : s.DependsOn x y)
    (hl : Leads s.users x z) : z ∈ s.deterministic.keys ∧ TransGen s.DependsOn z y := by
  induction hl with
  | refl => exact ⟨mem_keys_of_mem_users (dependsOn_iff_mem_users.1 h).1, .single h⟩
  | tail _ hu ih =>
    exact ⟨mem_keys_of_mem_users hu, ih.2.head (dependsOn_iff_mem_users.2 ⟨hu, ih.1⟩)⟩

/-- In an order of evaluation every site comes after the sites it depends on. -/
def Ordered (s : Site) (names : List String) : Prop :=
  ∀ front x back, names = front ++ x :: back → ∀ y, s.DependsOn x y → y ∈ front

theorem placed_spec (s : Site) :
    (∀ x, place s.users s.deterministic.keys s.deterministic.keys [] = .error x →
        x ∈ s.users x) ∧
      ∀ names, place s.users s.deterministic.keys s.deterministic.keys [] = .ok names →
        names.Perm s.deterministic.keys ∧ Settled s.users names ∧
          ∀ x ∈ s.deterministic.keys, x ∉ s.users x :=
  place_spec s.deterministic.nodup_keys (fun _ _ => mem_keys_of_mem_users)
    (Placing.start s.deterministic.nodup_keys)

theorem order_eq_ok {s : Site} {names : List String} (h : s.order = .ok names) :
    names.Perm s.deterministic.keys ∧ s.Ordered names := by
  unfold order at h
  split at h
  · simp at h
  · rename_i placed hp
    obtain ⟨hperm, -, hloop⟩ := s.placed_spec.2 _ hp
    have hn := hperm.nodup_iff.2 s.deterministic.nodup_keys
    rw [secondMet_eq_firstUnmet hn fun _ _ => List.not_mem_nil] at h
    split at h
    · simp at h
    · rename_i hr
      obtain rfl := Except.ok.inj h
      refine ⟨hperm, fun front x back hn y hy => ?_⟩
      rcases firstUnmet_eq_none hr hn y (mem_requirements.2 hy) with rfl | hm | hf
      · obtain ⟨hu, hyk⟩ := dependsOn_iff_mem_users.1 hy
        exact absurd hu (hloop y hyk)
      · simp at hm
      · exact hf

theorem order_eq_error {s : Site} {e : SiteError} (h : s.order = .error e) :
    ∃ n, e = .cycle n ∧ TransGen s.DependsOn n n := by
  unfold order at h
  split at h
  · rename_i x hp
    obtain rfl := Except.error.inj h
    have hx := s.placed_spec.1 x hp
    exact ⟨x, rfl, .single (dependsOn_iff_mem_users.2 ⟨hx, mem_keys_of_mem_users hx⟩)⟩
  · rename_i names hp
    obtain ⟨hperm, hsettled, -⟩ := s.placed_spec.2 names hp
    have hnames := hperm.nodup_iff.2 s.deterministic.nodup_keys
    rw [secondMet_eq_firstUnmet hnames fun _ _ => List.not_mem_nil] at h
    split at h
    · rename_i y hy
      obtain rfl := Except.error.inj h
      obtain ⟨front, x, back, rfl, hr, hyx, -, hyf⟩ := firstUnmet_eq_some hy
      rw [mem_requirements] at hr
      obtain ⟨hu, hyk⟩ := dependsOn_iff_mem_users.1 hr
      -- `y` comes after its user `x`, so it was placed first and is led to by `x`
      have hyb : y ∈ back := by
        have hmem := hperm.mem_iff.2 hyk
        simp only [List.mem_append, List.mem_cons] at hmem
        exact (hmem.resolve_left hyf).resolve_left hyx
      obtain ⟨middle, back, rfl⟩ := List.append_of_mem hyb
      have hn : (front ++ x :: middle ++ y :: back).Nodup := by
        simpa using hnames
      have hl : Leads s.users x y := by
        have hs : Settled s.users (front ++ x :: middle ++ y :: back) := by simpa using hsettled
        refine (hs.at x hu).resolve_left fun hxb => ?_
        exact (List.nodup_append.1 hn).2.2 x (by simp) x (by simp [hxb]) rfl
      exact ⟨y, rfl, (hr.of_leads hl).2⟩
    · simp at h

theorem Ordered.idxOf_lt {s : Site} {names : List String} (h : s.Ordered names)
    (hn : names.Nodup) {x y : String} (hx : x ∈ names) (hy : s.DependsOn x y) :
    names.idxOf y < names.idxOf x := by
  obtain ⟨front, back, rfl⟩ := List.append_of_mem hx
  have hxf : x ∉ front := fun hm => (List.nodup_append.1 hn).2.2 x hm x (by simp) rfl
  rw [List.idxOf_append_of_mem (h front x back rfl y hy), List.idxOf_append_of_notMem hxf]
  have := List.idxOf_lt_length_of_mem (h front x back rfl y hy)
  omega

theorem mem_keys_of_dependsOn {s : Site} {x y : String} (h : s.DependsOn x y) :
    x ∈ s.deterministic.keys :=
  mem_keys_of_mem_users (dependsOn_iff_mem_users.1 h).1

theorem idxOf_lt_of_order_eq_ok {s : Site} {names : List String} (h : s.order = .ok names)
    {x y : String} (hxy : s.DependsOn x y) : names.idxOf y < names.idxOf x := by
  obtain ⟨hperm, ho⟩ := order_eq_ok h
  have hn := hperm.nodup_iff.2 s.deterministic.nodup_keys
  exact ho.idxOf_lt hn (hperm.mem_iff.2 (mem_keys_of_dependsOn hxy)) hxy

/-- Where dependencies are smaller in some measure there is no cycle. -/
theorem acyclic_of_lt {s : Site} {f : String → Nat} (h : ∀ x y, s.DependsOn x y → f y < f x)
    (x : String) : ¬ TransGen s.DependsOn x x := by
  have key : ∀ {x y}, TransGen s.DependsOn x y → f y < f x := by
    intro x y hxy
    induction hxy with
    | single hxy => exact h _ _ hxy
    | tail _ hyz ih => exact Nat.lt_trans (h _ _ hyz) ih
  exact fun hx => Nat.lt_irrefl _ (key hx)

theorem acyclic_of_not_dependsOn {s : Site} (h : ∀ x y, ¬ s.DependsOn x y) (x : String) :
    ¬ TransGen s.DependsOn x x := by
  intro hx
  obtain ⟨y, hxy, -⟩ := TransGen.head'_iff.1 hx
  exact h x y hxy

theorem acyclic_of_order_eq_ok {s : Site} {names : List String} (h : s.order = .ok names)
    (x : String) : ¬ TransGen s.DependsOn x x :=
  acyclic_of_lt (f := names.idxOf) (fun _ _ => idxOf_lt_of_order_eq_ok h) x

theorem exists_order {s : Site} (h : ∀ x, ¬ TransGen s.DependsOn x x) :
    ∃ names, s.order = .ok names := by
  rcases he : s.order with e | names
  · obtain ⟨n, -, hn⟩ := order_eq_error he
    exact absurd hn (h n)
  · exact ⟨names, rfl⟩

/-- An order is found exactly when no site depends on itself, directly or through others. It has
every deterministic site once and after all it depends on. Otherwise the site named lies on a
cycle. -/
theorem order_spec (s : Site) :
    ((∃ names, s.order = .ok names) ↔ ∀ x, ¬ TransGen s.DependsOn x x) ∧
      (∀ names, s.order = .ok names → names.Perm s.deterministic.keys ∧ names.Nodup ∧
        ∀ x y, s.DependsOn x y → names.idxOf y < names.idxOf x) ∧
      ∀ e, s.order = .error e → ∃ n, e = .cycle n ∧ TransGen s.DependsOn n n := by
  refine ⟨⟨fun ⟨names, h⟩ => acyclic_of_order_eq_ok h, exists_order⟩, fun names h => ?_,
    fun e h => order_eq_error h⟩
  have hperm := (order_eq_ok h).1
  exact ⟨hperm, hperm.nodup_iff.2 s.deterministic.nodup_keys,
    fun x y hxy => idxOf_lt_of_order_eq_ok h hxy⟩

end Site

end SpectralAlgebra
