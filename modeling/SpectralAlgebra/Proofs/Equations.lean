import SpectralAlgebra.Proofs.Completeness

/-!
# Replaying solves the equations of a site

A deterministic site is an equation: its value is its combination of the values of its
dependencies. A replay writes the values one by one into the map it reads from, and a deterministic
site may take the name of a sample site that others depend on. Still the equations hold of the map
that comes out (`Site.solves_of_replay`): names are written in the order of evaluation, so what a
site reads is not written again. Nothing else solves them (`Site.Solves.unique`), so the order in
which the equations are declared makes no difference to the values.

A replay fails for the first sample site without a value, else for a cycle, else for the first
dependency, in the order of evaluation, that is no site. Values given under names that are no sample
sites change nothing but the warnings (`Site.replay_solves`).
-/

namespace SpectralAlgebra

open Relation

theorem OrderedMap.get?_eq_of_perm {κ α : Type} [DecidableEq κ] {m n : OrderedMap κ α}
    (h : m.entries.Perm n.entries) (k : κ) : m.get? k = n.get? k :=
  find_eq_of_perm m.nodup_keys h

namespace Site

variable {s : Site} {samples values values' : Values} {names : List String}

/-! ## Equations -/

/-- The name is that of a site. -/
def Declares (s : Site) (n : String) : Prop := n ∈ s.sample.keys ∨ n ∈ s.deterministic.keys

instance (s : Site) (n : String) : Decidable (s.Declares n) :=
  inferInstanceAs (Decidable (_ ∨ _))

/-- Every dependency is a site. -/
def Closed (s : Site) : Prop :=
  ∀ n d, s.deterministic.get? n = some d → ∀ y ∈ d.dependencies, s.Declares y

/-- Mere sample sites have the values given for them, or are left out and have their constants, and
every deterministic site has its combination of the values of its dependencies. -/
structure Solves (s : Site) (samples values : Values) : Prop where
  sampled : ∀ n prior, s.sample.get? n = some prior → n ∉ s.deterministic.keys →
    ∃ x, values.get? n = some x ∧
      (samples.get? n = some x ∨ samples.get? n = none ∧ prior.fixedValue? = some x)
  computed : ∀ n d, s.deterministic.get? n = some d → ∃ xs,
    d.dependencies.map values.get? = xs.map some ∧ values.get? n = some (d.combine xs)

theorem Solves.sampled_unique (h : s.Solves samples values) (h' : s.Solves samples values')
    {n : String} (hn : n ∈ s.sample.keys) (hd : n ∉ s.deterministic.keys) :
    values.get? n = values'.get? n := by
  obtain ⟨prior, hp⟩ := OrderedMap.exists_get?_iff.2 hn
  obtain ⟨x, hx, hg⟩ := h.sampled n prior hp hd
  obtain ⟨x', hx', hg'⟩ := h'.sampled n prior hp hd
  rw [hx, hx']
  rcases hg with hg | ⟨hg, hf⟩ <;> rcases hg' with hg' | ⟨hg', hf'⟩ <;> simp_all

/-- By recursion on the place in the order of evaluation. -/
theorem Solves.computed_unique (h : s.Solves samples values) (h' : s.Solves samples values')
    (hc : s.Closed) (ho : s.order = .ok names) (n : String) (hn : n ∈ s.deterministic.keys) :
    values.get? n = values'.get? n := by
  obtain ⟨d, hd⟩ := OrderedMap.exists_get?_iff.2 hn
  obtain ⟨xs, hxs, hv⟩ := h.computed n d hd
  obtain ⟨xs', hxs', hv'⟩ := h'.computed n d hd
  have hread : d.dependencies.map values.get? = d.dependencies.map values'.get? := by
    refine List.map_congr_left fun y hy => ?_
    by_cases hk : y ∈ s.deterministic.keys
    · have hlt : names.idxOf y < names.idxOf n := idxOf_lt_of_order_eq_ok ho ⟨d, hd, hy, hk⟩
      exact Solves.computed_unique h h' hc ho y hk
    · exact h.sampled_unique h' ((hc n d hd y hy).resolve_right hk) hk
  have hx : xs = xs' := by
    rw [hxs, hxs'] at hread
    exact List.map_injective_iff.2 (fun _ _ => Option.some.inj) hread
  rw [hv, hv', hx]
termination_by names.idxOf n

/-- A closed site with an order has one solution. -/
theorem Solves.unique (h : s.Solves samples values) (h' : s.Solves samples values')
    (hc : s.Closed) (ho : s.order = .ok names) {n : String} (hn : s.Declares n) :
    values.get? n = values'.get? n := by
  by_cases hd : n ∈ s.deterministic.keys
  · exact h.computed_unique h' hc ho n hd
  · exact h.sampled_unique h' (hn.resolve_right hd) hd

/-! ## What a replay writes -/

theorem exists_sampled (h : s.missing? samples = none) :
    ∃ σ values, s.Assigns samples σ ∧ replaySamples samples s.sample.entries ∅ = .ok values ∧
      values.keys = s.sample.keys ∧ ∀ n ∈ s.sample.keys, values.get? n = some (σ n) := by
  obtain ⟨σ, hσ⟩ := exists_assigns h
  let pairs : List (String × Float) := s.sample.entries.map fun e => (e.1, σ e.1)
  have hkeys : pairs.map Prod.fst = s.sample.keys := by simp [pairs, OrderedMap.keys]
  have hnodup : (pairs.map Prod.fst).Nodup := hkeys ▸ s.sample.nodup_keys
  have hentries : (OrderedMap.ofList pairs).entries = pairs := OrderedMap.entries_insertAll hnodup
  refine ⟨σ, .ofList pairs, hσ, replaySamples_eq fun e he => ?_, ?_, fun n hn => ?_⟩
  · exact sampleValue_eq_ok (hσ e.1 e.2 (OrderedMap.get?_eq_some_iff.2 he))
  · rw [OrderedMap.keys, hentries, hkeys]
  · obtain ⟨e, he, rfl⟩ := List.mem_map.1 hn
    exact (OrderedMap.get?_ofList_eq_some_iff hnodup).2 (List.mem_map.2 ⟨e, he, rfl⟩)

theorem collect_eq_ok_iff {xs : List Float} :
    collect values names = .ok xs ↔ names.map values.get? = xs.map some := by
  induction names generalizing xs with
  | nil => cases xs <;> simp [collect]
  | cons n rest ih =>
    rcases hv : values.get? n with _ | x
    · cases xs <;> simp [collect, hv]
    · simp only [collect, hv, Except.bind_eq_ok, Except.ok.injEq, ih]
      cases xs <;> simp [hv, and_comm]

theorem collect_eq_error {y : String} (hknown : ∀ n ∈ names, n ∈ values.keys ↔ s.Declares n)
    (h : names.find? (fun n => ¬ s.Declares n) = some y) :
    collect values names = .error (.missingValue y) := by
  induction names with
  | nil => cases h
  | cons n rest ih =>
    rw [List.forall_mem_cons] at hknown
    by_cases hn : s.Declares n
    · obtain ⟨x, hx⟩ := OrderedMap.exists_get?_iff.2 (hknown.1.2 hn)
      rw [List.find?_cons_of_neg (by simpa using hn)] at h
      simp only [collect, hx, ih hknown.2 h]
      rfl
    · rw [List.find?_cons_of_pos (by simpa using hn)] at h
      obtain rfl := Option.some.inj h
      rw [← hknown.1, ← OrderedMap.contains_iff, OrderedMap.contains,
        Option.not_isSome_iff_eq_none] at hn
      simp only [collect, hn]

/-- No site of the list reads its own name or a later one. -/
def ReadsBefore (s : Site) : List String → Prop
  | [] => True
  | n :: rest =>
    (∀ d, s.deterministic.get? n = some d → ∀ y ∈ d.dependencies, y ∉ n :: rest) ∧
      ReadsBefore s rest

theorem readsBefore_of_ordered :
    ∀ {names : List String} (front : List String), (front ++ names).Nodup →
      (∀ n ∈ names, n ∈ s.deterministic.keys) → s.Ordered (front ++ names) → s.ReadsBefore names
  | [], _, _, _, _ => trivial
  | n :: rest, front, hn, hk, ho => by
    refine ⟨fun d hd y hy hmem => ?_, ?_⟩
    · have hf := ho front n rest rfl y ⟨d, hd, hy, hk y hmem⟩
      exact (List.nodup_append.1 hn).2.2 y hf y hmem rfl
    · rw [List.append_cons] at hn ho
      exact readsBefore_of_ordered _ hn (fun m hm => hk m (List.mem_cons_of_mem n hm)) ho

theorem replayDeterministic_cons {n : String} (hn : n ∈ s.deterministic.keys)
    (h : replayDeterministic s (n :: names) values = .ok values') :
    ∃ d xs, s.deterministic.get? n = some d ∧ d.dependencies.map values.get? = xs.map some ∧
      replayDeterministic s names (values.insert n (d.combine xs)) = .ok values' := by
  obtain ⟨d, hd⟩ := OrderedMap.exists_get?_iff.2 hn
  rw [replayDeterministic, hd] at h
  obtain ⟨xs, hxs, h⟩ := Except.bind_eq_ok.1 h
  exact ⟨d, xs, hd, collect_eq_ok_iff.1 hxs, h⟩

/-- What has become of the values when the listed sites have been written. -/
structure Written (s : Site) (names : List String) (values values' : Values) : Prop where
  kept : ∀ n, n ∉ names → values'.get? n = values.get? n
  keys : values'.keys = values.keys ++ names.filter (· ∉ values.keys)
  computed : ∀ n ∈ names, ∀ d, s.deterministic.get? n = some d → ∃ xs,
    d.dependencies.map values'.get? = xs.map some ∧ values'.get? n = some (d.combine xs)

/-- The values that a site has read are there to the end, and so is what it has made of them. -/
theorem Written.cons {n : String} {d : DeterministicSite} {xs : List Float} (hn : n ∉ names)
    (hd : s.deterministic.get? n = some d) (hread : ∀ y ∈ d.dependencies, y ∉ n :: names)
    (hxs : d.dependencies.map values.get? = xs.map some)
    (h : s.Written names (values.insert n (d.combine xs)) values') :
    s.Written (n :: names) values values' where
  kept := fun m hm => by
    rw [List.mem_cons, not_or] at hm
    rw [h.kept m hm.2, OrderedMap.get?_insert, if_neg hm.1]
  keys := by
    rw [h.keys, OrderedMap.keys_insert, List.filter_cons]
    by_cases hk : n ∈ values.keys
    · simp [hk]
    · have hrest : names.filter (· ∉ values.keys ++ [n]) = names.filter (· ∉ values.keys) := by
        refine List.filter_congr fun m hm => ?_
        have hmn : m ≠ n := fun e => hn (e ▸ hm)
        simp [hmn]
      simp only [hk, if_false, hrest]
      simp
  computed := fun m hm e he => by
    rcases List.mem_cons.1 hm with rfl | hm
    · obtain rfl := Option.some.inj (hd.symm.trans he)
      refine ⟨xs, ?_, ?_⟩
      · rw [← hxs]
        refine List.map_congr_left fun y hy => ?_
        have hy' := hread y hy
        rw [List.mem_cons, not_or] at hy'
        rw [h.kept y hy'.2, OrderedMap.get?_insert, if_neg hy'.1]
      · rw [h.kept m hn, OrderedMap.get?_insert, if_pos rfl]
    · exact h.computed m hm e he

theorem written_of_replayDeterministic :
    ∀ {names : List String} {values : Values}, names.Nodup →
      (∀ n ∈ names, n ∈ s.deterministic.keys) → s.ReadsBefore names →
        replayDeterministic s names values = .ok values' → s.Written names values values'
  | [], values, _, _, _, h => by
    obtain rfl := Except.ok.inj h
    exact ⟨fun _ _ => rfl, (List.append_nil _).symm, fun n hn => absurd hn List.not_mem_nil⟩
  | n :: rest, values, hn, hk, hr, h => by
    rw [List.nodup_cons] at hn
    obtain ⟨d, xs, hd, hxs, h⟩ := replayDeterministic_cons (hk n List.mem_cons_self) h
    exact (written_of_replayDeterministic hn.2 (fun m hm => hk m (List.mem_cons_of_mem n hm)) hr.2
      h).cons hn.1 hd (hr.1 d hd) hxs

theorem missing?_of_replay (h : s.replay samples = .ok values) : s.missing? samples = none := by
  rcases hm : s.missing? samples with _ | name
  · rfl
  · rw [replay, replaySamples_eq_error hm] at h
    cases h

/-- The sample sites come first, as declared, and then the other sites in the order of evaluation.
All equations hold. -/
theorem solves_of_replay (h : s.replay samples = .ok values) :
    (∃ names, s.order = .ok names ∧
      values.keys = s.sample.keys ++ names.filter (· ∉ s.sample.keys)) ∧
    s.Solves samples values := by
  obtain ⟨σ, sampled, hσ, hs, hkeys, hget⟩ := exists_sampled (missing?_of_replay h)
  obtain ⟨_, hv, h⟩ := Except.bind_eq_ok.1 h
  obtain rfl := Except.ok.inj (hs.symm.trans hv)
  obtain ⟨names, hnames, h⟩ := Except.bind_eq_ok.1 h
  obtain ⟨hperm, ho⟩ := order_eq_ok hnames
  have hk : ∀ n ∈ names, n ∈ s.deterministic.keys := fun n => hperm.mem_iff.1
  have hn : names.Nodup := hperm.nodup_iff.2 s.deterministic.nodup_keys
  have hw := written_of_replayDeterministic hn hk (readsBefore_of_ordered [] hn hk ho) h
  refine ⟨⟨names, hnames, hkeys ▸ hw.keys⟩, fun n prior hp hd => ?_, fun n d hd => ?_⟩
  · have hmem : n ∈ s.sample.keys := OrderedMap.exists_get?_iff.1 ⟨prior, hp⟩
    refine ⟨σ n, ?_, hσ n prior hp⟩
    rw [hw.kept n fun hm => hd (hk n hm), hget n hmem]
  · exact hw.computed n (hperm.mem_iff.2 (OrderedMap.exists_get?_iff.1 ⟨d, hd⟩)) d hd

/-! ## How a replay fails -/

/-- The dependencies of a deterministic site, as it lists them. -/
def dependencies (s : Site) (n : String) : List String :=
  (s.deterministic.get? n).elim [] DeterministicSite.dependencies

/-- The first dependency, in the order of the names, that is no site. -/
def dangling? (s : Site) (names : List String) : Option String :=
  (names.flatMap s.dependencies).find? fun y => ¬ s.Declares y

theorem replayDeterministic_eq_error {y : String} :
    ∀ {names : List String} {values : Values}, (∀ n ∈ names, n ∈ s.deterministic.keys) →
      (∀ front n back, names = front ++ n :: back → ∀ y ∈ s.dependencies n, s.Declares y →
        y ∈ values.keys ∨ y ∈ front) →
      (∀ y ∈ values.keys, s.Declares y) → s.dangling? names = some y →
        replayDeterministic s names values = .error (.missingValue y)
  | [], _, _, _, _, h => by cases h
  | n :: rest, values, hk, hready, hv, h => by
    obtain ⟨d, hd⟩ := OrderedMap.exists_get?_iff.2 (hk n List.mem_cons_self)
    have hdeps : s.dependencies n = d.dependencies := by rw [dependencies, hd]; rfl
    have hknown : ∀ y ∈ d.dependencies, y ∈ values.keys ↔ s.Declares y := fun y hy =>
      ⟨hv y, fun hy' => (hready [] n rest rfl y (hdeps ▸ hy) hy').resolve_right List.not_mem_nil⟩
    rw [dangling?, List.flatMap_cons, List.find?_append, hdeps] at h
    rw [replayDeterministic, hd]
    rcases hf : d.dependencies.find? fun y => ¬ s.Declares y with _ | z
    · rw [hf, Option.none_or] at h
      have hall : ∀ y ∈ d.dependencies, y ∈ values.keys := by
        intro y hy
        simpa [hknown y hy] using List.find?_eq_none.1 hf y hy
      obtain ⟨xs, hxs, -⟩ := collect_eq_ok hall
      simp only [hxs]
      refine replayDeterministic_eq_error (fun m hm => hk m (List.mem_cons_of_mem n hm)) ?_ ?_ h
      · intro front m back hrest y hy hdecl
        rw [OrderedMap.mem_keys_insert]
        rcases hready (n :: front) m back (by rw [hrest, List.cons_append]) y hy hdecl with hy | hy
        · exact .inl (.inl hy)
        · exact (List.mem_cons.1 hy).imp .inr id
      · intro y hy
        rcases OrderedMap.mem_keys_insert.1 hy with hy | rfl
        · exact hv y hy
        · exact .inr (hk y List.mem_cons_self)
    · rw [hf, Option.some_or] at h
      obtain rfl := Option.some.inj h
      simp only [collect_eq_error hknown hf]
      rfl

theorem replay_of_cycle {x : String} (h : s.missing? samples = none)
    (hx : TransGen s.DependsOn x x) :
    ∃ n, s.replay samples = .error (.cycle n) ∧ TransGen s.DependsOn n n := by
  obtain ⟨-, sampled, -, hs, -, -⟩ := exists_sampled h
  rcases ho : s.order with e | names
  · obtain ⟨n, rfl, hn⟩ := order_eq_error ho
    refine ⟨n, ?_, hn⟩
    rw [replay, hs, ho]
    rfl
  · exact absurd hx (acyclic_of_order_eq_ok ho x)

theorem replay_of_dangling {y : String} (h : s.missing? samples = none)
    (ho : s.order = .ok names) (hy : s.dangling? names = some y) :
    s.replay samples = .error (.missingValue y) := by
  obtain ⟨-, sampled, -, hs, hkeys, -⟩ := exists_sampled h
  obtain ⟨hperm, hordered⟩ := order_eq_ok ho
  have hready : ∀ front n back, names = front ++ n :: back → ∀ y ∈ s.dependencies n,
      s.Declares y → y ∈ sampled.keys ∨ y ∈ front := by
    intro front n back hsplit y hy hdecl
    have hn : n ∈ s.deterministic.keys := hperm.mem_iff.1 (by simp [hsplit])
    obtain ⟨d, hd⟩ := OrderedMap.exists_get?_iff.2 hn
    rw [dependencies, hd] at hy
    rw [hkeys]
    exact hdecl.imp id fun hk => hordered front n back hsplit y ⟨d, hd, hy, hk⟩
  rw [replay, hs, ho]
  exact replayDeterministic_eq_error (fun n => hperm.mem_iff.1) hready
    (fun y hy => .inl (hkeys ▸ hy)) hy

theorem dangling?_eq_none_iff (hperm : names.Perm s.deterministic.keys) :
    s.dangling? names = none ↔ s.Closed := by
  simp only [dangling?, List.find?_eq_none, decide_eq_true_eq, Decidable.not_not, List.mem_flatMap]
  constructor
  · intro h n d hd y hy
    have hn : n ∈ names := hperm.mem_iff.2 (OrderedMap.exists_get?_iff.1 ⟨d, hd⟩)
    exact h y ⟨n, hn, by rw [dependencies, hd]; exact hy⟩
  · rintro h y ⟨n, hn, hy⟩
    obtain ⟨d, hd⟩ := OrderedMap.exists_get?_iff.2 (hperm.mem_iff.1 hn)
    rw [dependencies, hd] at hy
    exact h n d hd y hy

theorem exists_replay_iff (h : s.missing? samples = none)
    (ha : ∀ x, ¬ TransGen s.DependsOn x x) :
    (∃ values, s.replay samples = .ok values) ↔ s.Closed := by
  obtain ⟨names, ho⟩ := exists_order ha
  constructor
  · rintro ⟨values, hr⟩
    refine (dangling?_eq_none_iff (order_eq_ok ho).1).1 ?_
    rcases hd : s.dangling? names with _ | y
    · rfl
    · cases hr.symm.trans (replay_of_dangling h ho hd)
  · intro hc
    obtain ⟨σ, hσ⟩ := exists_assigns h
    obtain ⟨values, hr, -⟩ := replay_eq_ok (P := fun _ _ => True) hσ
      (fun {n y d} hd hy => hc n d hd y hy) ha (fun _ _ => trivial) fun _ _ _ _ _ => trivial
    exact ⟨values, hr⟩

/-! ## What makes no difference -/

theorem replaySamples_congr {samples' : Values} :
    ∀ {entries : List (String × Prior)} {values : Values},
      (∀ e ∈ entries, samples'.get? e.1 = samples.get? e.1) →
        replaySamples samples' entries values = replaySamples samples entries values
  | [], _, _ => rfl
  | e :: rest, values, h => by
    rw [replaySamples, replaySamples, sampleValue, sampleValue, h e List.mem_cons_self]
    exact congrArg _ (funext fun x =>
      replaySamples_congr fun e' he => h e' (List.mem_cons_of_mem e he))

/-- Only values for sample sites are looked at. -/
theorem replay_congr {samples' : Values}
    (h : ∀ n ∈ s.sample.keys, samples'.get? n = samples.get? n) :
    s.replay samples' = s.replay samples := by
  rw [replay, replay, replaySamples_congr fun e he => h e.1 (List.mem_map.2 ⟨e, he, rfl⟩)]

theorem acyclic_of_replay (h : s.replay samples = .ok values) (x : String) :
    ¬ TransGen s.DependsOn x x := by
  obtain ⟨⟨names, ho, -⟩, -⟩ := solves_of_replay h
  exact acyclic_of_order_eq_ok ho x

theorem declares_iff_of_replay (h : s.replay samples = .ok values) (n : String) :
    n ∈ values.keys ↔ s.Declares n := by
  obtain ⟨⟨names, ho, hkeys⟩, -⟩ := solves_of_replay h
  rw [hkeys, List.mem_append, List.mem_filter, (order_eq_ok ho).1.mem_iff, Declares]
  by_cases hn : n ∈ s.sample.keys <;> simp [hn]

/-- The order in which deterministic sites are declared may change the order of the values only. -/
theorem replay_of_perm {t : Site} (hs : t.sample = s.sample)
    (hp : t.deterministic.entries.Perm s.deterministic.entries)
    (h : s.replay samples = .ok values) :
    ∃ values', t.replay samples = .ok values' ∧ ∀ n, values'.get? n = values.get? n := by
  have hget : ∀ n, t.deterministic.get? n = s.deterministic.get? n :=
    OrderedMap.get?_eq_of_perm hp
  have hkeys : ∀ n, n ∈ t.deterministic.keys ↔ n ∈ s.deterministic.keys := fun n => by
    rw [← OrderedMap.exists_get?_iff, ← OrderedMap.exists_get?_iff, hget]
  have hdeclares : ∀ n, t.Declares n ↔ s.Declares n := fun n => by
    rw [Declares, Declares, hs, hkeys]
  have hdepends : t.DependsOn = s.DependsOn := by
    funext x y
    rw [DependsOn, DependsOn, hget, hkeys]
  have hmissing : t.missing? samples = none := by
    rw [missing?, hs]
    exact missing?_of_replay h
  have hclosed : s.Closed :=
    (exists_replay_iff (missing?_of_replay h) (acyclic_of_replay h)).1 ⟨values, h⟩
  have hclosed' : t.Closed := fun n d hd y hy =>
    (hdeclares y).2 (hclosed n d (hget n ▸ hd) y hy)
  obtain ⟨values', h'⟩ :=
    (exists_replay_iff hmissing (hdepends ▸ acyclic_of_replay h)).2 hclosed'
  obtain ⟨⟨names, ho, -⟩, hsolves⟩ := solves_of_replay h
  obtain ⟨-, hsolves'⟩ := solves_of_replay h'
  have hsolves' : s.Solves samples values' :=
    ⟨fun n prior hn hd => hsolves'.sampled n prior (hs ▸ hn) fun hk => hd ((hkeys n).1 hk),
      fun n d hd => hsolves'.computed n d (hget n ▸ hd)⟩
  refine ⟨values', h', fun n => ?_⟩
  by_cases hn : s.Declares n
  · exact hsolves'.unique hsolves hclosed ho hn
  · have hv : n ∉ values.keys := fun hm => hn ((declares_iff_of_replay h n).1 hm)
    have hv' : n ∉ values'.keys := fun hm =>
      hn ((hdeclares n).1 ((declares_iff_of_replay h' n).1 hm))
    rw [← OrderedMap.exists_get?_iff, ← Option.isSome_iff_exists,
      Option.not_isSome_iff_eq_none] at hv hv'
    rw [hv, hv']

/-- A value more means one more warning, if it is given under a name that is neither a sample site
nor among the samples already. -/
theorem replayWarnings_insert (n : String) (x : Float) :
    s.replayWarnings (samples.insert n x) = s.replayWarnings samples ++
      if n ∈ s.sample.keys ∨ n ∈ samples.keys then []
      else [⟨.warn, s!"ignoring value for '{n}': not a sample site"⟩] := by
  rw [replayWarnings, replayWarnings, OrderedMap.keys_insert]
  by_cases hk : n ∈ samples.keys
  · simp [hk]
  · by_cases hn : n ∈ s.sample.keys
    · have hc : s.sample.contains n = true := OrderedMap.contains_iff.2 hn
      simp [hk, hn, hc, List.filter_append]
    · have hc : s.sample.contains n = false := by
        rwa [← OrderedMap.contains_iff, Bool.not_eq_true] at hn
      simp [hk, hn, hc, List.filter_append]

theorem exists_dangling? (hperm : names.Perm s.deterministic.keys) (h : ¬ s.Closed) :
    ∃ y, s.dangling? names = some y ∧ ¬ s.Declares y := by
  rcases hd : s.dangling? names with _ | y
  · exact absurd ((dangling?_eq_none_iff hperm).1 hd) h
  · exact ⟨y, rfl, by simpa using List.find?_some hd⟩

/-- The values of a replay are those of the sample sites, in their order, and then those of the
other sites in the order of evaluation; all equations hold of them in the end, and no permutation of
the deterministic sites changes one. A replay fails for the first sample site that has neither a
value nor a constant, else for a site on a cycle, else for the first dependency, in the order of
evaluation, that is no site. Values under names that are no sample sites have no part in it; each is
worth one warning, in the order of the samples. -/
theorem replay_solves (s : Site) (samples : Values) :
    (∀ values, s.replay samples = .ok values →
      (∃ names, s.order = .ok names ∧
        values.keys = s.sample.keys ++ names.filter (· ∉ s.sample.keys)) ∧
      s.Solves samples values ∧
      ∀ t : Site, t.sample = s.sample →
        t.deterministic.entries.Perm s.deterministic.entries →
          ∃ values', t.replay samples = .ok values' ∧ ∀ n, values'.get? n = values.get? n) ∧
    ((∃ values, s.replay samples = .ok values) ↔
      s.missing? samples = none ∧ (∀ x, ¬ TransGen s.DependsOn x x) ∧ s.Closed) ∧
    (∀ name, s.missing? samples = some name →
      s.replay samples = .error (.missingValue name)) ∧
    (s.missing? samples = none →
      (∀ x, TransGen s.DependsOn x x →
        ∃ n, s.replay samples = .error (.cycle n) ∧ TransGen s.DependsOn n n) ∧
      ((∀ x, ¬ TransGen s.DependsOn x x) → ¬ s.Closed →
        ∃ names y, s.order = .ok names ∧ s.dangling? names = some y ∧ ¬ s.Declares y ∧
          s.replay samples = .error (.missingValue y))) ∧
    (∀ samples' : Values, (∀ n ∈ s.sample.keys, samples'.get? n = samples.get? n) →
      s.replay samples' = s.replay samples) ∧
    s.replayWarnings ∅ = [] ∧
    ∀ n x, s.replayWarnings (samples.insert n x) = s.replayWarnings samples ++
      if n ∈ s.sample.keys ∨ n ∈ samples.keys then []
      else [⟨.warn, s!"ignoring value for '{n}': not a sample site"⟩] := by
  refine ⟨fun values h => ?_, ⟨?_, ?_⟩, fun name hm => ?_, fun hm => ⟨fun x hx => ?_, ?_⟩,
    fun samples' h => replay_congr h, rfl, fun n x => replayWarnings_insert n x⟩
  · obtain ⟨hkeys, hsolves⟩ := solves_of_replay h
    exact ⟨hkeys, hsolves, fun t hs hp => replay_of_perm hs hp h⟩
  · rintro ⟨values, h⟩
    have hm := missing?_of_replay h
    have ha := acyclic_of_replay h
    exact ⟨hm, ha, (exists_replay_iff hm ha).1 ⟨values, h⟩⟩
  · rintro ⟨hm, ha, hc⟩
    exact (exists_replay_iff hm ha).2 hc
  · rw [replay, replaySamples_eq_error hm]
    rfl
  · exact replay_of_cycle hm hx
  · intro ha hc
    obtain ⟨names, ho⟩ := exists_order ha
    obtain ⟨y, hy, hn⟩ := exists_dangling? (order_eq_ok ho).1 hc
    exact ⟨names, y, ho, hy, hn, replay_of_dangling hm ho hy⟩

namespace Doubled

def first : Combinator := fun xs => xs.headD 0

/-- A sample site `x` is a deterministic one too, and is declared after what reads it. -/
def site : Site where
  sample := ⟨[("x", .distribution (.uniform 0 1)), ("k", .fixed 3)], by decide⟩
  deterministic := ⟨[("y", ⟨["x", "k"], first⟩), ("x", ⟨["k"], first⟩)], by decide⟩

theorem get?_cases {n : String} {d : DeterministicSite} (h : site.deterministic.get? n = some d) :
    n = "y" ∧ d = ⟨["x", "k"], first⟩ ∨ n = "x" ∧ d = ⟨["k"], first⟩ := by
  have hmem : (n, d) ∈ [("y", (⟨["x", "k"], first⟩ : DeterministicSite)), ("x", ⟨["k"], first⟩)] :=
    OrderedMap.get?_eq_some_iff.1 h
  simpa using hmem

theorem closed : site.Closed := by
  intro n d h y hy
  rcases get?_cases h with ⟨rfl, rfl⟩ | ⟨rfl, rfl⟩
  · have hy : y ∈ ["x", "k"] := hy
    exact .inl hy
  · have hy : y ∈ ["k"] := hy
    exact .inl (List.mem_cons_of_mem _ hy)

theorem acyclic (x : String) : ¬ TransGen site.DependsOn x x := by
  refine acyclic_of_lt (f := fun n => if n = "y" then 1 else 0) ?_ x
  rintro n y ⟨d, h, hy, hk⟩
  rcases get?_cases h with ⟨rfl, rfl⟩ | ⟨rfl, rfl⟩
  · have hy : y ∈ ["x", "k"] := hy
    have hne : y ≠ "y" := by
      rintro rfl
      exact absurd hy (by decide)
    simp [hne]
  · obtain rfl := List.mem_singleton.1 hy
    exact absurd hk (by decide)

end Doubled

open Doubled in
/-- The value given for `x` is replaced before `y` reads it. -/
theorem replay_solves_doubled : ∃ values,
    Doubled.site.replay (.singleton "x" 5) = .ok values ∧ values.keys = ["x", "k", "y"] ∧
      values.get? "x" = values.get? "k" ∧ values.get? "y" = values.get? "k" := by
  obtain ⟨hok, hiff, -⟩ := replay_solves Doubled.site (.singleton "x" 5)
  obtain ⟨values, h⟩ := hiff.2 ⟨by decide +kernel, acyclic, closed⟩
  obtain ⟨⟨names, ho, hkeys⟩, hsolves, -⟩ := hok values h
  have hnew : (names.filter (· ∉ ["x", "k"])).Perm ["y"] := (order_eq_ok ho).1.filter _
  rw [List.perm_singleton] at hnew
  refine ⟨values, h, hkeys.trans (congrArg (["x", "k"] ++ ·) hnew), ?_⟩
  obtain ⟨xs, hxs, hx⟩ := hsolves.computed "x" ⟨["k"], first⟩ rfl
  obtain ⟨ys, hys, hy⟩ := hsolves.computed "y" ⟨["x", "k"], first⟩ rfl
  have hxs1 : xs.length = 1 := by simpa using congrArg List.length hxs.symm
  have hys2 : ys.length = 2 := by simpa using congrArg List.length hys.symm
  obtain ⟨k, rfl⟩ := List.length_eq_one_iff.1 hxs1
  obtain ⟨x, k', rfl⟩ := List.length_eq_two.1 hys2
  simp only [List.map_cons, List.map_nil, List.cons.injEq, and_true] at hxs hys
  have hxk : values.get? "x" = values.get? "k" := hx.trans hxs.symm
  exact ⟨hxk, hy.trans (hys.1.symm.trans hxk)⟩

end Site

end SpectralAlgebra
