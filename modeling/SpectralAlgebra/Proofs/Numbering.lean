import Mathlib.Algebra.Group.Nat.Defs
import Mathlib.Data.List.Nodup
import SpectralAlgebra.CompiledModel
import SpectralAlgebra.Proofs.Shapes

/-!
# How leaves are numbered

A numbering gives every leaf a text made of its raw label and its place among the leaves that share
it, counted from one in the order in which the leaves are first met (`resolveLabels_eq`). So what
two leaves that share a raw label are resolved to differs, but the numbers are not checked against
the other raw labels: leaves labelled `a`, `a2` and `a` are resolved to `a`, `a2` and `a2`.

Two different raw labels clash if there are leaves enough for a number behind the one, and maybe a
number behind the other, to give the same text (`LabelKind.Clash`). Leaves are told apart by what
they are resolved to exactly if no two of their raw labels clash, and so are the components of a
compiled model in its parameter values (`LabelSpace.tellsApart_iff_no_clash`).
-/

namespace SpectralAlgebra

/-! ## Tagged labels -/

namespace NodeId

theorem length_hexDigits : ∀ count n : Nat, (hexDigits count n).length = count
  | 0, _ => rfl
  | count + 1, n => by rw [hexDigits, List.length_append, length_hexDigits count]; rfl

theorem digitChar_inj {a b : Nat} (ha : a < 16) (hb : b < 16)
    (h : Nat.digitChar a = Nat.digitChar b) : a = b := by
  have all : ∀ x y : Fin 16, Nat.digitChar x = Nat.digitChar y → x = y := by decide
  exact congrArg Fin.val (all ⟨a, ha⟩ ⟨b, hb⟩ h)

theorem hexDigits_inj : ∀ {count n m : Nat}, n < 16 ^ count → m < 16 ^ count →
    hexDigits count n = hexDigits count m → n = m
  | 0, n, m, hn, hm, _ => by omega
  | count + 1, n, m, hn, hm, h => by
    obtain ⟨hq, hr⟩ := List.append_inj' h rfl
    have hq := hexDigits_inj (by omega) (by omega) hq
    have hr := digitChar_inj (by omega) (by omega) (List.singleton_inj.1 hr)
    omega

theorem hex_inj {x y : NodeId} (h : x.hex = y.hex) : x = y := by
  have hd := hexDigits_inj x.bits.isLt y.bits.isLt (String.ofList_inj.1 h)
  exact congrArg NodeId.mk (BitVec.eq_of_toNat_eq hd)

end NodeId

/-- A tagged label gives away its raw label and its identity. -/
theorem tag_inj {a b : String} {x y : NodeId} : tag a x = tag b y ↔ a = b ∧ x = y := by
  constructor
  · intro h
    have hl : x.hex.toList.length = y.hex.toList.length := by
      simp only [NodeId.hex, String.toList_ofList, NodeId.length_hexDigits]
    have ht := congrArg String.toList h
    simp only [tag, String.toList_append] at ht
    obtain ⟨hab, hxy⟩ := List.append_inj' ht hl
    exact ⟨String.toList_inj.1 (List.append_inj' hab rfl).1,
      NodeId.hex_inj (String.toList_inj.1 hxy)⟩
  · rintro ⟨rfl, rfl⟩
    rfl

/-! ## Numbers -/

namespace LabelKind

/-- What stands behind the raw label of the `n`-th leaf that has it. -/
def suffix (kind : LabelKind) (n : Nat) : List Char :=
  if n = 1 then []
  else match kind with
    | name => Nat.toDigits 10 n
    | formula => '_' :: Nat.toDigits 10 n

theorem toList_number (kind : LabelKind) (raw : String) (n : Nat) :
    (kind.number raw n).toList = raw.toList ++ kind.suffix n := by
  unfold number suffix
  split
  · rw [List.append_nil]
  · cases kind
    · rw [String.toList_append, Nat.toString_eq_repr, Nat.toList_repr]
    · rw [String.toList_append, String.toList_append, Nat.toString_eq_repr, Nat.toList_repr,
        List.append_assoc]
      rfl

theorem suffix_ne_nil (kind : LabelKind) {n : Nat} (hn : n ≠ 1) : kind.suffix n ≠ [] := by
  unfold suffix
  rw [if_neg hn]
  cases kind
  · exact Nat.toDigits_ne_nil
  · exact List.cons_ne_nil _ _

theorem suffix_inj (kind : LabelKind) {i j : Nat} (h : kind.suffix i = kind.suffix j) : i = j := by
  by_cases hi : i = 1
  · subst hi
    by_cases hj : j = 1
    · exact hj.symm
    · exact absurd h.symm (kind.suffix_ne_nil hj)
  · by_cases hj : j = 1
    · subst hj
      exact absurd h (kind.suffix_ne_nil hi)
    · have hd : Nat.toDigits 10 i = Nat.toDigits 10 j := by
        unfold suffix at h
        rw [if_neg hi, if_neg hj] at h
        cases kind
        · exact h
        · exact List.tail_eq_of_cons_eq h
      have hn := congrArg (fun ds => Nat.ofDigitChars 10 ds 0) hd
      simpa only [Nat.ofDigitChars_ten_toDigits] using hn

theorem number_inj (kind : LabelKind) {raw : String} {i j : Nat}
    (h : kind.number raw i = kind.number raw j) : i = j := by
  have hl := congrArg String.toList h
  rw [toList_number, toList_number] at hl
  exact kind.suffix_inj (List.append_cancel_left hl)

end LabelKind

/-! ## Lists without repeats -/

section EraseDups

variable {α β : Type} [BEq α] [BEq β]

theorem eraseDups_sublist : ∀ l : List α, l.eraseDups.Sublist l
  | [] => .slnil
  | a :: l => by
    rw [List.eraseDups_cons]
    exact ((eraseDups_sublist _).trans List.filter_sublist).cons_cons a
termination_by l => l.length
decreasing_by exact Nat.lt_succ_of_le (List.length_filter_le _ _)

variable [LawfulBEq α] [LawfulBEq β]

theorem nodup_eraseDups : ∀ l : List α, l.eraseDups.Nodup
  | [] => .nil
  | a :: l => by
    rw [List.eraseDups_cons, List.nodup_cons, List.mem_eraseDups]
    exact ⟨by simp, nodup_eraseDups _⟩
termination_by l => l.length
decreasing_by exact Nat.lt_succ_of_le (List.length_filter_le _ _)

theorem eraseDups_of_nodup : ∀ {l : List α}, l.Nodup → l.eraseDups = l
  | [], _ => rfl
  | a :: l, h => by
    rw [List.nodup_cons] at h
    have hf : (l.filter fun b => !b == a) = l := by
      refine List.filter_eq_self.2 fun b hb => ?_
      have hne : b ≠ a := fun hba => h.1 (hba ▸ hb)
      simp [hne]
    rw [List.eraseDups_cons, hf, eraseDups_of_nodup h.2]

theorem filter_eraseDups (p : α → Bool) :
    ∀ l : List α, (l.filter p).eraseDups = l.eraseDups.filter p
  | [] => rfl
  | a :: l => by
    rw [List.eraseDups_cons, List.filter_cons, List.filter_cons,
      ← filter_eraseDups p (l.filter fun b => !b == a), List.filter_filter]
    by_cases ha : p a
    · rw [if_pos ha, if_pos ha, List.eraseDups_cons, List.filter_filter]
      simp only [Bool.and_comm]
    · rw [if_neg ha, if_neg ha]
      refine congrArg _ (List.filter_congr fun b _ => ?_)
      by_cases hb : b = a
      · subst hb
        simp [ha]
      · simp [hb]
termination_by l => l.length
decreasing_by exact Nat.lt_succ_of_le (List.length_filter_le _ _)

/-- Repeats that are taken out before mapping would be taken out after. -/
theorem eraseDups_map_eraseDups (f : α → β) :
    ∀ l : List α, (l.eraseDups.map f).eraseDups = (l.map f).eraseDups
  | [] => rfl
  | a :: l => by
    have hrest : ((l.filter fun b => !b == a).map f).filter (fun x => !x == f a)
        = (l.map f).filter fun x => !x == f a := by
      rw [List.filter_map, List.filter_map, List.filter_filter]
      refine congrArg _ (List.filter_congr fun b _ => ?_)
      by_cases hb : b = a <;> simp [hb]
    rw [List.eraseDups_cons, List.map_cons, List.map_cons, List.eraseDups_cons,
      List.eraseDups_cons, filter_eraseDups, eraseDups_map_eraseDups f (l.filter fun b => !b == a),
      ← filter_eraseDups, hrest]
termination_by l => l.length
decreasing_by exact Nat.lt_succ_of_le (List.length_filter_le _ _)

theorem eraseDups_map {f : α → β} (hf : ∀ a b, f a = f b → a = b) (l : List α) :
    (l.map f).eraseDups = l.eraseDups.map f := by
  rw [← eraseDups_map_eraseDups, eraseDups_of_nodup ((nodup_eraseDups l).map fun a b => hf a b)]

theorem length_eraseDups_eq_iff {l : List α} : l.eraseDups.length = l.length ↔ l.Nodup := by
  constructor
  · intro h
    rw [← (eraseDups_sublist l).eq_of_length h]
    exact nodup_eraseDups l
  · intro h
    rw [eraseDups_of_nodup h]

end EraseDups

/-- A merged map has the keys of both where they first come in. -/
theorem OrderedMap.keys_merge {κ α : Type} [DecidableEq κ] {m n : OrderedMap κ α} {ks ls : List κ}
    (hm : m.keys = ks.eraseDups) (hn : n.keys = ls.eraseDups) :
    (m.merge n).keys = (ks ++ ls).eraseDups := by
  rw [merge, keys_insertAll, hm]
  change _ ++ (n.keys.removeAll _).eraseDups = _
  rw [hn, List.eraseDups_append, List.removeAll, List.removeAll, filter_eraseDups,
    filter_eraseDups, eraseDups_of_nodup (nodup_eraseDups _)]
  simp only [List.elem_eq_contains, List.contains_eq_mem, List.mem_eraseDups]

theorem OrderedMap.merge_ofList {κ α : Type} [DecidableEq κ] (as bs : List (κ × α)) :
    (ofList as).merge (ofList bs) = ofList (as ++ bs) := by
  refine ext_get? ?_ fun k => ?_
  · rw [keys_merge keys_ofList keys_ofList, keys_ofList, List.map_append]
  · rw [get?_merge, ofList_append, get?_insertAll_ofList]

/-! ## Ranks -/

/-- How many of the leaves, given by raw label and identity, have a raw label. -/
def sharing (leaves : List (String × NodeId)) (raw : String) : Nat :=
  leaves.countP fun l => l.1 = raw

/-- A leaf's place among those that share its raw label, counted from one. -/
def rank (leaves : List (String × NodeId)) (l : String × NodeId) : Nat :=
  sharing (leaves.take (leaves.idxOf l)) l.1 + 1

theorem rank_cons_self (l : String × NodeId) (leaves : List (String × NodeId)) :
    rank (l :: leaves) l = 1 := by
  simp [rank, sharing]

theorem rank_cons_of_ne {a l : String × NodeId} (h : a ≠ l) (leaves : List (String × NodeId)) :
    rank (a :: leaves) l = rank leaves l + if a.1 = l.1 then 1 else 0 := by
  have hi : (a :: leaves).idxOf l = leaves.idxOf l + 1 := by
    rw [List.idxOf_cons, beq_eq_false_iff_ne.2 h, cond_false]
  simp [rank, sharing, hi, List.countP_cons]
  omega

theorem rank_append {l : String × NodeId} (after : List (String × NodeId)) :
    ∀ {before : List (String × NodeId)}, l ∉ before →
      rank (before ++ l :: after) l = sharing before l.1 + 1
  | [], _ => rank_cons_self l after
  | a :: before, h => by
    rw [List.mem_cons, not_or] at h
    rw [List.cons_append, rank_cons_of_ne (Ne.symm h.1), rank_append after h.2]
    simp [sharing, List.countP_cons]
    omega

theorem one_le_rank (leaves : List (String × NodeId)) (l : String × NodeId) :
    1 ≤ rank leaves l :=
  Nat.le_add_left 1 _

theorem rank_le_sharing {l : String × NodeId} :
    ∀ {leaves : List (String × NodeId)}, l ∈ leaves → rank leaves l ≤ sharing leaves l.1
  | a :: leaves, h => by
    by_cases ha : a = l
    · subst ha
      rw [rank_cons_self]
      simp [sharing]
    · have ih := rank_le_sharing ((List.mem_cons.1 h).resolve_left (Ne.symm ha))
      rw [rank_cons_of_ne ha]
      simp only [sharing, List.countP_cons, decide_eq_true_eq] at ih ⊢
      omega

theorem rank_inj {l l' : String × NodeId} (hraw : l.1 = l'.1) :
    ∀ {leaves : List (String × NodeId)}, l ∈ leaves → l' ∈ leaves →
      rank leaves l = rank leaves l' → l = l'
  | a :: leaves, hl, hl', h => by
    have hpos := one_le_rank leaves
    by_cases ha : a = l
    · by_cases ha' : a = l'
      · exact ha.symm.trans ha'
      · subst ha
        rw [rank_cons_self, rank_cons_of_ne ha', if_pos hraw] at h
        exact absurd h (by have := hpos l'; omega)
    · by_cases ha' : a = l'
      · subst ha'
        rw [rank_cons_self, rank_cons_of_ne ha, if_pos hraw.symm] at h
        exact absurd h (by have := hpos l; omega)
      · rw [rank_cons_of_ne ha, rank_cons_of_ne ha', hraw] at h
        exact rank_inj hraw ((List.mem_cons.1 hl).resolve_left (Ne.symm ha))
          ((List.mem_cons.1 hl').resolve_left (Ne.symm ha')) (Nat.add_right_cancel h)

/-- Every rank up to the number of leaves that share a raw label is one of theirs. -/
theorem exists_rank {raw : String} :
    ∀ {leaves : List (String × NodeId)} {i : Nat}, leaves.Nodup → 1 ≤ i → i ≤ sharing leaves raw →
      ∃ l ∈ leaves, l.1 = raw ∧ rank leaves l = i
  | [], i, _, h, hi => absurd hi (by simp only [sharing, List.countP_nil]; omega)
  | a :: leaves, i, hn, h, hi => by
    rw [List.nodup_cons] at hn
    have hne : ∀ l ∈ leaves, a ≠ l := fun l hl hal => hn.1 (hal ▸ hl)
    simp only [sharing, List.countP_cons, decide_eq_true_eq] at hi
    by_cases ha : a.1 = raw
    · rw [if_pos ha] at hi
      by_cases h1 : i = 1
      · exact ⟨a, List.mem_cons_self, ha, h1 ▸ rank_cons_self a leaves⟩
      · have hs : i - 1 ≤ sharing leaves raw := by
          unfold sharing
          omega
        obtain ⟨l, hl, hraw, hr⟩ := exists_rank hn.2 (by omega) hs
        refine ⟨l, List.mem_cons_of_mem _ hl, hraw, ?_⟩
        rw [rank_cons_of_ne (hne l hl), hr, if_pos (ha.trans hraw.symm)]
        omega
    · rw [if_neg ha] at hi
      obtain ⟨l, hl, hraw, hr⟩ := exists_rank hn.2 h hi
      refine ⟨l, List.mem_cons_of_mem _ hl, hraw, ?_⟩
      rw [rank_cons_of_ne (hne l hl), hr, if_neg fun h => ha (h.trans hraw), Nat.add_zero]

/-! ## What leaves are resolved to -/

def LabelKind.resolved (kind : LabelKind) (leaves : List (String × NodeId))
    (l : String × NodeId) : String :=
  kind.number l.1 (rank leaves l)

theorem resolveLabels_seen (kind : LabelKind) : ∀ seen rest : List (String × NodeId),
    resolveLabels kind seen rest = (rest.removeAll seen).eraseDups.map fun l =>
      (tag l.1 l.2, kind.resolved (seen.reverse ++ (rest.removeAll seen).eraseDups) l)
  | _, [] => rfl
  | seen, (raw, id) :: rest => by
    by_cases h : (raw, id) ∈ seen
    · have hr : ((raw, id) :: rest).removeAll seen = rest.removeAll seen := by
        simp [List.cons_removeAll, h]
      rw [resolveLabels, if_pos h, resolveLabels_seen kind seen rest, hr]
    · -- what is left after this leaf is met is what is left after all that were seen and this one
      have hr : (((raw, id) :: rest).removeAll seen).eraseDups
          = (raw, id) :: (rest.removeAll ((raw, id) :: seen)).eraseDups := by
        simp [h, List.eraseDups_cons, List.removeAll, List.filter_filter,
          Bool.beq_eq_decide_eq]
      have hk : kind.resolved (seen.reverse ++ (raw, id) ::
          (rest.removeAll ((raw, id) :: seen)).eraseDups) (raw, id)
            = kind.number raw (sharing seen raw + 1) := by
        rw [LabelKind.resolved, rank_append _ fun hs => h (List.mem_reverse.1 hs)]
        rw [sharing, List.countP_reverse]
        rfl
      rw [resolveLabels, if_neg h, resolveLabels_seen kind ((raw, id) :: seen) rest, hr,
        List.map_cons, hk, List.reverse_cons, List.append_assoc]
      rfl

/-- The entries of a numbering are those of the leaves, each once, as they are first met. -/
theorem resolveLabels_eq (kind : LabelKind) (leaves : List (String × NodeId)) :
    resolveLabels kind [] leaves
      = leaves.eraseDups.map fun l => (tag l.1 l.2, kind.resolved leaves.eraseDups l) := by
  rw [resolveLabels_seen, List.removeAll_nil, List.reverse_nil, List.nil_append]

/-- Two of the leaves' raw labels, though different, are numbered into the same text. -/
def LabelKind.Clash (kind : LabelKind) (leaves : List (String × NodeId)) : Prop :=
  ∃ raw raw' i j, raw ≠ raw' ∧ 1 ≤ i ∧ i ≤ sharing leaves raw ∧ 1 ≤ j ∧ j ≤ sharing leaves raw' ∧
    kind.number raw i = kind.number raw' j

theorem resolved_inj_iff (kind : LabelKind) {leaves : List (String × NodeId)}
    (hn : leaves.Nodup) :
    (∀ l ∈ leaves, ∀ l' ∈ leaves, kind.resolved leaves l = kind.resolved leaves l' → l = l') ↔
      ¬ kind.Clash leaves := by
  constructor
  · rintro h ⟨raw, raw', i, j, hne, hi, hi', hj, hj', hij⟩
    obtain ⟨l, hl, rfl, rfl⟩ := exists_rank hn hi hi'
    obtain ⟨l', hl', rfl, rfl⟩ := exists_rank hn hj hj'
    exact hne (congrArg Prod.fst (h l hl l' hl' hij))
  · intro h l hl l' hl' hr
    by_cases hraw : l.1 = l'.1
    · unfold LabelKind.resolved at hr
      rw [hraw] at hr
      exact rank_inj hraw hl hl' (kind.number_inj hr)
    · exact absurd ⟨l.1, l'.1, rank leaves l, rank leaves l', hraw, one_le_rank leaves l,
        rank_le_sharing hl, one_le_rank leaves l', rank_le_sharing hl', hr⟩ h

/-! ## Label spaces -/

section LabelSpaces

variable {V : Type} {edits : Edits} {kind : LabelKind} {n : Node V} {sp : LabelSpace V}

/-- The leaves of a node, each once, as they are first met: raw label and identity. -/
def Node.labelled (edits : Edits) (kind : LabelKind) (n : Node V) : List (String × NodeId) :=
  (n.leaves.map fun l => (l.raw edits kind, l.id)).eraseDups

theorem Node.mem_labelled {l : Leaf Unit} (h : l ∈ n.leaves) :
    (l.raw edits kind, l.id) ∈ n.labelled edits kind :=
  List.mem_eraseDups.2 (List.mem_map_of_mem h)

theorem Node.nodup_labelled (edits : Edits) (kind : LabelKind) (n : Node V) :
    (n.labelled edits kind).Nodup :=
  nodup_eraseDups _

theorem Snapshot.entries_take (edits : Edits) (kind : LabelKind) (n : Node V) :
    (Snapshot.take edits kind n.leaves).mapping.entries = (n.labelled edits kind).map fun l =>
      (tag l.1 l.2, kind.resolved (n.labelled edits kind) l) := by
  have hn : ((n.labelled edits kind).map fun l => tag l.1 l.2).Nodup := by
    refine (n.nodup_labelled edits kind).map fun l l' h => ?_
    exact Prod.ext (tag_inj.1 h).1 (tag_inj.1 h).2
  unfold Snapshot.take
  rw [resolveLabels_eq, OrderedMap.ofList, OrderedMap.entries_insertAll]
  · rfl
  · rw [OrderedMap.empty, List.nil_append, List.map_map]
    exact hn

namespace LabelSpace

/-- The label spaces of a node that have been consulted any number of times since they were made. -/
inductive Reached (n : Node V) : LabelSpace V → Prop
  | make (edits : Edits) : Reached n (.make edits n)
  | consult (edits : Edits) (kind : LabelKind) {sp : LabelSpace V} (h : Reached n sp) :
    Reached n (sp.consult edits kind)

theorem Reached.node_eq (h : Reached n sp) : sp.node = n := by
  induction h with
  | make edits => rfl
  | consult edits kind h ih =>
    unfold LabelSpace.consult
    split
    · cases kind <;> exact ih
    · exact ih

theorem Reached.snapshot_eq (h : Reached n sp) :
    ∀ kind, ∃ edits, sp.snapshot kind = .take edits kind n.leaves := by
  induction h with
  | make edits => exact fun kind => ⟨edits, by cases kind <;> rfl⟩
  | consult edits kind h ih =>
    intro kind'
    unfold LabelSpace.consult
    rw [h.node_eq]
    split
    · cases kind <;> cases kind'
      · exact ⟨edits, rfl⟩
      · exact ih .formula
      · exact ih .name
      · exact ⟨edits, rfl⟩
    · exact ih kind'

theorem take_congr {edits edits' : Edits} {kind : LabelKind} {leaves : List (Leaf Unit)}
    (h : (leaves.map fun l => l.raw edits kind) = leaves.map fun l => l.raw edits' kind) :
    Snapshot.take edits kind leaves = Snapshot.take edits' kind leaves := by
  have hp : (leaves.map fun l => (l.raw edits kind, l.id))
      = leaves.map fun l => (l.raw edits' kind, l.id) :=
    List.map_congr_left fun l hl => congrArg (·, l.id) (List.map_inj_left.1 h l hl)
  unfold Snapshot.take
  rw [h, hp]

/-- What is read from a label space is what a numbering made now would give. -/
theorem Reached.mapping_eq (h : Reached n sp) (edits : Edits) (kind : LabelKind) :
    sp.mapping edits kind = (Snapshot.take edits kind n.leaves).mapping := by
  unfold mapping LabelSpace.consult
  split
  · rw [h.node_eq]
    cases kind <;> rfl
  · rename_i hs
    obtain ⟨edits', he⟩ := h.snapshot_eq kind
    rw [isStale, h.node_eq, he] at hs
    rw [he]
    refine congrArg Snapshot.mapping (take_congr ?_)
    exact (of_decide_eq_false (Bool.eq_false_iff.2 hs) |> Decidable.of_not_not).symm

theorem Reached.get?_mapping (h : Reached n sp) {l : String × NodeId}
    (hl : l ∈ n.labelled edits kind) : (sp.mapping edits kind).get? (tag l.1 l.2)
      = some (kind.resolved (n.labelled edits kind) l) := by
  rw [h.mapping_eq, OrderedMap.get?_eq_some_iff, Snapshot.entries_take]
  exact List.mem_map.2 ⟨l, hl, rfl⟩

/-- No two leaves with different tagged labels are resolved to the same text. -/
def TellsApart (edits : Edits) (kind : LabelKind) (sp : LabelSpace V) : Prop :=
  ∀ l ∈ sp.node.leaves, ∀ l' ∈ sp.node.leaves,
    (sp.mapping edits kind).get? (l.tagged edits kind)
      = (sp.mapping edits kind).get? (l'.tagged edits kind) →
        l.tagged edits kind = l'.tagged edits kind

theorem Reached.tellsApart_iff (h : Reached n sp) :
    sp.TellsApart edits kind ↔ ¬ kind.Clash (n.labelled edits kind) := by
  rw [← resolved_inj_iff kind (Node.nodup_labelled edits kind n)]
  unfold TellsApart
  rw [h.node_eq]
  constructor
  · intro ha p hp p' hp' hr
    obtain ⟨l, hl, rfl⟩ := List.mem_map.1 (List.mem_eraseDups.1 hp)
    obtain ⟨l', hl', rfl⟩ := List.mem_map.1 (List.mem_eraseDups.1 hp')
    have ht := ha l hl l' hl' (by
      rw [Leaf.tagged, Leaf.tagged, h.get?_mapping hp, h.get?_mapping hp', hr])
    exact Prod.ext (tag_inj.1 ht).1 (tag_inj.1 ht).2
  · intro hi l hl l' hl' hr
    rw [Leaf.tagged, Leaf.tagged, h.get?_mapping (Node.mem_labelled hl),
      h.get?_mapping (Node.mem_labelled hl')] at hr
    have hp := hi _ (Node.mem_labelled hl) _ (Node.mem_labelled hl') (Option.some.inj hr)
    rw [Leaf.tagged, Leaf.tagged, (Prod.mk.inj hp).1, (Prod.mk.inj hp).2]

end LabelSpace

end LabelSpaces

/-! ## Components -/

section Components

variable {V : Type}

/-- The parameters stand under the tagged names of their leaves. -/
theorem Model.parameters_eq : ∀ m : Model V,
    m.parameters = .ofList (m.leaves.map fun l => (l.taggedName, l.data.parameters))
  | .leaf l => rfl
  | .op _ _ _ x y => by
    rw [parameters, parameters_eq x, parameters_eq y, OrderedMap.merge_ofList, Expr.leaves,
      List.map_append]

theorem Model.keys_parameters (m : Model V) :
    m.parameters.keys = (m.leaves.map Leaf.taggedName).eraseDups := by
  rw [parameters_eq, OrderedMap.keys_ofList, List.map_map]
  rfl

theorem Node.labelled_name (edits : Edits) (m : Model V) :
    (Node.model m).labelled edits .name = (m.leaves.map fun l => (l.name, l.id)).eraseDups := by
  rw [labelled, leaves, Expr.visit_eq, List.flatMap_singleton, List.map_map]
  rfl

variable {β : Type} {edits : Edits} {c : CompiledModel V}

namespace CompiledModel

theorem make_eq_ok [Add V] [Mul V] {m : Model V} {options : CompileOptions} :
    make edits m options = .ok c ↔ ∃ ev,
      Model.compile ((LabelSpace.make edits (.model m)).mapping edits .name) options m = .ok ev ∧
        c = ⟨m, .make edits (.model m), ev, options⟩ := by
  simp only [make, Except.bind_eq_ok, Except.ok.injEq, eq_comm (b := c)]

theorem keys_reported (F : OrderedMap String Parameter → β) :
    (c.reported edits F).keys = (c.components edits).eraseDups := by
  have hkeys : ((Model.parameters c.model).entries.map fun e => (c.resolve edits e.1, F e.2)).map
      Prod.fst = (Model.components c.model).eraseDups.map (c.resolve edits) := by
    rw [Model.components, ← Model.keys_parameters, OrderedMap.keys, List.map_map, List.map_map]
    rfl
  rw [reported, OrderedMap.keys_ofList, hkeys, eraseDups_map_eraseDups, components]

theorem keys_defaults (h : c.labels.Reached (.model c.model)) :
    (c.defaults edits).keys = (((Node.model c.model).labelled edits .name).map
      (LabelKind.name.resolved ((Node.model c.model).labelled edits .name))).eraseDups := by
  have hcomponents : c.components edits = (c.model.leaves.map fun l => (l.name, l.id)).map
      (LabelKind.name.resolved ((Node.model c.model).labelled edits .name)) := by
    rw [components, Model.components, List.map_map, List.map_map]
    refine List.map_congr_left fun l hl => ?_
    have hl' : (l.name, l.id) ∈ (Node.model c.model).labelled edits .name := by
      rw [Node.labelled_name, List.mem_eraseDups]
      exact List.mem_map_of_mem hl
    change (c.labels.resolve? edits .name (tag l.name l.id)).getD _ = _
    rw [LabelSpace.resolve?, h.get?_mapping hl']
    rfl
  refine (keys_reported _).trans ?_
  rw [hcomponents, ← eraseDups_map_eraseDups, ← Node.labelled_name edits]

end CompiledModel

theorem CompiledModel.size_defaults_iff (h : c.labels.Reached (.model c.model)) :
    (c.defaults edits).size = ((Node.model c.model).labelled edits .name).length ↔
      ¬ LabelKind.name.Clash ((Node.model c.model).labelled edits .name) := by
  have hn := (Node.model c.model).nodup_labelled edits .name
  have hs : (c.defaults edits).size = (c.defaults edits).keys.length := by
    rw [OrderedMap.keys, List.length_map]
    rfl
  rw [← resolved_inj_iff .name hn, ← List.nodup_map_iff_inj_on hn, ← length_eraseDups_eq_iff, hs,
    CompiledModel.keys_defaults h, List.length_map]

end Components

/-- A label space tells the leaves of its node apart exactly if no two of their raw labels clash,
and the parameter values of a compiled model have an entry for every component exactly if no two of
the components' names do. -/
theorem LabelSpace.tellsApart_iff_no_clash {V : Type} (edits : Edits) :
    (∀ (n : Node V) (sp : LabelSpace V) (kind : LabelKind), sp.Reached n →
      (sp.TellsApart edits kind ↔ ¬ kind.Clash (n.labelled edits kind))) ∧
    ∀ c : CompiledModel V, c.labels.Reached (.model c.model) →
      ((c.defaults edits).size = ((Node.model c.model).labelled edits .name).length ↔
        ¬ LabelKind.name.Clash ((Node.model c.model).labelled edits .name)) :=
  ⟨fun _ _ _ h => h.tellsApart_iff, fun _ h => CompiledModel.size_defaults_iff h⟩

namespace LabelSpace

namespace Triple

def component (k : Nat) (name : String) : Model Nat :=
  .leaf ⟨.fresh k, name, name, ∅, .additive, ∅, .additive fun _ grid _ => grid.tail⟩

def sum : Model Nat :=
  .op (.fresh 4) .add ⟨.additive, .addAdd⟩
    (.op (.fresh 3) .add ⟨.additive, .addAdd⟩ (component 0 "a") (component 1 "a2"))
    (component 2 "a")

theorem covers : ∀ l ∈ sum.leaves,
    l.taggedName ∈ ((LabelSpace.make ∅ (.model sum)).mapping ∅ .name).keys := by
  decide +kernel

theorem labelled_sum : (Node.model sum).labelled ∅ .name
    = [("a", .fresh 0), ("a2", .fresh 1), ("a", .fresh 2)] := by
  cbv

/-- The second leaf labelled `a` takes the text of the one labelled `a2`. -/
theorem clash : LabelKind.name.Clash ((Node.model sum).labelled ∅ .name) := by
  rw [labelled_sum]
  exact ⟨"a", "a2", 2, 1, by decide, by decide, by decide, by decide, by decide, rfl⟩

end Triple

theorem tellsApart_iff_no_clash_triple : ∃ c : CompiledModel Nat,
    CompiledModel.make ∅ Triple.sum {} = .ok c ∧ c.labels.Reached (.model c.model) ∧
      ¬ c.labels.TellsApart ∅ .name ∧ (c.defaults ∅).size ≠ 3 := by
  obtain ⟨ev, hev⟩ := Model.exists_compile {} Triple.covers
  let c : CompiledModel Nat := ⟨Triple.sum, .make ∅ (.model Triple.sum), ev, {}⟩
  have hr : c.labels.Reached (.model c.model) := .make ∅
  have h := tellsApart_iff_no_clash (V := Nat) ∅
  refine ⟨c, CompiledModel.make_eq_ok.2 ⟨ev, hev, rfl⟩, hr,
    fun ha => (h.1 _ _ _ hr).1 ha Triple.clash, fun hs => ?_⟩
  refine (h.2 c hr).1 (hs.trans ?_) Triple.clash
  exact (congrArg List.length Triple.labelled_sum).symm

end LabelSpace

end SpectralAlgebra
