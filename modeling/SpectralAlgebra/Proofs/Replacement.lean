import Mathlib.Data.List.Infix
import SpectralAlgebra.Text.Pieces

/-!
# Replacing in texts

Replacing goes through a text from the left: an occurrence of the pattern is written as the
replacement and passed over, any other character is kept (`Text.replaced_prefix`,
`Text.replaced_cons`). So a text is replaced on both sides of a character on its own, if no
occurrence runs over that character (`Text.replaced_append_cons`), and a text with one occurrence
has the same text before and behind it whatever is written there
(`Text.exists_replaced_of_occurrences`). One occurrence is all there is if its first character is
nowhere else (`Text.pieces_between`).
-/

namespace SpectralAlgebra.Text

variable {p : List Char}

/-- A text with every occurrence of the pattern `p` written as `r`. -/
def replaced (p r t : List Char) : List Char := r.intercalate (pieces p t)

theorem toList_replaceAll (p r t : String) :
    (replaceAll p r t).toList = replaced p.toList r.toList t.toList :=
  String.toList_ofList

theorem piecesFrom_ne_nil (p : List Char) : ∀ (skip : Nat) (t : List Char),
    piecesFrom p skip t ≠ []
  | _, [] => List.cons_ne_nil _ _
  | skip + 1, _ :: t => piecesFrom_ne_nil p skip t
  | 0, c :: t => by
    rw [piecesFrom]
    split
    · exact List.cons_ne_nil _ _
    · rcases piecesFrom p 0 t with _ | ⟨piece, rest⟩ <;> exact List.cons_ne_nil _ _

theorem piecesFrom_append (p : List Char) : ∀ s t : List Char,
    piecesFrom p s.length (s ++ t) = piecesFrom p 0 t
  | [], _ => rfl
  | _ :: s, t => piecesFrom_append p s t

theorem piecesFrom_prefix (hp : p ≠ []) (t : List Char) :
    piecesFrom p 0 (p ++ t) = [] :: piecesFrom p 0 t := by
  obtain ⟨c, cs, rfl⟩ := List.exists_cons_of_ne_nil hp
  have hc : (c :: cs).isPrefixOf (c :: (cs ++ t)) = true :=
    List.isPrefixOf_iff_prefix.2 (List.prefix_append (c :: cs) t)
  rw [List.cons_append, piecesFrom, if_pos hc]
  exact congrArg _ (piecesFrom_append _ cs t)

theorem piecesFrom_cons {c : Char} {t : List Char} (h : ¬ p <+: c :: t) :
    piecesFrom p 0 (c :: t) = extendHead c (piecesFrom p 0 t) := by
  rw [piecesFrom, if_neg fun hp => h (List.isPrefixOf_iff_prefix.1 hp)]

/-- Where the first character of a pattern is not, the pattern is not either. -/
theorem piecesFrom_append_of_not_mem {c : Char} (cs t : List Char) :
    ∀ {s : List Char}, c ∉ s → piecesFrom (c :: cs) 0 (s ++ t)
      = s.foldr extendHead (piecesFrom (c :: cs) 0 t)
  | [], _ => rfl
  | d :: s, h => by
    rw [List.mem_cons, not_or] at h
    have hd : ¬ c :: cs <+: d :: (s ++ t) := fun hp => h.1 (List.cons_prefix_cons.1 hp).1
    rw [List.cons_append, piecesFrom_cons hd, piecesFrom_append_of_not_mem cs t h.2]
    rfl

theorem foldr_extendHead (piece : List Char) (rest : List (List Char)) : ∀ s : List Char,
    s.foldr extendHead (piece :: rest) = (s ++ piece) :: rest
  | [] => rfl
  | c :: s => by
    rw [List.foldr_cons, foldr_extendHead piece rest s]
    rfl

/-- An occurrence between two texts without its first character is the only one. -/
theorem pieces_between {c : Char} {cs s t : List Char} (hs : c ∉ s) (ht : c ∉ t) :
    pieces (c :: cs) (s ++ c :: cs ++ t) = [s, t] := by
  have hrest := piecesFrom_append_of_not_mem cs [] ht
  rw [List.append_nil, piecesFrom, foldr_extendHead, List.append_nil] at hrest
  rw [pieces, if_neg (List.cons_ne_nil c cs), List.append_assoc,
    piecesFrom_append_of_not_mem cs _ hs, piecesFrom_prefix (List.cons_ne_nil c cs),
    foldr_extendHead, List.append_nil, hrest]

theorem replaced_of_pieces {t before after : List Char} (h : pieces p t = [before, after])
    (r : List Char) : replaced p r t = before ++ r ++ after := by
  rw [replaced, h, List.intercalate_cons_cons]
  simp [List.intercalate]

theorem intercalate_extendHead (r : List Char) (c : Char) : ∀ {ps : List (List Char)}, ps ≠ [] →
    r.intercalate (extendHead c ps) = c :: r.intercalate ps
  | [], h => absurd rfl h
  | [_], _ => by simp [extendHead, List.intercalate]
  | _ :: _ :: _, _ => by simp [extendHead, List.intercalate_cons_cons]

section Replaced

variable (hp : p ≠ []) (r : List Char)
include hp

theorem replaced_eq (t : List Char) : replaced p r t = r.intercalate (piecesFrom p 0 t) := by
  rw [replaced, pieces, if_neg hp]

theorem replaced_nil : replaced p r [] = [] := replaced_eq hp r []

theorem replaced_prefix (t : List Char) : replaced p r (p ++ t) = r ++ replaced p r t := by
  obtain ⟨piece, rest, hps⟩ := List.exists_cons_of_ne_nil (piecesFrom_ne_nil p 0 t)
  rw [replaced_eq hp, replaced_eq hp, piecesFrom_prefix hp, hps, List.intercalate_cons_cons,
    List.nil_append]

theorem replaced_cons {c : Char} {t : List Char} (h : ¬ p <+: c :: t) :
    replaced p r (c :: t) = c :: replaced p r t := by
  rw [replaced_eq hp, replaced_eq hp, piecesFrom_cons h,
    intercalate_extendHead r c (piecesFrom_ne_nil p 0 t)]

theorem replaced_pattern : replaced p r p = r := by
  have h := replaced_prefix hp r []
  rwa [List.append_nil, replaced_nil hp, List.append_nil] at h

theorem replaced_of_absent : ∀ {t : List Char}, ¬ p <:+: t → replaced p r t = t
  | [], _ => replaced_nil hp r
  | c :: t, h => by
    rw [List.infix_cons_iff, not_or] at h
    rw [replaced_cons hp r h.1, replaced_of_absent h.2]

/-- If no occurrence runs over a character into what follows it, the texts on both sides of it are
replaced each on its own. -/
theorem replaced_append_cons {c : Char} {b : List Char} (h : ∀ u v, p = u ++ c :: v → ¬ v <+: b) :
    ∀ a : List Char, replaced p r (a ++ c :: b) = replaced p r a ++ c :: replaced p r b
  | [] => by
    have hc : ¬ p <+: c :: b := by
      obtain ⟨d, v, rfl⟩ := List.exists_cons_of_ne_nil hp
      rw [List.cons_prefix_cons]
      rintro ⟨rfl, hv⟩
      exact h [] v rfl hv
    rw [List.nil_append, replaced_cons hp r hc, replaced_nil hp, List.nil_append]
  | d :: a => by
    by_cases ha : p <+: d :: a
    · obtain ⟨rest, hrest⟩ := ha
      have hlt : rest.length < (d :: a).length := by
        have := List.length_pos_of_ne_nil hp
        rw [← hrest, List.length_append]
        omega
      rw [← hrest, List.append_assoc, replaced_prefix hp, replaced_prefix hp,
        replaced_append_cons h rest, List.append_assoc]
    · -- an occurrence at this place that is not over before the character runs over it
      have hab : ¬ p <+: d :: (a ++ c :: b) := by
        rintro ⟨rest, hrest⟩
        rcases List.append_eq_append_iff.1 (hrest.trans (List.cons_append ..).symm) with
          ⟨s, hs, -⟩ | ⟨s, hs, hv⟩
        · exact ha ⟨s, hs.symm⟩
        · rcases s with _ | ⟨e, v⟩
          · exact ha ⟨[], by rw [hs, List.append_nil, List.append_nil]⟩
          · obtain ⟨rfl, hb⟩ := List.cons.inj hv
            exact h (d :: a) v hs ⟨rest, hb.symm⟩
      rw [List.cons_append, replaced_cons hp r hab, replaced_append_cons h a, replaced_cons hp r ha,
        List.cons_append]
termination_by a => a.length
decreasing_by all_goals simp only [List.length_cons] at *; omega

omit r in
theorem replaced_self : ∀ t : List Char, replaced p p t = t
  | [] => replaced_nil hp p
  | c :: t => by
    by_cases h : p <+: c :: t
    · obtain ⟨rest, hrest⟩ := h
      have hlt : rest.length < (c :: t).length := by
        have := List.length_pos_of_ne_nil hp
        rw [← hrest, List.length_append]
        omega
      rw [← hrest, replaced_prefix hp, replaced_self rest]
    · rw [replaced_cons hp p h, replaced_self t]
termination_by t => t.length
decreasing_by all_goals simp only [List.length_cons] at *; omega

end Replaced

/-- A text with one occurrence of a pattern is cut in two by it. -/
theorem exists_replaced_of_occurrences {p t : String} (hp : p.toList ≠ [])
    (h : occurrences p t = 1) : ∃ before after : List Char,
      t.toList = before ++ p.toList ++ after ∧
        ∀ r, (replaceAll p r t).toList = before ++ r.toList ++ after := by
  obtain ⟨before, after, hps⟩ : ∃ before after, pieces p.toList t.toList = [before, after] := by
    rw [occurrences] at h
    exact List.length_eq_two.1 (by omega)
  have hr := replaced_of_pieces hps
  refine ⟨before, after, ?_, fun r => (toList_replaceAll p r t).trans (hr r.toList)⟩
  rw [← hr, replaced_self hp]

end SpectralAlgebra.Text
