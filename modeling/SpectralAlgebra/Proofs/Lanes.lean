import SpectralAlgebra.Proofs.Meaning

/-!
# Four at a time

An array is cut into as many fours as it has, with fewer than four values left over, and nothing of
it is lost, repeated or moved (`Lanes.split_cuts`). So two arrays of one length are cut at the same
places, what is computed four lanes at a time and what is computed singly are a cut of the result
(`Bins.zip_cuts`), and this is the plain loop over the elements (`Bins.combine_elementwise`).
-/

namespace SpectralAlgebra

variable {V : Type}

namespace Lanes

/-- The fours and what is left over are the array in order, and there are as many fours as fit. -/
structure Cuts (xs : List V) (fours : List (Lanes V)) (left : List V) : Prop where
  joined : fours.flatMap toList ++ left = xs
  length_fours : fours.length = xs.length / 4
  length_left : left.length = xs.length % 4

theorem split_cuts : ∀ xs : List V, Cuts xs (split xs).1 (split xs).2
  | a :: b :: c :: d :: rest => by
    obtain ⟨hjoined, hfours, hleft⟩ := split_cuts rest
    refine ⟨?_, ?_, ?_⟩
    · exact congrArg (fun l => a :: b :: c :: d :: l) hjoined
    · simp only [split, List.length_cons, hfours]
      omega
    · simp only [split, List.length_cons, hleft]
      omega
  | [] | [_] | [_, _] | [_, _, _] => by constructor <;> simp [split]

end Lanes

namespace Bins

theorem zip_cuts (f : V → V → V) {xs ys : List V} (h : xs.length = ys.length) :
    Lanes.Cuts (zip f xs ys)
      (List.zipWith (Lanes.zip f) (Lanes.split xs).1 (Lanes.split ys).1)
      (List.zipWith f (Lanes.split xs).2 (Lanes.split ys).2) := by
  have hx := Lanes.split_cuts xs
  have hy := Lanes.split_cuts ys
  have hlen : (zip f xs ys).length = ys.length := by
    rw [zip_eq_zipWith f xs ys h, List.length_zipWith, h, Nat.min_self]
  refine ⟨rfl, ?_, ?_⟩
  · rw [List.length_zipWith, hx.length_fours, hy.length_fours, h, Nat.min_self, hlen]
  · rw [List.length_zipWith, hx.length_left, hy.length_left, h, Nat.min_self, hlen]

/-- Arrays of different lengths are refused and nothing else is. Of two arrays of one length the
fours and what is left over give one value for each place, made of the two that stand there. -/
theorem combine_elementwise [Add V] [Mul V] (o : Operator) (xs ys : List V) :
    ((∃ e, combine o xs ys = .error e) ↔ xs.length ≠ ys.length) ∧
    (∀ e, combine o xs ys = .error e → e = .shapeMismatch xs.length ys.length) ∧
    (xs.length = ys.length → ∃ zs, combine o xs ys = .ok zs ∧ zs.length = xs.length ∧
      (∀ i (hx : i < xs.length) (hy : i < ys.length), zs[i]? = some (o.apply xs[i] ys[i])) ∧
      Lanes.Cuts zs (List.zipWith (Lanes.zip o.apply) (Lanes.split xs).1 (Lanes.split ys).1)
        (List.zipWith o.apply (Lanes.split xs).2 (Lanes.split ys).2)) := by
  refine ⟨⟨?_, ?_⟩, ?_, ?_⟩
  · rintro ⟨e, he⟩ h
    rw [combine_eq, if_pos h] at he
    cases he
  · exact fun h => ⟨_, by rw [combine_eq, if_neg h]⟩
  · intro e he
    rw [combine_eq] at he
    split at he
    · cases he
    · exact (Except.error.inj he).symm
  · intro h
    refine ⟨zip o.apply xs ys, by rw [combine, if_pos h], ?_, fun i hx hy => ?_, zip_cuts _ h⟩
    · rw [zip_eq_zipWith _ xs ys h, List.length_zipWith, h, Nat.min_self]
    · rw [zip_eq_zipWith _ xs ys h, List.getElem?_zipWith, List.getElem?_eq_getElem hx,
        List.getElem?_eq_getElem hy]

/-- One four and three values left over. -/
theorem combine_elementwise_seven : ([1, 2, 3, 4, 5, 6, 7] : List Int).length
      = [10, 20, 30, 40, 50, 60, 70].length ∧
    ∃ zs, combine .mul ([1, 2, 3, 4, 5, 6, 7] : List Int) [10, 20, 30, 40, 50, 60, 70] = .ok zs ∧
      zs[3]? = some 160 ∧ zs[6]? = some 490 := by
  obtain ⟨zs, hzs, -, hget, -⟩ := (combine_elementwise .mul ([1, 2, 3, 4, 5, 6, 7] : List Int)
    [10, 20, 30, 40, 50, 60, 70]).2.2 rfl
  exact ⟨rfl, zs, hzs, hget 3 (by decide) (by decide), hget 6 (by decide) (by decide)⟩

end Bins

end SpectralAlgebra
