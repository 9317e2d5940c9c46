import SpectralAlgebra.Evaluation

/-!
# Combining bin values

Two arrays of bin values are combined element by element, four lanes at a time, and the elements
left over singly. Arrays of different lengths are refused.
-/

namespace SpectralAlgebra

structure Lanes (V : Type) where
  first : V
  second : V
  third : V
  fourth : V

namespace Lanes

variable {V : Type}

def zip (f : V → V → V) (a b : Lanes V) : Lanes V :=
  ⟨f a.first b.first, f a.second b.second, f a.third b.third, f a.fourth b.fourth⟩

def toList (a : Lanes V) : List V := [a.first, a.second, a.third, a.fourth]

/-- Cuts an array into fours; fewer than four values are left over. -/
def split : List V → List (Lanes V) × List V
  | a :: b :: c :: d :: rest =>
    let (fours, left) := split rest
    (⟨a, b, c, d⟩ :: fours, left)
  | left => ([], left)

end Lanes

namespace Bins

variable {V : Type}

/-- Combines two arrays lane by lane and then what is left over of both. -/
def zip (f : V → V → V) (xs ys : List V) : List V :=
  let (xFours, xLeft) := Lanes.split xs
  let (yFours, yLeft) := Lanes.split ys
  (List.zipWith (Lanes.zip f) xFours yFours).flatMap Lanes.toList ++ List.zipWith f xLeft yLeft

/-- Taken together, the fours and what is left over are the elements in order. -/
theorem zip_eq_zipWith (f : V → V → V) :
    ∀ xs ys : List V, xs.length = ys.length → zip f xs ys = List.zipWith f xs ys
  | a :: b :: c :: d :: xs, a' :: b' :: c' :: d' :: ys, h => by
    have ih := zip_eq_zipWith f xs ys (by simpa using h)
    simp only [zip] at ih
    simp only [zip, Lanes.split, List.zipWith_cons_cons, List.flatMap_cons, Lanes.zip,
      Lanes.toList, List.cons_append, List.nil_append, ih]
  | [], [], _ => rfl
  | [_], [_], _ => rfl
  | [_, _], [_, _], _ => rfl
  | [_, _, _], [_, _, _], _ => rfl

def combine [Add V] [Mul V] (o : Operator) (xs ys : List V) : Outcome (List V) :=
  if xs.length = ys.length then .ok (zip o.apply xs ys)
  else .error (.shapeMismatch xs.length ys.length)

end Bins

end SpectralAlgebra
