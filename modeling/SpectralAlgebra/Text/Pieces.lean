/-!
# Replacing text

A text is cut at the leftmost, non-overlapping occurrences of a pattern into its `pieces`; one more
piece than there are occurrences. Replacing joins the pieces with something else between them, and
counting occurrences counts the cuts, so both see the same occurrences.
-/

namespace SpectralAlgebra.Text

def extendHead (c : Char) : List (List Char) → List (List Char)
  | [] => [[c]]
  | piece :: pieces => (c :: piece) :: pieces

/-- The pieces of a text, of which the first `skip` characters belong to an occurrence already
found. -/
def piecesFrom (pattern : List Char) : Nat → List Char → List (List Char)
  | _, [] => [[]]
  | skip + 1, _ :: text => piecesFrom pattern skip text
  | 0, c :: text =>
    if pattern.isPrefixOf (c :: text) then [] :: piecesFrom pattern (pattern.length - 1) text
    else extendHead c (piecesFrom pattern 0 text)

/-- The parts of a text around the occurrences of a pattern, read from the left. The empty pattern
occurs before every character and at the end. -/
def pieces (pattern text : List Char) : List (List Char) :=
  if pattern = [] then [] :: (text.map fun c => [c]) ++ [[]] else piecesFrom pattern 0 text

/-- How often a pattern occurs in a text without overlap. -/
def occurrences (pattern text : String) : Nat :=
  (pieces pattern.toList text.toList).length - 1

/-- Every occurrence of the pattern in the text is written as the replacement. What is written in
is not searched again. -/
def replaceAll (pattern replacement text : String) : String :=
  String.ofList (replacement.toList.intercalate (pieces pattern.toList text.toList))

end SpectralAlgebra.Text
