import SpectralAlgebra.Leaf
import SpectralAlgebra.Operator

/-!
# Expressions

Parameters and models are expressions of one form: leaves combined by `+` and `*`. An operation
remembers what the composition of its operands was resolved to. Expressions may share parts; a
shared part has the same identities wherever it stands.

A composite is rendered from its operands, with parentheses around a sum under a product and
nowhere else.
-/

namespace SpectralAlgebra

inductive Expr (D R : Type) where
  | leaf (l : Leaf D)
  | op (id : NodeId) (operator : Operator) (resolution : R) (lh rh : Expr D R)

namespace Expr

variable {D R : Type}

def id : Expr D R → NodeId
  | leaf l => l.id
  | op id .. => id

def isOperation : Expr D R → Bool
  | leaf _ => false
  | op .. => true

def isSum : Expr D R → Bool
  | op _ .add .. => true
  | _ => false

def operands : Expr D R → List (Expr D R)
  | leaf _ => []
  | op _ _ _ lh rh => [lh, rh]

/-- The leaves from left to right, repeated where they are shared. -/
def leaves : Expr D R → List (Leaf D)
  | leaf l => [l]
  | op _ _ _ lh rh => leaves lh ++ leaves rh

/-- The number of leaves and operations, counted wherever they stand. -/
def size : Expr D R → Nat
  | leaf _ => 1
  | op _ _ _ lh rh => size lh + size rh + 1

/-- The leaves under a stack of expressions. What is on top is taken off: a leaf is put out, and an
operation leaves its operands on the stack, the left one on top. -/
@[semireducible]
def visit : List (Expr D R) → List (Leaf D)
  | [] => []
  | leaf l :: stack => l :: visit stack
  | op _ _ _ lh rh :: stack => visit (lh :: rh :: stack)
termination_by stack => stack.foldr (fun e n => e.size + n) 0
decreasing_by all_goals simp only [List.foldr_cons, size]; omega

/-- What a stack holds comes out from top to bottom, and each expression's leaves from left to
right. -/
theorem visit_eq (stack : List (Expr D R)) : visit stack = stack.flatMap leaves := by
  fun_induction visit stack with
  | case1 => rfl
  | case2 stack l ih => rw [ih, List.flatMap_cons, leaves, List.singleton_append]
  | case3 stack id o r lh rh ih =>
    rw [ih]
    simp only [List.flatMap_cons, leaves, List.append_assoc]

/-- A label in parentheses if it is a sum's and stands under a product. -/
def enclose (o : Operator) (operand : Expr D R) (label : String) : String :=
  if o = .mul ∧ operand.isSum then "(" ++ label ++ ")" else label

/-- The text of an expression, given the text of a leaf and of an operator before its left
operand. -/
def render (label : Leaf D → String) (sign : Operator → Expr D R → String) : Expr D R → String
  | leaf l => label l
  | op _ o _ lh rh =>
    enclose o lh (render label sign lh) ++ " " ++ sign o lh ++ " "
      ++ enclose o rh (render label sign rh)

def name (e : Expr D R) : String := e.render Leaf.taggedName fun o _ => o.symbol

def plainName (e : Expr D R) : String := e.render Leaf.name fun o _ => o.symbol

/-- The attributes in effect. Operations are made without any. -/
def attributes (edits : Edits) (e : Expr D R) : Attributes :=
  (edits.attributes.get? e.id).getD <| match e with
    | leaf l => l.attributes
    | op .. => ∅

end Expr

end SpectralAlgebra
