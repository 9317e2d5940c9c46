import SpectralAlgebra.Site

/-!
# The order of evaluation

A deterministic site is evaluated after the deterministic sites it depends on. The order is found
in two passes. The first walks depth-first from every site to the sites that use it and places a
site in front once all its users are placed. On sites without a cycle that is an order already. The
second pass walks the other way from every site in that order, over what no earlier walk has met: a
walk that meets more than the site it starts from has met a site on a cycle. A site that depends on
itself is found by the first pass.
-/

namespace SpectralAlgebra

namespace Site

/-- The deterministic sites that depend on `x`, each as often as it lists it. -/
def users (s : Site) (x : String) : List String :=
  s.deterministic.entries.flatMap fun e =>
    (e.2.dependencies.filter (· = x)).map fun _ => e.1

/-- The dependencies of `x` that are deterministic sites, as it lists them. -/
def requirements (s : Site) (x : String) : List String :=
  match s.deterministic.get? x with
  | none => []
  | some d => d.dependencies.filter s.deterministic.contains

/-- The depth-first walk. `pending` holds the names not yet met, and the top of the stack is met
when it is pending: its pending users go on top of it. When it is met a second time, all of them
have been placed and it is placed in front. -/
def place (users : String → List String) (pending stack placed : List String) :
    Except String (List String) :=
  match stack with
  | [] => .ok placed
  | x :: rest =>
    if x ∈ pending then
      if x ∈ users x then .error x
      else
        let pending' := pending.erase x
        place users pending' ((users x).filter (· ∈ pending') ++ x :: rest) placed
    else place users pending rest (if x ∈ placed then placed else x :: placed)
termination_by (pending.length, stack.length)
decreasing_by
  · rename_i h _
    have := List.length_erase_of_mem h
    have := List.length_pos_of_mem h
    exact Prod.Lex.left _ _ (by omega)
  · exact Prod.Lex.right _ (by simp)

/-- One step of a walk to requirements: the first name on the stack that has not been met is met,
and its requirements not yet met go on top. -/
def meetNext (requirements : String → List String) (met : List String) :
    List String → Option (String × List String × List String)
  | [] => none
  | x :: rest =>
    if x ∈ met then meetNext requirements met rest
    else some (x, x :: met, (requirements x).filter (· ∉ x :: met) ++ rest)

/-- Walks to requirements from one name after the other until a walk meets a second name. -/
def secondMet (requirements : String → List String) : List String → List String → Option String
  | _, [] => none
  | met, x :: rest =>
    match meetNext requirements met [x] with
    | none => secondMet requirements met rest
    | some (_, met', stack) =>
      match meetNext requirements met' stack with
      | some (y, _, _) => some y
      | none => secondMet requirements met' rest

/-- The deterministic names, each after the deterministic names it depends on, or a name on a
cycle. -/
def order (s : Site) : Except SiteError (List String) :=
  match place s.users s.deterministic.keys s.deterministic.keys [] with
  | .error x => .error (.cycle x)
  | .ok names =>
    match secondMet s.requirements [] names with
    | some y => .error (.cycle y)
    | none => .ok names

end Site

end SpectralAlgebra
