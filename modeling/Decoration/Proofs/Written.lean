import Decoration.Declaration
import Decoration.Proofs.Pairing
import Decoration.Target
import Mathlib.Data.List.Perm.Basic
import Mathlib.Data.List.Perm.Subperm

/-! The decorators of a declaration as they are written, and the order of their turns: the units of a
class come in their order, its own decorators last, and each list goes from the bottom up. -/

namespace Decoration

/-- A written decorator and the place where it stands. -/
structure Written where
  label : String
  name : Option String
  kind : TargetKind
  discipline : Discipline
  position : Nat
deriving DecidableEq, Repr

namespace Written

def ofList (name : Option String) (kind : TargetKind) (discipline : Discipline)
    (list : List DecoratorExpr) : List Written :=
  list.zipIdx.map fun (d, position) => ⟨d.label, name, kind, discipline, position⟩

theorem length_ofList (name : Option String) (kind : TargetKind) (discipline : Discipline)
    (list : List DecoratorExpr) : (ofList name kind discipline list).length = list.length := by
  rw [ofList, List.length_map, List.length_zipIdx]

end Written

def TargetKind.ofStatic (isStatic : Bool) : TargetKind := if isStatic then constructor else prototype

def ElementUnit.written (u : ElementUnit) : List Written :=
  Written.ofList (some u.name) (.ofStatic u.isStatic) .mutation u.decorators

def ClassElement.written (e : ClassElement) : List Written :=
  Written.ofList (some e.name) (.ofStatic e.isStatic) .mutation e.decorators

def LiteralProperty.written (p : LiteralProperty) : List Written :=
  Written.ofList (some p.key) .object .fallback p.decorators

namespace ElementUnit

end ElementUnit

namespace Declaration

def written : Declaration → List Written
  | .ofClass decl =>
    Written.ofList none .constructor .mutation decl.decorators ++
      decl.elements.flatMap ClassElement.written
  | .ofLiteral _ literal => literal.properties.flatMap LiteralProperty.written

def turns : Declaration → List Written
  | .ofClass decl =>
    match ElementUnit.ofElements decl.elements with
    | .ok units =>
      units.flatMap (·.written.reverse) ++
        (Written.ofList none .constructor .mutation decl.decorators).reverse
    | .error _ => []
  | .ofLiteral _ literal => literal.properties.flatMap (·.written.reverse)

end Declaration
end Decoration
