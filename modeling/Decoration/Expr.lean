import Decoration.Text.Quoted
import Decoration.Number.Decimal

/-! The expressions that may stand in decorator and argument position, and their text. -/

namespace Decoration

inductive Literal where
  | undefined
  | null
  | bool (value : Bool)
  | number (value : Number)
  | string (value : String)
deriving DecidableEq, Repr

inductive Expr where
  | literal (value : Literal)
  | identifier (name : String)
  | member (object : Expr) (property : String)
deriving DecidableEq, Repr

namespace Literal

def text : Literal → String
  | undefined => "undefined"
  | null => "null"
  | bool value => if value then "true" else "false"
  | number value => value.text
  | string value => Text.quote value

def equal : Literal → Literal → Bool
  | number a, number b => a.numericEq b
  | a, b => a = b

end Literal

namespace Expr

def text : Expr → String
  | literal value => value.text
  | identifier name => name
  | member object property => object.text ++ "." ++ property

def equal : Expr → Expr → Bool
  | literal a, literal b => a.equal b
  | identifier a, identifier b => a == b
  | member a p, member b q => equal a b && p == q
  | _, _ => false

def segments : List Char → List Char × List (List Char)
  | [] => ([], [])
  | c :: rest =>
    let (first, others) := segments rest
    if c = '.' then ([], first :: others) else (c :: first, others)

/-- The expression that a dotted path denotes: an identifier and then one member for each dot. -/
def path (s : String) : Expr :=
  let (first, others) := segments s.toList
  others.foldl (fun object property => member object (String.ofList property))
    (identifier (String.ofList first))

end Expr

structure DecoratorExpr where
  callee : Expr
  arguments : List Expr := []
deriving DecidableEq, Repr

namespace DecoratorExpr

def label (d : DecoratorExpr) : String :=
  "@" ++ d.callee.text ++
    if d.arguments.isEmpty then "" else "(" ++ ", ".intercalate (d.arguments.map Expr.text) ++ ")"

end DecoratorExpr
end Decoration
