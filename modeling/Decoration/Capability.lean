import Decoration.Value

/-! What stands behind a function object. -/

namespace Decoration

structure MemoId where
  index : Nat
deriving DecidableEq, Repr, Inhabited

inductive Edit where
  | readonly
  | nonenumerable
  | enumerable
  | nonconfigurable
  | provide
  | memoize (memo : MemoId)
  | deprecated
deriving DecidableEq, Repr

inductive Mark where
  | annotated
  | isTestable
deriving DecidableEq, Repr

/-- A native function is the host's, who knows it by its code. A wrapper holds the function that it
wraps. -/
inductive Capability where
  | native (name : String) (code : Nat)
  | constant (name : String) (result : Value)
  | edit (edit : Edit)
  | mark (mark : Mark)
  | memoized (key : String) (memo : MemoId) (site : Nat) (wrapped : Value)
  | deprecated (key message : String) (wrapped : Value)
deriving DecidableEq, Repr

namespace Edit

def name : Edit → String
  | readonly => "readonly"
  | nonenumerable => "nonenumerable"
  | enumerable => "enumerable"
  | nonconfigurable => "nonconfigurable"
  | provide => "provide"
  | memoize _ => "memoize"
  | deprecated => "deprecate"

end Edit

namespace Mark

def name : Mark → String
  | annotated => "annotation"
  | isTestable => "isTestable"

end Mark

namespace Capability

def name : Capability → String
  | native name _ => name
  | constant name _ => name
  | edit e => e.name
  | mark m => m.name
  | memoized key .. => "memoized " ++ key
  | deprecated key .. => "deprecated " ++ key

end Capability
end Decoration
