import Decoration.Value

/-! Property descriptors: a data property with its value, or an accessor with its halves. -/

namespace Decoration

inductive Descriptor where
  | data (value : Value) (writable enumerable configurable : Bool)
  | accessor (getter setter : Option Value) (enumerable configurable : Bool)
deriving DecidableEq, Repr, Inhabited

namespace Descriptor

def ordinary (value : Value) : Descriptor := data value true true true

def enumerable : Descriptor → Bool
  | data _ _ e _ | accessor _ _ e _ => e

def configurable : Descriptor → Bool
  | data _ _ _ c | accessor _ _ _ c => c

def writable? : Descriptor → Option Bool
  | data _ w _ _ => some w
  | accessor .. => none

def value? : Descriptor → Option Value
  | data v _ _ _ => some v
  | accessor .. => none

def setEnumerable (flag : Bool) : Descriptor → Descriptor
  | data v w _ c => data v w flag c
  | accessor g s _ c => accessor g s flag c

def setConfigurable (flag : Bool) : Descriptor → Descriptor
  | data v w e _ => data v w e flag
  | accessor g s e _ => accessor g s e flag

def setWritable (flag : Bool) : Descriptor → Descriptor
  | data v _ e c => data v flag e c
  | d => d

def setValue (value : Value) : Descriptor → Descriptor
  | data _ w e c => data value w e c
  | d => d

def shapeName : Descriptor → String
  | data .. => "value"
  | accessor .. => "accessor"

/-- What a property that is not configurable accepts in its place: nothing new to be seen, except
that a writable value may change and `writable` may be cleared. -/
def redefinable (current new : Descriptor) : Bool :=
  !new.configurable && new.enumerable == current.enumerable &&
    match current, new with
    | data v w _ _, data v' w' _ _ => w || (!w' && v.same v')
    | accessor g s _ _, accessor g' s' _ _ => g = g' && s = s'
    | _, _ => false

def boolText (b : Bool) : String := if b then "true" else "false"

def render (text : Value → String) : Descriptor → String
  | data v w e c =>
    "\x7b value: " ++ text v ++ ", writable: " ++ boolText w ++ ", enumerable: " ++ boolText e ++
      ", configurable: " ++ boolText c ++ " \x7d"
  | accessor g s e c =>
    "\x7b get: " ++ g.elim "none" text ++ ", set: " ++ s.elim "none" text ++ ", enumerable: " ++
      boolText e ++ ", configurable: " ++ boolText c ++ " \x7d"

end Descriptor
end Decoration
