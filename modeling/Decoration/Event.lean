import Decoration.Heap
import Decoration.Report

/-! What happens in a run, in order. An event is kept with the heap of its moment, since the text of a
value may change later. -/

namespace Decoration

structure Decorator where
  label : String
  capability : Capability
  extra : List Value
deriving DecidableEq, Repr

inductive Discipline where
  | mutation
  | fallback
deriving DecidableEq, Repr

def Discipline.text : Discipline → String
  | mutation => "mutation"
  | fallback => "fallback"

/-- What is observed right before a decorator is constructed. The descriptor is a copy of what a
member chain shares at that moment, the accumulator the running value of a fallback chain, and the
position counts the written list from the top. -/
structure Invocation where
  decorator : Decorator
  target : Target
  name : Option String
  descriptor : Option Descriptor
  accumulator : Option Value
  discipline : Discipline
  position : Nat
deriving DecidableEq, Repr

/-- A remark is the host's own. -/
inductive Event where
  | invocation (record : Invocation)
  | construction (decorator : Decorator) (arguments : List Value)
  | definition (target : ObjectId) (key : String) (descriptor : Descriptor)
  | readBack (target : ObjectId) (key : String)
  | report (report : Report)
  | remark (topic : Option String) (values : List Value)
deriving DecidableEq, Repr

structure Moment where
  heap : Heap
  event : Event
deriving DecidableEq, Repr

end Decoration
