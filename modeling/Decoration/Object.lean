import Decoration.Capability
import Decoration.Fault
import Decoration.Properties

/-! A heap object and the definition of its own properties. -/

namespace Decoration

inductive ObjectKind where
  | ordinary
  | function (capability : Capability)
  | classValue (name : String)
deriving DecidableEq, Repr

structure Object where
  kind : ObjectKind := .ordinary
  prototype : Option ObjectId := none
  extensible : Bool := true
  properties : Properties := {}
deriving DecidableEq, Repr

namespace Object

/-- What a name stands for that was never created: nothing can be written to it. -/
def absent : Object := { extensible := false }

instance : Inhabited Object := ⟨absent⟩

def capability? (o : Object) : Option Capability :=
  match o.kind with
  | .function capability => some capability
  | _ => none

def className? (o : Object) : Option String :=
  match o.kind with
  | .classValue name => some name
  | _ => none

def insert (o : Object) (key : String) (d : Descriptor) : Object :=
  { o with properties := o.properties.insert key d }

def define (o : Object) (key : String) (d : Descriptor) : Except Fault Object :=
  match o.properties.find? key with
  | some current =>
    if current.configurable || current.redefinable d then .ok (o.insert key d)
    else .error (.type (.redefinition key))
  | none =>
    if o.extensible then .ok (o.insert key d) else .error (.type (.notExtensible key))

end Object
end Decoration
