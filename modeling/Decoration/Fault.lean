/-! What can go wrong in the object model or in a capability. -/

namespace Decoration

inductive TypeFault where
  | redefinition (key : String)
  | notExtensible (key : String)
  | getterOnly (key : String)
  | readOnly (key : String)
  | notFunction (text : String)
  | notConstructor (text : String)
  | notClass
  | noPrototype (className : String)
  | noMembers (text property : String)
  | notDescription (text : String)
  | notAccessorHalf (text : String)
  | mixedDescription
  | notMethod (key : String)
  | notMethodOrGetter (key : String)
  | notClassTarget (decorator : String)
  | raised (message : String)
deriving DecidableEq, Repr

inductive ReferenceFault where
  | unbound (name : String)
  | raised (message : String)
deriving DecidableEq, Repr

/-- A failure, by kind; `thrown` is one that a capability raises on its own account. -/
inductive Fault where
  | type (fault : TypeFault)
  | reference (fault : ReferenceFault)
  | thrown (message : String)
deriving DecidableEq, Repr

namespace TypeFault

def message : TypeFault → String
  | redefinition key => "Cannot redefine property: " ++ key
  | notExtensible key => "Cannot define property " ++ key ++ ", object is not extensible"
  | getterOnly key => "Cannot set property " ++ key ++ " which has only a getter"
  | readOnly key => "Cannot assign to read only property '" ++ key ++ "'"
  | notFunction text => text ++ " is not a function"
  | notConstructor text => text ++ " is not a constructor"
  | notClass => "value is not a constructor"
  | noPrototype className => "class " ++ className ++ " has no prototype object"
  | noMembers text property =>
    "Cannot read properties of " ++ text ++ " (reading '" ++ property ++ "')"
  | notDescription text => "Property description must be an object: " ++ text
  | notAccessorHalf text => "Getter or setter must be a function: " ++ text
  | mixedDescription =>
    "Invalid property descriptor. Cannot both specify accessors and a value or writable attribute"
  | notMethod key => "@deprecate can only decorate a method ('" ++ key ++ "')"
  | notMethodOrGetter key => "@memoize can only decorate a method or getter ('" ++ key ++ "')"
  | notClassTarget decorator => "@" ++ decorator ++ " can only decorate a class"
  | raised message => message

end TypeFault

namespace ReferenceFault

def message : ReferenceFault → String
  | unbound name => name ++ " is not defined"
  | raised message => message

end ReferenceFault

namespace Fault

def kindName : Fault → String
  | type _ => "TypeError"
  | reference _ => "ReferenceError"
  | thrown _ => "Thrown"

def message : Fault → String
  | type fault => "TypeError: " ++ fault.message
  | reference fault => "ReferenceError: " ++ fault.message
  | thrown message => message

end Fault
end Decoration
