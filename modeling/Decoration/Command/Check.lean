import Decoration.Command.Transcript

/-! Checking a manifest without evaluating it. -/

namespace Decoration

namespace Command

structure Summary where
  classes : Nat := 0
  objects : Nat := 0
  decorators : Nat := 0
deriving DecidableEq, Repr

namespace Summary

def add (s : Summary) (d : Declaration) : Summary :=
  let decorators := s.decorators + d.decoratorCount
  match d with
  | .ofClass _ => { s with classes := s.classes + 1, decorators }
  | .ofLiteral .. => { s with objects := s.objects + 1, decorators }

def text (s : Summary) : String :=
  toString s.classes ++ " class(es), " ++ toString s.objects ++ " object(s), " ++
    toString s.decorators ++ " decorator(s)"

end Summary

def summarize (m : Manifest) : Except BuildFault Summary :=
  m.declarations.foldlM (fun s spec => spec.build.map s.add) {}

end Command

def Manifest.check (path : Path) (m : Manifest) : Command.Transcript :=
  match Command.summarize m with
  | .ok s => { out := [Terminal.plain (path.text ++ ": " ++ s.text ++ "\n")] }
  | .error fault => { failure := some (.build fault) }

end Decoration
