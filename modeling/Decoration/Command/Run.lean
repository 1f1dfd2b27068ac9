import Decoration.Capability.Response
import Decoration.Command.Transcript
import Decoration.Engine.Literal
import Decoration.Listing

/-! Running a manifest: its declarations are evaluated in order, each with a listing, up to the first
that fails. -/

namespace Decoration

def Invocation.text (h : Heap) (i : Invocation) : String :=
  i.decorator.label ++ i.name.elim "" (" " ++ ·) ++ " on " ++ h.describe i.target.object ++ " (" ++
    i.discipline.text ++ ")"

namespace Command

def traceLines (events : List Moment) : List Terminal.Piece :=
  events.filterMap fun moment =>
    match moment.event with
    | .invocation record =>
      some (Terminal.colored .yellow ("  -> " ++ record.text moment.heap ++ "\n"))
    | _ => none

def listing (h : Heap) (id : ObjectId) : Declaration → Listing
  | .ofClass decl => .ofClass h decl.name id
  | .ofLiteral name _ => .ofObject h name id

def runAll (e : Engine Unit) (traced : Bool) :
    List DeclarationSpec → Environment → World Unit → Transcript
  | [], _, _ => {}
  | spec :: rest, env, w =>
    match spec.build with
    | .error fault => { failure := some (.build fault) }
    | .ok d =>
      let r := e.declare env d w
      let err := if traced then traceLines r.events else []
      match r.outcome with
      | .ok (id, env) =>
        Transcript.followedBy { out := (listing r.world.heap id d).pieces, err }
          (runAll e traced rest env r.world)
      | .failed fault => { err, failure := some (.evaluation d.keyword d.name fault) }
      | .exhausted => { err, failure := some .exhausted }

def engine (config : Config) : Engine Unit where
  caller := Caller.ofHost Host.none
  store := Store.ordinary Unit
  config

end Command

def Manifest.run (config : Config) (traced : Bool) (m : Manifest) : Command.Transcript :=
  let (env, heap) := Environment.withLibrary {} {}
  Command.runAll (Command.engine config) traced m.declarations env ⟨heap, ()⟩

end Decoration
