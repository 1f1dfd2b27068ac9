import Decoration.Command
import Decoration.Proofs.Observed
import Decoration.Proofs.Success

/-! Checking a manifest, and running it with a trace. A run writes a line for each decorator that has its
turn; if it succeeds these are the decorators that a check counts. -/

namespace Decoration

open Decoration.Action

namespace Manifest

def built (m : Manifest) : List Declaration := m.declarations.filterMap (·.build.toOption)

def written (m : Manifest) : List Written := m.built.flatMap Declaration.written

end Manifest

/-- A line of the trace that tells of the decorator. -/
def Written.Shown (x : Written) (line : Terminal.Piece) : Prop :=
  ∃ site, line = Terminal.colored .yellow ("  -> " ++ (x.label ++ x.name.elim "" (" " ++ ·) ++
    " on " ++ site ++ " (" ++ x.discipline.text ++ ")") ++ "\n")

namespace Command

def happenings (e : Engine Unit) : List DeclarationSpec → Environment → World Unit → List Moment
  | [], _, _ => []
  | spec :: rest, env, w =>
    match spec.build with
    | .error _ => []
    | .ok d =>
      let r := e.declare env d w
      match r.outcome with
      | .ok (_, env) => r.events ++ happenings e rest env r.world
      | _ => r.events

namespace Summary

end Summary

def Failure.OfEvaluation : Failure → Prop
  | evaluation .. | exhausted => True
  | _ => False

theorem runAll_declared {e : Engine Unit} {spec : DeclarationSpec} {d : Declaration} {id : ObjectId}
    {env env' : Environment} {w w' : World Unit} (build : spec.build = .ok d)
    (declare : (e.declare env d).Yields w (id, env') w') (traced : Bool)
    (rest : List DeclarationSpec) :
    runAll e traced (spec :: rest) env w = Transcript.followedBy
      { out := (listing w'.heap id d).pieces,
        err := if traced then traceLines (e.declare env d w).events else [] }
      (runAll e traced rest env' w') := by
  rw [runAll, build]
  dsimp only
  rw [declare.1, declare.2]

theorem runAll_cases (e : Engine Unit) (traced : Bool) (spec : DeclarationSpec)
    (rest : List DeclarationSpec) (env : Environment) (w : World Unit) :
    (∃ fault, spec.build = .error fault ∧
      runAll e traced (spec :: rest) env w = { failure := some (.build fault) }) ∨
    ∃ d, spec.build = .ok d ∧
      ((∃ id env' w', (e.declare env d).Yields w (id, env') w') ∨
        ∃ err failure, Failure.OfEvaluation failure ∧
          runAll e traced (spec :: rest) env w = { err, failure := some failure }) := by
  rw [runAll]
  cases hbuild : spec.build with
  | error fault => exact .inl ⟨fault, rfl, rfl⟩
  | ok d =>
    refine .inr ⟨d, rfl, ?_⟩
    dsimp only
    cases houtcome : (e.declare env d w).outcome with
    | ok result => exact .inl ⟨result.1, result.2, _, houtcome, rfl⟩
    | failed fault => exact .inr ⟨_, .evaluation d.keyword d.name fault, trivial, rfl⟩
    | exhausted => exact .inr ⟨_, .exhausted, trivial, rfl⟩

end Command

def Manifest.happenings (config : Config) (m : Manifest) : List Moment :=
  Command.happenings (Command.engine config) m.declarations (Environment.withLibrary {} {}).1
    ⟨(Environment.withLibrary {} {}).2, ()⟩

namespace Command

section

variable {files : Files Id} {path : Path} {given : Option Path} {traced : Bool}

end

end Command
end Decoration
