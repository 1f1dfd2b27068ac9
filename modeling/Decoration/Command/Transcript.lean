import Decoration.DecorationFault
import Decoration.Manifest.Building
import Decoration.Path
import Decoration.Terminal

/-! What a command writes, and why it fails. -/

namespace Decoration.Command

inductive Cause where
  | reading
  | json
  | toml
deriving DecidableEq, Repr

inductive Failure where
  | manifestUnreadable (path : Path)
  | manifestMalformed (path : Path)
  | configUnreadable (path : Path)
  | configMalformed (path : Path)
  | build (fault : BuildFault)
  | evaluation (keyword name : String) (fault : DecorationFault)
  | exhausted
deriving Repr

def Failure.chain (cause : Cause → String) : Failure → List String
  | manifestUnreadable path => ["Failed to read manifest " ++ path.text, cause .reading]
  | manifestMalformed path => ["Failed to parse manifest " ++ path.text, cause .json]
  | configUnreadable path =>
    ["Failed to load config " ++ path.text, "Failed to read config file: " ++ cause .reading,
      cause .reading]
  | configMalformed path =>
    ["Failed to load config " ++ path.text, "Failed to parse config: " ++ cause .toml, cause .toml]
  | build fault => [fault.message]
  | evaluation keyword name fault =>
    ["Failed to evaluate " ++ keyword ++ " " ++ name, fault.message] ++
      fault.source?.toList.map Fault.message
  | exhausted => ["Calls are nested too deeply"]

structure Transcript where
  out : List Terminal.Piece := []
  err : List Terminal.Piece := []
  failure : Option Failure := none
deriving Repr

def Transcript.followedBy (a b : Transcript) : Transcript :=
  ⟨a.out ++ b.out, a.err ++ b.err, b.failure⟩

end Decoration.Command
