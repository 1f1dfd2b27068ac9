import Decoration.Command.Check
import Decoration.Command.Run
import Decoration.Config.Source
import Decoration.Files
import Decoration.Manifest.Reader

/-! The commands, from paths of files to a transcript. -/

namespace Decoration

inductive Command where
  | run (manifest : Path) (config : Option Path) (traced : Bool)
  | check (manifest : Path)
deriving DecidableEq, Repr

namespace Command

variable {m : Type → Type} [Monad m]

def configName : String := "gilt.toml"

def firstFile (files : Files m) : List Path → m (Option Path)
  | [] => pure none
  | path :: rest => do if ← files.isFile path then pure (some path) else firstFile files rest

def loadManifest (files : Files m) (path : Path) : m (Except Failure Manifest) := do
  match ← files.read path with
  | none => pure (.error (.manifestUnreadable path))
  | some text =>
    match Manifest.read? text with
    | none => pure (.error (.manifestMalformed path))
    | some manifest => pure (.ok manifest)

def loadConfigFile (files : Files m) (path : Path) : m (Except Failure Config) := do
  match ← files.read path with
  | none => pure (.error (.configUnreadable path))
  | some text =>
    match Config.ofToml? text with
    | none => pure (.error (.configMalformed path))
    | some config => pure (.ok config)

/-- The configuration in the given file, or in the first one found in a directory above the manifest,
or else the defaults. -/
def loadConfig (files : Files m) (manifest : Path) (given : Option Path) :
    m (Except Failure Config) := do
  let path ← match given with
    | some path => pure (some path)
    | none => firstFile files (manifest.ancestors.map (·.child configName))
  match path with
  | some path => loadConfigFile files path
  | none => pure (.ok {})

def execute (files : Files m) : Command → m Transcript
  | run path given traced => do
    match ← loadManifest files path with
    | .error failure => pure { failure := some failure }
    | .ok manifest =>
      match ← loadConfig files path given with
      | .error failure => pure { failure := some failure }
      | .ok config => pure (manifest.run config traced)
  | check path => do
    match ← loadManifest files path with
    | .error failure => pure { failure := some failure }
    | .ok manifest => pure (manifest.check path)

end Command
end Decoration
