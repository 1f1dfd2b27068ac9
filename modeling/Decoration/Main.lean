import Decoration.Command

/-! The program: reads the command line and the surroundings, and writes what the command says. -/

namespace Decoration.Main

structure Arguments where
  command : Command
  color : Option String := none

def runArguments : Option Path → Option Path → Bool → Option String → List String →
    Option Arguments
  | manifest, config, traced, color, [] =>
    manifest.map fun manifest => { command := .run manifest config traced, color }
  | manifest, none, traced, color, "--config" :: path :: rest =>
    runArguments manifest (some (Path.ofText path)) traced color rest
  | manifest, config, false, color, "--trace" :: rest =>
    runArguments manifest config true color rest
  | manifest, config, traced, none, "--color" :: choice :: rest =>
    runArguments manifest config traced (some choice) rest
  | none, config, traced, color, path :: rest =>
    if path.startsWith "-" then none
    else runArguments (some (Path.ofText path)) config traced color rest
  | _, _, _, _, _ => none

def arguments? : List String → Option Arguments
  | "run" :: rest => runArguments none none false none rest
  | ["check", path] => some { command := .check (Path.ofText path) }
  | _ => none

def usage : String :=
  "usage: run MANIFEST [--config FILE] [--trace] [--color auto|always|never]\n" ++
    "       check MANIFEST\n"

def causeText : Command.Cause → String
  | .reading => "the file cannot be read"
  | .json => "the text is not what a manifest is"
  | .toml => "the text is not what a configuration is"

def files : Files IO where
  read path := do
    try return some (← IO.FS.readFile path.text)
    catch _ => return none
  isFile path := do
    try
      let _ ← IO.FS.readBinFile path.text
      return true
    catch _ => return false

def write (colored : Bool) (transcript : Command.Transcript) : IO UInt32 := do
  (← IO.getStderr).putStr (Terminal.render colored transcript.err)
  (← IO.getStdout).putStr (Terminal.render colored transcript.out)
  match transcript.failure with
  | none => return 0
  | some failure =>
    (← IO.getStderr).putStr
      ("Error: " ++ "\n  because: ".intercalate (failure.chain causeText) ++ "\n")
    return 1

end Decoration.Main

def main (args : List String) : IO UInt32 := do
  match Decoration.Main.arguments? args with
  | none =>
    (← IO.getStderr).putStr Decoration.Main.usage
    return 2
  | some arguments =>
    let preference : Decoration.Terminal.Preference := {
      noColor := ← IO.getEnv "NO_COLOR"
      term := ← IO.getEnv "TERM"
      requested := arguments.color }
    let transcript ← arguments.command.execute Decoration.Main.files
    Decoration.Main.write preference.usesColor transcript
