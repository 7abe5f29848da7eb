import PipeSql.Cli.Program

/-! The command line. -/

namespace PipeSql.Cli

/-- The fault for an error of the system. -/
def faultOfError (error : IO.Error) : FileFault :=
  match error with
  | .noFileOrDirectory .. => .missing
  | .alreadyExists _ code description | .inappropriateType _ code description
  | .invalidArgument _ code description | .permissionDenied _ code description
  | .resourceExhausted _ code description | .noSuchThing _ code description =>
    .ofNumber code.toNat description
  | .otherError code description => .ofNumber code.toNat description
  | error => .other error.toString

/-- An action whose errors are faults. -/
def attempt (action : IO α) : IO (Except FileFault α) := do
  match ← action.toBaseIO with
  | .ok value => return .ok value
  | .error error => return .error (faultOfError error)

/-- Goes through the lines of the input. -/
partial def eachLine (input : IO.FS.Stream) (start : σ) (act : σ → String → IO σ) : IO Unit := do
  let line ← input.getLine
  unless line.isEmpty do
    let lines := Text.lines line.toList
    let next ← lines.foldlM (fun s content => act s (String.ofList content)) start
    eachLine input next act

/-- The system as the surroundings of the program. -/
def systemHost : Host IO where
  workingDirectory := do return (← IO.currentDir).toString
  valueOf? name := IO.getEnv name
  read path := attempt do return (← IO.FS.readBinFile path).toList
  write path text := attempt (IO.FS.writeFile path text)
  makeDirectory path := attempt (IO.FS.createDir path)
  openDatabase := return .ok ()
  print text := do
    let output ← IO.getStdout
    output.putStr text
    output.flush
  warn text := IO.eprint text
  eachLine start act := do eachLine (← IO.getStdin) start act

end PipeSql.Cli

/-- Runs the program. -/
def main (arguments : List String) : IO UInt32 :=
  PipeSql.Cli.run PipeSql.Cli.systemHost arguments
