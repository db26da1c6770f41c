import Bytecode.Command

/-!
# The command line

Runs the command on the file system, prints its result, and reports a failure on the standard error
with exit code `1`.
-/

namespace Bytecode.Command

/-- Whether an action came to its end. -/
def succeeds (action : IO Unit) : IO Bool := do
  match ← action.toBaseIO with
  | .ok _ => return true
  | .error _ => return false

/-- Access to the file system. -/
def systemAccess : Access IO where
  readText path := do
    match ← (IO.FS.readFile path).toBaseIO with
    | .ok text => return some text
    | .error _ => return none
  createFolders path := if path.isEmpty then return true else succeeds (IO.FS.createDirAll path)
  writeText path text := succeeds (IO.FS.writeFile path text)

end Bytecode.Command

/-- Runs the command with the arguments of the program. -/
def main (args : List String) : IO UInt32 := do
  match ← (Bytecode.Command.run Bytecode.Command.systemAccess args).run with
  | .ok text =>
    IO.print text
    return 0
  | .error failure =>
    IO.eprintln ("Error: " ++ failure.message)
    if let some cause := failure.cause? then
      IO.eprintln ("\nCaused by:\n    " ++ cause)
    return 1
