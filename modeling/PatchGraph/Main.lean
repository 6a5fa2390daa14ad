import PatchGraph.CommandLine.Run

/-!
# The program

The command line on the files of the system.
-/

namespace PatchGraph.CommandLine

/-- The error of a file operation by its kind; a path through a file has the code 20. -/
def FileError.ofSystem : IO.Error → FileError
  | .noFileOrDirectory _ _ _ => .notFound
  | .inappropriateType _ code _ => if code = 20 then .notDirectory else .isDirectory
  | e => .other e.toString

/-- An action on files with its errors by their kind. -/
def attempt {α : Type} (action : IO α) : IO (Except FileError α) := do
  match ← action.toBaseIO with
  | .ok a => return .ok a
  | .error e => return .error (.ofSystem e)

/-- The files of the system. -/
def systemFiles : Files IO where
  read path := attempt (IO.FS.readFile path)
  write path text := attempt (IO.FS.writeFile path text)

end PatchGraph.CommandLine

open PatchGraph.CommandLine in
/-- Run the command line and exit with its code. -/
def main (arguments : List String) : IO UInt32 := do
  let t ← run systemFiles arguments
  IO.print t.printed
  for line in t.said do
    IO.eprintln line
  match t.error with
  | none => pure ()
  | some e => IO.eprintln s!"patchc: error: {e}"
  return t.exit.toUInt32
