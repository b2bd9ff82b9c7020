/-
  The program: it hands its arguments and the files that they mention to `run`,
  and does what the response says.
-/
import StyleBudget.CommandLine.Run

namespace StyleBudget

/-- The disk with what stands at a path added. -/
def Disk.withPath (disk : Disk) (path : String) : IO Disk := do
  try
    return { disk with files := (path, ← IO.FS.readBinFile path) :: disk.files }
  catch _ =>
    try
      if ← (← IO.FS.realPath path).isDir then
        return { disk with directories := path :: disk.directories }
      else return disk
    catch _ => return disk

end StyleBudget

open StyleBudget

/-- Runs the program on its arguments. -/
def main (args : List String) : IO UInt32 := do
  let paths := (mentionedPaths args).flatMap fun path => path :: parentPaths path
  let response := run args (← paths.foldlM Disk.withPath {})
  (← IO.getStderr).putStr response.stderr
  match response.crash with
  | some crash => (← IO.getStderr).putStr (crash.message ++ "\n")
  | none => pure ()
  match response.written with
  | some (path, text) => IO.FS.writeFile path text
  | none => pure ()
  (← IO.getStdout).putStr response.stdout
  return response.exitCode.toUInt32
