import Reclass.CommandLine.Report
import Reclass.Files.Change

/-!
# The program

Reads from the disk whatever lies on and below the paths that the command line
names, runs the command on what was read, and does the differences to the disk.
All decisions are made elsewhere.
-/

set_option autoImplicit false

namespace Reclass.Program

open CommandLine

/-- The path of a place. -/
def pathOf (here : Place) : Path := "/" ++ String.intercalate "/" here

/-- Takes a place over as it is on the disk, with all that lies below it when it is
to be read `deep`. -/
partial def take (deep : Bool) (fs : FileSystem) (here : Place) : IO FileSystem := do
  let known := (fs.node? here).isSome
  let disk ← try some <$> IO.FS.realPath (pathOf here) catch _ => pure none
  match disk with
  | none => return fs
  | some p =>
    if ← p.isDir then
      let fs := if known then fs else fs.put here .dir
      if !deep then return fs
      let inner ← try p.readDir catch _ => pure #[]
      inner.foldlM (fun fs e => take true fs (here ++ [e.fileName])) fs
    else if known then return fs
    else
      let content ← try some <$> IO.FS.readBinFile p catch _ => pure none
      match content with
      | some bytes => return fs.put here (.file bytes.toList)
      | none => return fs

/-- Takes over a path with the directories that lead to it and their ignore files. -/
def takePath (fs : FileSystem) (path : Path) : IO FileSystem := do
  let start := if Path.isAbsolute path then [] else fs.cwd
  let here := (Path.steps path).foldl
    (fun here name =>
      if name = "." then here else if name = ".." then here.dropLast else here ++ [name]) start
  let fs ← (List.range here.length).foldlM
    (fun fs n => do
      let outer := here.take n
      let fs ← if n = 0 then pure fs else take false fs outer
      take false fs (outer ++ [".ignore"])) fs
  take true fs here

/-- Does a difference to the disk. A file is written beside its place and then
renamed. -/
def perform : Change → IO Unit
  | .removeFile here => IO.FS.removeFile (pathOf here)
  | .removeDir here => IO.FS.removeDir (pathOf here)
  | .makeDir here => IO.FS.createDir (pathOf here)
  | .writeFile here content => do
    let temp := pathOf here ++ ".tmp"
    IO.FS.writeBinFile temp ⟨content.toArray⟩
    IO.FS.rename temp (pathOf here)

/-- The environment, as far as the program looks at it. -/
def environment : IO Environment :=
  variableNames.filterMapM fun name => do
    return (← IO.getEnv name).map fun value => (name, value)

/-- Runs the program on its arguments. -/
def run (args : List String) : IO UInt32 := do
  let env ← environment
  let home := Path.steps (← IO.FS.realPath ".").toString
  let empty : FileSystem := { entries := [], cwd := home, process := 0, tempCount := 0 }
  let named := match parse args with
    | .ok i => i.paths env
    | .error _ => []
  let disk ← named.foldlM takePath empty
  let began ← IO.monoMsNow
  let out := (invoke env (Text.decimal began) args).run disk
  (disk.changes out.state).forM perform
  match out.value.sink with
  | .errorOutput => (out.value.filter.lines out.events).forM IO.eprintln
  | .file _ => pure ()
  let milliseconds := (← IO.monoMsNow) - began
  match (out.value.answer.bind (Answer.json? milliseconds)) with
  | some answer => IO.println answer.pretty
  | none => pure ()
  match parse args with
  | .error .help => IO.println usageText
  | .error .invalid => IO.eprintln usageText
  | .ok _ => pure ()
  if !out.value.failure.isEmpty then IO.eprintln (errorText out.value.failure)
  return UInt32.ofNat out.value.exitCode

end Reclass.Program

def main (args : List String) : IO UInt32 := Reclass.Program.run args
