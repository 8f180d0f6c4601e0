import Reclass.Files.Tree

/-!
# Differences between file systems

What has to be done to one file system to get the other: removals from the inside
out, then additions from the outside in.
-/

set_option autoImplicit false

namespace Reclass

/-- A single difference, by the place where it is. -/
inductive Change where
  | removeFile (here : Place)
  | removeDir (here : Place)
  | makeDir (here : Place)
  | writeFile (here : Place) (content : Bytes)
  deriving DecidableEq, Repr

namespace FileSystem

/-- What has to go: whatever is not there any more, or is of another kind. -/
def removals (old new : FileSystem) : List Change :=
  let gone := old.entries.filterMap fun (here, node) =>
    match node, new.node? here with
    | .dir, some .dir | .file _, some (.file _) => none
    | .dir, _ => some (here.length, Change.removeDir here)
    | .file _, _ => some (here.length, Change.removeFile here)
  (gone.mergeSort fun a b => b.1 ≤ a.1).map Prod.snd

/-- What has to come: whatever was not there, and files whose content differs. -/
def additions (old new : FileSystem) : List Change :=
  let fresh := new.entries.filterMap fun (here, node) =>
    if old.node? here = some node then none
    else match node with
      | .dir => some (here.length, Change.makeDir here)
      | .file content => some (here.length, Change.writeFile here content)
  (fresh.mergeSort fun a b => a.1 ≤ b.1).map Prod.snd

/-- The differences in the order in which they are to be done. -/
def changes (old new : FileSystem) : List Change := removals old new ++ additions old new

end FileSystem

end Reclass
