import Flowchart.Command.Run

/-! The command as a program. The files at which it may look are read into a tree, the command runs on
that tree, and the files that it changed there are written. -/
namespace Flowchart.Main
open Files

def pathOf (place : Place) : String := "/" ++ Path.ofNames place

def brokenLink : Entry := .link "/\x00"

/-- A link that leads from itself to itself, and so through too many links. -/
def endlessLink (place : Place) : Entry := .link (pathOf place)

/-- Stands for a link that cannot be followed, by what is told when something is asked about it. -/
def unfollowed (place : Place) (question : IO Unit) : IO Entry := do
  try
    question
    return brokenLink
  catch
    | .noFileOrDirectory .. => return brokenLink
    | _ => return endlessLink place

def loadAt (tree : Tree) (place : Place) : IO Tree := do
  if place.isEmpty || (tree.get? place).isSome then return tree
  try
    let path ← IO.FS.realPath (pathOf place)
    if ← path.isDir then return tree.put place .directory
    return tree.put place (.file (← IO.FS.readBinFile path))
  catch _ => return tree

def loadAlong (tree : Tree) (path : String) : IO (Tree × Place) := do
  let mut tree := tree
  let mut place := Tree.origin tree.working path
  for step in Path.steps path do
    match step with
    | .stay => pure ()
    | .up => place := place.dropLast
    | .into name =>
      place := place ++ [name]
      tree ← loadAt tree place
  return (tree, place)

/-- Takes in all that lies below a directory. A link back to a directory around it stays a link. -/
partial def loadBelow (tree : Tree) (around : List (Place × String)) (place : Place) : IO Tree := do
  let path ← IO.FS.realPath (pathOf place)
  let around := (place, path.toString) :: around
  let mut tree := tree
  for entry in ← path.readDir do
    let below := place ++ [entry.fileName]
    try
      let there ← IO.FS.realPath (pathOf below)
      match around.find? (·.2 == there.toString) with
      | some (ancestor, _) => tree := tree.put below (.link (pathOf ancestor))
      | none =>
        if ← there.isDir then tree ← loadBelow (tree.put below .directory) around below
        else if Folder.isSource below then tree ← loadAt tree below
        else tree := tree.put below (.file ByteArray.empty)
    catch _ =>
      tree := tree.put below (← unfollowed below (discard (path / pathOf below).metadata))
  return tree

/-- The part of the disk that a command with these arguments may look at. -/
def load (args : List String) : IO Tree := do
  let here ← IO.currentDir
  let working := (Text.split '/' here.toString).filter (· != "")
  let mut tree : Tree := { working }
  for n in List.range working.length do
    tree := tree.put (working.take (n + 1)) .directory
  match Command.Arguments.read args with
  | .error _ => return tree
  | .ok a =>
    for path in a.input.toList do
      tree := (← loadAlong tree path).1
    for path in a.batch.toList ++ a.output.toList do
      let (along, place) ← loadAlong tree path
      tree := along
      if a.batch.isSome && tree.isDirectory place then tree ← loadBelow tree [] place
    return tree

def store (tree old : Tree) : IO Unit := do
  for (place, entry) in tree.entries.reverse do
    if entry.isDirectory && (old.get? place).isNone then IO.FS.createDirAll (pathOf place)
  for (place, bytes) in tree.changes old do
    IO.FS.writeBinFile (pathOf place) bytes

partial def readAll (input : IO.FS.Stream) (bytes : ByteArray) : IO ByteArray := do
  let more ← input.read 65536
  if more.isEmpty then return bytes else readAll input (bytes ++ more)

end Flowchart.Main

def main (args : List String) : IO UInt32 := do
  let stdin ←
    if Flowchart.Command.readsStandardInput args then
      Flowchart.Main.readAll (← IO.getStdin) ByteArray.empty
    else pure ByteArray.empty
  let tree ← Flowchart.Main.load args
  let outcome := Flowchart.Command.run args stdin tree
  Flowchart.Main.store outcome.tree tree
  (← IO.getStdout).putStr outcome.stdout
  (← IO.getStderr).putStr outcome.stderr
  return outcome.exit.toUInt32
