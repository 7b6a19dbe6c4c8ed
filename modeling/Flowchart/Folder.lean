import Flowchart.Chart
import Flowchart.Files.Reach
import Flowchart.Text.Order

/-! Folders of sources. Every file with the source extension below a folder is a source, and all of them
are drawn together. -/
namespace Flowchart.Folder
open Files

structure SourceFile where
  names : List String
  contents : String
deriving DecidableEq, Repr

def SourceFile.path (file : SourceFile) : String := Path.ofNames file.names

structure ChartFile where
  names : List String
  chart : String
deriving DecidableEq, Repr

def ChartFile.path (file : ChartFile) : String := Path.ofNames file.names

def sourceExtension : String := "flow"

def isSource (names : List String) : Bool :=
  names.getLast?.bind Name.extension? == some sourceExtension

def decode (file : Reached) : Except WalkFault SourceFile :=
  match String.fromUTF8? file.bytes with
  | some contents => .ok ⟨file.names, contents⟩
  | none => .error .invalidText

def sorted (files : List SourceFile) : List SourceFile :=
  files.mergeSort fun a b => Text.namesLe a.names b.names

def load (tree : Tree) (start : Tree.Arrival) (root : String) : Except WalkFault (List SourceFile) := do
  let reached ← tree.reachable start root
  return sorted (← (reached.filter fun file => isSource file.names).mapM decode)

def sources (tree : Tree) (root : String) : Except Failure (List SourceFile) :=
  match tree.arrive root with
  | .error _ => .error (.missingDirectory root)
  | .ok start =>
    if tree.isDirectory start.place then (load tree start root).mapError .unreadableSource
    else .error (.missingDirectory root)

def draw (settings : Settings) (file : SourceFile) : Except Failure ChartFile :=
  match compile settings file.contents with
  | .ok chart => .ok ⟨file.names, chart⟩
  | .error failure => .error (.inSource file.path failure)

/-- The charts of some sources; the first failure ends the drawing and names its source. -/
def drawAll (settings : Settings) (files : List SourceFile) : Except Failure (List ChartFile) :=
  files.mapM (draw settings)

def charts (settings : Settings) (tree : Tree) (root : String) : Except Failure (List ChartFile) := do
  drawAll settings (← sources tree root)

end Flowchart.Folder
