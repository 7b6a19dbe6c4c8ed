import Flowchart.Files.Tree

/-! The files that can be reached from a directory, through its subdirectories and through links. -/
namespace Flowchart.Files

/-- A directory in which a walk is: its place, and the path by which the walk came to it. -/
structure Around where
  place : Place
  path : String
deriving DecidableEq, Repr

structure Reached where
  names : List String
  bytes : ByteArray

def descent? (here place : Place) : Option (List String) :=
  if here.isPrefixOf place ∧ here.length < place.length then some (place.drop here.length) else none

def descentAround (here : Place) (path : String) (names : List String) : List Around :=
  (List.range names.length).map fun n => ⟨here ++ names.take n, Path.below path (names.take n)⟩

namespace Tree

/-- Follows a link that a walk found, if one more link may be followed. A link to a directory in which
the walk already is would lead in circles; through a link to another directory the walk goes on as
`onward` tells, with the links that are then left. -/
def follow (tree : Tree) (links : Nat)
    (onward : (left : Nat) → left < links → List Around → Around → Except WalkFault (List Reached))
    (around : List Around) (path : String) (holder : Place) (names : List String) (target : String) :
    Except WalkFault (List Reached) :=
  match links with
  | 0 => .error (.refused path .tooManyLinks)
  | links + 1 =>
    match h : tree.walk links (origin holder target) (Path.steps target) with
    | .error fault => .error (.refused path fault)
    | .ok ⟨place, left⟩ =>
      match tree.get? place with
      | some (.file bytes) => .ok [⟨names, bytes⟩]
      | _ =>
        match around.reverse.find? (·.place = place) with
        | some ancestor => .error (.loop path ancestor.path)
        | none =>
          (onward left (Nat.lt_succ_of_le (walk_links_le h)) around ⟨place, path⟩).map fun found =>
            found.map fun file => { file with names := names ++ file.names }

/-- The files below one directory, where `onward` walks through the links to other directories. -/
def survey (tree : Tree) (links : Nat)
    (onward : (left : Nat) → left < links → List Around → Around → Except WalkFault (List Reached))
    (outer : List Around) (here : Around) : Except WalkFault (List Reached) := do
  let found ← tree.entries.mapM fun (place, entry) =>
    match descent? here.place place, entry with
    | none, _ | some _, .directory => .ok []
    | some names, .file bytes => .ok [⟨names, bytes⟩]
    | some names, .link target =>
      tree.follow links onward (outer ++ descentAround here.place here.path names)
        (Path.below here.path names) place.dropLast names target
  return found.flatten

/-- The files that a walk reaches. A file is named by the way to it, so all links on that way count
together, and at most so many may be followed. -/
def reach (tree : Tree) (links : Nat) (outer : List Around) (here : Around) :
    Except WalkFault (List Reached) :=
  tree.survey links (fun left _ outer here => tree.reach left outer here) outer here
termination_by links

def reachable (tree : Tree) (start : Arrival) (path : String) : Except WalkFault (List Reached) :=
  tree.reach start.links [] ⟨start.place, path⟩

end Tree

end Flowchart.Files
