import Flowchart.Files.Fault
import Flowchart.Files.Path

/-! A file tree in memory: files, directories and symbolic links, each at its place below the root, and
the working directory from which relative paths start. -/
namespace Flowchart.Files

abbrev Place := List String

inductive Entry where
  | file (bytes : ByteArray)
  | directory
  | link (target : String)

def Entry.isDirectory : Entry → Bool
  | directory => true
  | _ => false

structure Tree where
  entries : List (Place × Entry) := []
  working : Place := []

namespace Tree

/-- The root is always a directory. -/
def get? (tree : Tree) (place : Place) : Option Entry :=
  if place = [] then some .directory else tree.entries.lookup place

def put (tree : Tree) (place : Place) (entry : Entry) : Tree :=
  { tree with entries := (place, entry) :: tree.entries.filter (·.1 ≠ place) }

theorem get?_put_self (tree : Tree) {place : Place} (entry : Entry) (h : place ≠ []) :
    (tree.put place entry).get? place = some entry := by
  simp [get?, put, h]

private theorem lookup_filter_ne {place other : Place} (h : other ≠ place)
    (entries : List (Place × Entry)) :
    (entries.filter (·.1 ≠ place)).lookup other = entries.lookup other := by
  induction entries with
  | nil => rfl
  | cons head entries ih =>
    obtain ⟨p, entry⟩ := head
    by_cases hp : p = place
    · have differ : (other == p) = false := by simpa [hp] using h
      rw [List.filter_cons_of_neg (by simp [hp]), ih, List.lookup_cons, differ]
    · rw [List.filter_cons_of_pos (by simpa using hp), List.lookup_cons, List.lookup_cons, ih]

theorem get?_put_of_ne (tree : Tree) {place other : Place} (entry : Entry) (h : other ≠ place) :
    (tree.put place entry).get? other = tree.get? other := by
  have : (other == place) = false := by simpa using h
  simp only [get?, put, List.lookup_cons, this, lookup_filter_ne h]

def isDirectory (tree : Tree) (place : Place) : Bool := (tree.get? place).any Entry.isDirectory

/-- Puts an entry at a place, and directories on the way there where nothing is yet. -/
def add (tree : Tree) (place : Place) (entry : Entry) : Tree :=
  let around := (List.range place.length).map place.take
  (around.foldl (fun tree place =>
    if (tree.get? place).isSome then tree else tree.put place .directory) tree).put place entry

/-- What a directory holds under a name, if the name is one that it can hold. -/
def find? (tree : Tree) (here : Place) (name : String) : Except Fault (Option Entry) :=
  if maxName < name.utf8ByteSize then .error .nameTooLong else .ok (tree.get? (here ++ [name]))

def origin (here : Place) (path : String) : Place := if Path.isAbsolute path then [] else here

def maxLinks : Nat := 40

/-- Where a path leads, and how many links may still be followed from there. -/
structure Arrival where
  place : Place
  links : Nat
deriving DecidableEq, Repr

/-- Goes along the steps of a path and follows every link on the way, the last one too. -/
def walk (tree : Tree) (links : Nat) (here : Place) : List Step → Except Fault Arrival
  | [] => .ok ⟨here, links⟩
  | step :: steps =>
    if tree.isDirectory here then
      match step with
      | .stay => tree.walk links here steps
      | .up => tree.walk links here.dropLast steps
      | .into name =>
        match tree.find? here name, links with
        | .error fault, _ => .error fault
        | .ok none, _ => .error .notFound
        | .ok (some (.link _)), 0 => .error .tooManyLinks
        | .ok (some (.link target)), links + 1 =>
          tree.walk links (origin here target) (Path.steps target ++ steps)
        | .ok (some _), links => tree.walk links (here ++ [name]) steps
    else .error .notDirectory
termination_by steps => (links, steps.length)

theorem walk_links_le {tree : Tree} {links : Nat} {here : Place} {steps : List Step}
    {arrival : Arrival} (h : tree.walk links here steps = .ok arrival) : arrival.links ≤ links := by
  fun_induction tree.walk links here steps with
  | case1 => cases h; exact Nat.le_refl _
  | case2 _ _ _ _ ih | case3 _ _ _ _ ih | case8 _ _ _ _ _ _ _ _ _ ih => exact ih h
  | case7 _ _ _ _ _ _ _ ih => exact Nat.le_succ_of_le (ih h)
  | case4 | case5 | case6 | case9 => cases h

def checkPath (path : String) : Except Fault Unit :=
  if path = "" then .error .notFound
  else if Path.maxLength < path.utf8ByteSize then .error .nameTooLong
  else .ok ()

def arrive (tree : Tree) (path : String) : Except Fault Arrival := do
  checkPath path
  tree.walk maxLinks (origin tree.working path) (Path.steps path)

def locate (tree : Tree) (path : String) : Except Fault Place :=
  (tree.arrive path).map Arrival.place

def namesDirectory (tree : Tree) (path : String) : Bool :=
  match tree.locate path with
  | .ok place => tree.isDirectory place
  | .error _ => false

def readFile (tree : Tree) (path : String) : Except Fault ByteArray := do
  let place ← tree.locate path
  match tree.get? place with
  | some (.file bytes) => return bytes
  | _ => throw .isDirectory

def readText (tree : Tree) (path : String) : Except ReadFault String :=
  match tree.readFile path with
  | .error fault => .error (.refused fault)
  | .ok bytes =>
    match String.fromUTF8? bytes with
    | some text => .ok text
    | none => .error .invalidText

/-- The place of the file that writing to a path would create or replace. A path with a slash behind
its last name names no file. -/
def destination (tree : Tree) (links : Nat) (here : Place) (slash : Bool) :
    List Step → Except Fault Place
  | [] => .error .isDirectory
  | step :: steps =>
    if tree.isDirectory here then
      match step with
      | .stay => tree.destination links here slash steps
      | .up => tree.destination links here.dropLast slash steps
      | .into name =>
        if slash ∧ steps.all (· = .stay) then .error .isDirectory
        else
          match tree.find? here name, links with
          | .error fault, _ => .error fault
          | .ok none, _ => if steps.isEmpty then .ok (here ++ [name]) else .error .notFound
          | .ok (some (.link _)), 0 => .error .tooManyLinks
          | .ok (some (.link target)), links + 1 =>
            if steps.isEmpty then
              tree.destination links (origin here target) (Path.closesName target)
                (Path.steps target)
            else
              tree.destination links (origin here target) slash (Path.steps target ++ steps)
          | .ok (some (.file _)), links =>
            if steps.isEmpty then .ok (here ++ [name])
            else tree.destination links (here ++ [name]) slash steps
          | .ok (some .directory), links => tree.destination links (here ++ [name]) slash steps
    else .error .notDirectory
termination_by steps => (links, steps.length)

def writeFile (tree : Tree) (path : String) (bytes : ByteArray) : Except Fault Tree := do
  checkPath path
  let start := origin tree.working path
  let place ← tree.destination maxLinks start (Path.closesName path) (Path.steps path)
  return tree.put place (.file bytes)

def makeDirectory (tree : Tree) (path : String) : Except Fault Tree := do
  checkPath path
  match (Path.steps path).reverse.dropWhile (· = .stay) with
  | [] => throw .alreadyExists
  | last :: around =>
    let ⟨here, _⟩ ← tree.walk maxLinks (origin tree.working path) around.reverse
    if !tree.isDirectory here then throw .notDirectory
    match last with
    | .into name =>
      if (← tree.find? here name).isSome then throw .alreadyExists
      return tree.put (here ++ [name]) .directory
    | _ => throw .alreadyExists

/-- Makes a directory and those around it, which are given the nearest first. What was made stays, even
if something then goes wrong. -/
def makeDirectories (tree : Tree) : List String → Tree × Option Fault
  | [] => (tree, none)
  | path :: around =>
    match tree.makeDirectory path with
    | .ok tree => (tree, none)
    | .error .notFound =>
      match tree.makeDirectories around with
      | (tree, some fault) => (tree, some fault)
      | (tree, none) =>
        match tree.makeDirectory path with
        | .ok tree => (tree, none)
        | .error fault => (tree, if tree.namesDirectory path then none else some fault)
    | .error fault => (tree, if tree.namesDirectory path then none else some fault)

def file? (tree : Tree) (place : Place) : Option ByteArray :=
  match tree.get? place with
  | some (.file bytes) => some bytes
  | _ => none

def changes (tree old : Tree) : List (Place × ByteArray) :=
  tree.entries.filterMap fun (place, entry) =>
    match entry with
    | .file bytes =>
      if (old.file? place).map ByteArray.data = some bytes.data then none else some (place, bytes)
    | _ => none

end Tree

end Flowchart.Files
