import CSharpActions.FileTree.Basic
import CSharpActions.FileTree.Pattern

/-!
# Finding files

The search for a file goes from a directory up to the root, and in each directory takes the first
match of a pattern in the order of code points.
-/
namespace CSharpActions

namespace FileTree

variable (t : FileTree)

/-- A path that the search has come to, and the location that it leads to. -/
structure Reached where
  path : Path
  location : Location
deriving DecidableEq, Repr

def Reached.enter (r : Reached) (name : Text) : Reached :=
  ⟨r.path.join [name], r.location ++ [name]⟩

/-- A directory and all directories below it. -/
def directoriesFrom (r : Reached) : List Reached :=
  r :: t.nodes.filterMap fun (below, n) =>
    match n with
    | .directory =>
      if r.location.isPrefixOf below && below ≠ r.location then
        some ⟨r.path.join (below.drop r.location.length), below⟩
      else none
    | .file _ => none

/-- What a component describes below a directory. Unless it is the last one, it leads to
directories only. -/
def advance (component : Pattern.Component) (last : Bool) (r : Reached) :
    Except FileError (List Reached) :=
  match component with
  | .itself => .ok [r]
  | .anyDepth => .ok (t.directoriesFrom r)
  | .wild ps =>
    .ok ((t.entries r.location).filterMap fun (name, node) =>
      if Pattern.describes ps name && (last || node = .directory) then some (r.enter name)
      else none)
  | .exact name =>
    match t.find? [] (r.path.join [name]).render with
    | .error e => .error e
    | .ok none => .ok []
    | .ok (some (l, node)) =>
      .ok (if last || node = .directory then [⟨r.path.join [name], l⟩] else [])

def namesLe : List Text → List Text → Bool
  | [], _ => true
  | _ :: _, [] => false
  | a :: as, b :: bs => if a = b then namesLe as bs else Text.le a b

/-- Drops items that are equal to the one after them. -/
def dropRepeats [DecidableEq α] : List α → List α
  | a :: b :: r => if a = b then dropRepeats (b :: r) else a :: dropRepeats (b :: r)
  | r => r

/-- The paths in order, each of them once. -/
def inOrder (reached : List Reached) : List Reached :=
  dropRepeats (reached.mergeSort fun a b => namesLe a.path.names b.path.names)

/-- What the components describe, one after the other, from where the search has come to, in order.
Any depth below any depth is any depth. -/
def matching : List Pattern.Component → List Reached → Except FileError (List Reached)
  | [], reached => .ok reached
  | .anyDepth :: .anyDepth :: cs, reached => matching (.anyDepth :: cs) reached
  | c :: cs, reached =>
    match reached.mapM (t.advance c cs.isEmpty) with
    | .error e => .error e
    | .ok next => matching cs (inOrder next.flatten)

def isFileAt (l : Location) : Bool :=
  match t.node? l with
  | some (.file _) => true
  | _ => false

/-- The first file that the pattern describes below a path. -/
def firstFile? (pattern : List Pattern.Component) (p : Path) : Except FileError (Option Path) :=
  match t.find? [] p.render with
  | .error e => .error e
  | .ok (some (l, .directory)) =>
    (t.matching pattern [⟨p, l⟩]).map fun found =>
      (found.find? fun r => t.isFileAt r.location).map (·.path)
  | .ok _ => .ok none

/-- The first file that the pattern describes below a path or, failing that, below a path above
it. -/
def findUp (pattern : List Pattern.Component) (p : Path) : Except FileError (Option Path) :=
  match t.firstFile? pattern p with
  | .error e => .error e
  | .ok (some f) => .ok (some f)
  | .ok none => if _h : p.names = [] then .ok none else findUp pattern p.parent
termination_by p.names.length
decreasing_by
  have := List.length_pos_iff.2 _h
  simp only [Path.parent, List.length_dropLast]; omega

end FileTree

end CSharpActions
