/-!
# Paths

A path is where it starts and the components after that.  Empty components and single dots
are no part of it; double dots are.  Paths are ordered component by component.
-/

namespace Backfield

structure Path where
  /-- Empty for a path from the working directory, else the slashes in front. -/
  root : String := ""
  parts : List String
  deriving DecidableEq, Repr

namespace Path

/-- The components of a text between its slashes, each reversed while it is read. -/
def splitFrom : List Char → List Char → List (List Char)
  | part, [] => [part.reverse]
  | part, c :: rest =>
    if c == '/' then part.reverse :: splitFrom [] rest else splitFrom (c :: part) rest

/-- The component names something. -/
def isPart (part : String) : Bool := part != "" && part != "."

/-- The slashes that make a text an absolute path.  Two in front have a meaning of their
own, more have not. -/
def rootOf (text : List Char) : String :=
  match (text.takeWhile (· == '/')).length with
  | 0 => ""
  | 2 => "//"
  | _ => "/"

def ofText (text : String) : Path :=
  ⟨rootOf text.toList, ((splitFrom [] text.toList).map String.ofList).filter isPart⟩

def text (p : Path) : String :=
  if p.root == "" && p.parts.isEmpty then "." else p.root ++ "/".intercalate p.parts

/-- A path from another path on, unless it starts at a root of its own. -/
def join (base p : Path) : Path :=
  if p.root == "" then ⟨base.root, base.parts ++ p.parts⟩ else p

/-- The last component. -/
def name (p : Path) : String := p.parts.getLast?.getD ""

def parent (p : Path) : Path := { p with parts := p.parts.dropLast }

/-- What paths are ordered by: the root, if there is one, and the components. -/
def sortKey (p : Path) : List String := if p.root == "" then p.parts else p.root :: p.parts

/-- Component by component, the first path does not come after the second. -/
def le (p q : Path) : Bool := !q.sortKey.lex p.sortKey fun s t => decide (s < t)

end Path

end Backfield
