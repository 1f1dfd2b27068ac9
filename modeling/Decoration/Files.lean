import Decoration.Path

/-! Reading files, from wherever they are. -/

namespace Decoration

structure Files (m : Type → Type) where
  read : Path → m (Option String)
  isFile : Path → m Bool

structure FileTree where
  files : List (List String × String)

namespace FileTree

def fileAt? (t : FileTree) (place : List String) : Option String := t.files.lookup place

def isDirectory (t : FileTree) (place : List String) : Bool :=
  place.isEmpty || t.files.any fun file => place.isPrefixOf file.1 && place != file.1

/-- Where a path leads from a place. Only a directory can be gone through, and nothing is known of
what is above the current one. -/
def walk (t : FileTree) : List String → List String → Option (List String)
  | place, [] => some place
  | place, segment :: rest =>
    if !t.isDirectory place then none
    else if Path.isTrivial segment then t.walk place rest
    else if segment = ".." then if place.isEmpty then none else t.walk place.dropLast rest
    else t.walk (place ++ [segment]) rest

def read (t : FileTree) (p : Path) : Option String :=
  match p.segments with
  | [""] => none
  | "" :: _ :: _ => none
  | segments => (t.walk [] segments).bind t.fileAt?

def toFiles (t : FileTree) : Files Id where
  read := t.read
  isFile p := (t.read p).isSome

end FileTree
end Decoration
