import ModuleLinker.Loading

/-!
# Directories in memory

A directory tree given by the paths and texts of its files.  It is a reader for
`CommandLine.run`, so that the program runs in it without a file system.
Reading a path fails in the ways in which reading from a file system does.
A path is followed part by part, and the first part that leads nowhere decides
the failure.  Paths can lead out of the tree, to directories of which it is not
known that anything stands in them.
-/

namespace ModuleLinker

/-- The files of a directory tree with their paths below its top.  Of two files
with one path the later one counts. -/
structure Directory where
  files : List (String × String)
deriving Repr

namespace Directory

/-- What stands at a place. -/
inductive Item
  | directory
  | file (text : String)
deriving DecidableEq, Repr

/-- Where a path has led so far: below the top of the tree, or to a directory
outside. -/
inductive Place
  | below (trail : List String)
  | outside
deriving DecidableEq, Repr

/-- The parts of a path. -/
def parts (path : String) : List String := path.splitOn "/"

/-- The parts of the path of a file in the tree.  Empty parts and single dots
mean nothing. -/
def trailOf (path : String) : List String :=
  (parts path).filter fun part => part != "" && part != "."

/-- What stands at a trail below the top of the tree. -/
def itemBelow? (directory : Directory) (trail : List String) : Option Item :=
  let known := directory.files.reverse.map fun file => (trailOf file.1, file.2)
  match known.find? fun file => file.1 == trail with
  | some file => some (.file file.2)
  | none =>
    if trail.isEmpty || known.any fun file => trail.isPrefixOf file.1 then some .directory
    else none

/-- What stands at a place. -/
def item? (directory : Directory) : Place → Option Item
  | .below trail => directory.itemBelow? trail
  | .outside => some .directory

/-- The place around a place. -/
def parent : Place → Place
  | .below [] => .outside
  | .below (name :: trail) => .below (name :: trail).dropLast
  | .outside => .outside

/-- The place of a name in a directory.  Nothing is known to stand in the
directories outside the tree. -/
def child? (directory : Directory) (name : String) : Place → Option Place
  | .below trail => (directory.itemBelow? (trail ++ [name])).map fun _ => .below (trail ++ [name])
  | .outside => none

/-- The number of bytes that one part of a path can have. -/
def partLimit : Nat := 255

/-- The number of bytes that a path can have. -/
def pathLimit : Nat := 4095

/-- Follow one part of a path, which only a directory allows. -/
def follow (directory : Directory) (place : Place) (part : String) : Except ReadFailure Place :=
  match directory.item? place with
  | some .directory =>
    if part = "" ∨ part = "." then .ok place
    else if part = ".." then .ok (parent place)
    else if partLimit < part.utf8ByteSize then .error .nameTooLong
    else
      match directory.child? part place with
      | some next => .ok next
      | none => .error .notFound
  | some (.file _) => .error .notDirectory
  | none => .error .notFound

/-- The place to which a path leads.  One that is named from the root of the file
system starts outside the tree. -/
def locate (directory : Directory) (path : String) : Except ReadFailure Place :=
  if pathLimit < path.utf8ByteSize then .error .nameTooLong
  else if path = "" then .error .notFound
  else if path.startsWith "/" then
    (parts path).foldlM (follow directory) .outside
  else (parts path).foldlM (follow directory) (.below [])

/-- The text of the file at a path. -/
def read (directory : Directory) (path : String) : Except ReadFailure String :=
  match directory.locate path with
  | .error failure => .error failure
  | .ok place =>
    match directory.item? place with
    | some (.file text) => .ok text
    | some .directory => .error .isDirectory
    | none => .error .notFound

end Directory

end ModuleLinker
