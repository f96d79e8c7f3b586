/-!
# File trees

A file tree is what a command line sees of the files: files with their bytes and
directories, each under its path from the root, and the directory that the command
line works in.  A path is a list of names.  The directories on the way to an entry
exist with it, and so do the working directory and those on the way to it.  There
are no links, and every file can be read.

`place?` follows a path as it is written, name by name: from the root if it begins
with a slash, and from the working directory otherwise.  An empty name and `.` stay
where they are and `..` goes up, but only from a directory that exists.  Above the
root there is only the root.
-/

namespace SumScript

/-- What is at a path: the bytes of a file, or a directory. -/
inductive FileTree.Node where
  /-- A file. -/
  | file (content : ByteArray)
  /-- A directory. -/
  | directory

/-- Files and directories under their paths from the root. -/
structure FileTree where
  /-- The working directory. -/
  directory : List String
  /-- The entries. -/
  entries : List (List String × FileTree.Node)

namespace FileTree

/-- The names in a written path. -/
def namesOf (path : String) : List String := (path.toList.splitOn '/').map String.ofList

/-- The tree with an entry at a path written from the working directory. -/
def add (tree : FileTree) (path : String) (node : Node) : FileTree :=
  { tree with entries := (tree.directory ++ namesOf path, node) :: tree.entries }

/-- Whether the names lead to a directory. -/
def isDirectory (tree : FileTree) (names : List String) : Bool :=
  names.isPrefixOf tree.directory || tree.entries.any fun (path, node) =>
    match node with
    | .file _ => path.length > names.length && names.isPrefixOf path
    | .directory => names.isPrefixOf path

/-- The bytes of the file that the names lead to. -/
def file? (tree : FileTree) (names : List String) : Option ByteArray :=
  match tree.entries.find? (·.1 == names) with
  | some (_, .file content) => some content
  | _ => none

/-- Follows the names of a path from a place in the tree: the names of the place
that it leads to. -/
def follow (tree : FileTree) (place : List String) : List String → Option (List String)
  | [] => some place
  | name :: names =>
      if !tree.isDirectory place then none
      else if name = "" ∨ name = "." then tree.follow place names
      else if name = ".." then tree.follow place.dropLast names
      else tree.follow (place ++ [name]) names

/-- Where a written path leads to.  An empty path leads nowhere. -/
def place? (tree : FileTree) (path : String) : Option (List String) :=
  match namesOf path with
  | [""] => none
  | "" :: names => tree.follow [] names
  | names => tree.follow tree.directory names

/-- The bytes of the file at a written path; none if there is no such file. -/
def read? (tree : FileTree) (path : String) : Option ByteArray :=
  (tree.place? path).bind tree.file?

end FileTree

end SumScript
