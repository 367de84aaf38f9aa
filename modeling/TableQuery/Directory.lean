import TableQuery.Error
import TableQuery.OrderedMap

/-! # Directories

A directory of plain files, whose contents are known, somewhere in a tree of directories of
which nothing else is known. A path leads from it through the names between slashes. -/

namespace TableQuery

/-- The contents of the files in a directory, under their names. -/
abbrev Directory := OrderedMap String (List UInt8)

namespace Directory

/-- What a path leads to. -/
inductive Node where
  /-- The directory itself. -/
  | here
  /-- A directory around it. -/
  | around
  /-- A file in it. -/
  | file (content : List UInt8)
deriving DecidableEq

/-- The greatest length of a name, in bytes. -/
def maxNameSize : Nat := 255

/-- The greatest length of a path, in bytes. -/
def maxPathSize : Nat := 4095

/-- Goes from a node to the one of the given name. -/
def enter (d : Directory) (node : Node) (name : String) : Except OpenError Node :=
  match node with
  | .file _ => .error .notDirectory
  | _ =>
    if name.isEmpty || name == "." then .ok node
    else if name == ".." then .ok .around
    else if maxNameSize < name.utf8ByteSize then .error .nameTooLong
    else match node, d.get? name with
      | .here, some content => .ok (.file content)
      | _, _ => .error .notFound

/-- The node that a path leads to. -/
def resolve (d : Directory) (path : String) : Except OpenError Node :=
  if path.toList.contains '\x00' then .error .nulInName
  else if path.isEmpty then .error .notFound
  else if maxPathSize < path.utf8ByteSize then .error .nameTooLong
  else
    let root := if path.toList.head? = some '/' then Node.around else .here
    (path.splitOn "/").foldlM d.enter root

/-- The content of the file that a path leads to. A directory can be opened but not read. -/
def read (d : Directory) (path : String) : Except Error (List UInt8) :=
  match d.resolve path with
  | .error cause => .error (.cannotOpen path cause)
  | .ok (.file content) => .ok content
  | .ok _ => .error (.table .isDirectory)

end Directory

end TableQuery
