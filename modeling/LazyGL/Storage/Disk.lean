import LazyGL.Storage.Path

/-!
Disks: a directory tree as a list of places, each a file with its content or a
directory. A place is the list of the names that lead to it; the empty list is
the top directory, which is always there.
-/

namespace LazyGL

inductive FileFault
  | notFound
  | notDirectory
  | isDirectory
  | alreadyExists
  /-- A name in the path or the whole path is too long. -/
  | nameTooLong
  /-- The path holds a NUL character. -/
  | nulByte
  /-- A fault with a description of its own. -/
  | other (description : String)
deriving DecidableEq

def FileFault.message : FileFault → String
  | .notFound => "No such file or directory (os error 2)"
  | .notDirectory => "Not a directory (os error 20)"
  | .isDirectory => "Is a directory (os error 21)"
  | .alreadyExists => "File exists (os error 17)"
  | .nameTooLong => "File name too long (os error 36)"
  | .nulByte => "file name contained an unexpected NUL byte"
  | .other description => description

inductive Node
  | file (content : ByteArray)
  | directory

structure Disk where
  nodes : List (List String × Node) := []

namespace Disk

def node? (d : Disk) : List String → Option Node
  | [] => some .directory
  | place => d.nodes.lookup place

/-- Puts something at a place, in the stead of what was there. -/
def put (d : Disk) (place : List String) (node : Node) : Disk :=
  if (d.nodes.lookup place).isSome then
    ⟨d.nodes.map fun (p, n) => if p = place then (p, node) else (p, n)⟩
  else ⟨d.nodes ++ [(place, node)]⟩

def checkPath (path : Path) : Except FileFault Unit :=
  if path.text.toList.contains '\x00' then .error .nulByte
  else if Path.sizeBound ≤ path.text.utf8ByteSize then .error .nameTooLong
  else .ok ()

/-- The place that some names lead to from a directory, all of which have to be
directories. -/
def descend (d : Disk) (here : List String) : List String → Except FileFault (List String)
  | [] => .ok here
  | name :: rest =>
    if name = ".." then d.descend here.dropLast rest
    else if Path.longestName < name.utf8ByteSize then .error .nameTooLong
    else
      match d.node? (here ++ [name]) with
      | some .directory => d.descend (here ++ [name]) rest
      | some (.file _) => .error .notDirectory
      | none => .error .notFound

/-- The place that a path leads to; the last name need not be there. -/
def locate (d : Disk) (path : Path) : Except FileFault (List String) :=
  if path.text = "" then .error .notFound
  else do
    checkPath path
    match path.names.getLast? with
    | none => .ok []
    | some last => do
      let here ← d.descend [] path.names.dropLast
      if last = ".." then .ok here.dropLast
      else if Path.longestName < last.utf8ByteSize then .error .nameTooLong
      else .ok (here ++ [last])

def makeFrom (d : Disk) (here : List String) : List String → Except FileFault Disk
  | [] => .ok d
  | name :: rest =>
    if name = ".." then d.makeFrom here.dropLast rest
    else if Path.longestName < name.utf8ByteSize then .error .nameTooLong
    else
      match d.node? (here ++ [name]) with
      | some .directory => d.makeFrom (here ++ [name]) rest
      | some (.file _) => .error (if rest.isEmpty then .alreadyExists else .notDirectory)
      | none => (d.put (here ++ [name]) .directory).makeFrom (here ++ [name]) rest

def makeDirectories (d : Disk) (path : Path) : Except FileFault Disk := do
  checkPath path
  d.makeFrom [] path.names

/-- Makes an empty file, or empties the one that is there. -/
def create (d : Disk) (path : Path) : Except FileFault Disk := do
  let place ← d.locate path
  match d.node? place with
  | some .directory => .error .isDirectory
  | _ => .ok (d.put place (.file .empty))

def append (d : Disk) (path : Path) (bytes : ByteArray) : Except FileFault Disk := do
  let place ← d.locate path
  match d.node? place with
  | some (.file content) => .ok (d.put place (.file (content ++ bytes)))
  | some .directory => .error .isDirectory
  | none => .error .notFound

end Disk

end LazyGL
