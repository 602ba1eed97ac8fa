import TemplateEngine.Resolver

/-!
# File trees

Templates can lie in files and directories. A tree lists its nodes by the names that lead to
them from the top, and a path is followed name by name (`FileTree.walk`): `.` and empty
names stay, `..` goes up, and nothing leads past a file. Paths that leave the tree lead to
nothing.

A tree becomes a resolver (`FileTree.resolver`), by itself or below a root directory to which
paths are joined.
-/

namespace TemplateEngine

/-- What lies in a file tree. -/
inductive Node where
  /-- a file: its text, or why it cannot be read -/
  | file (content : Except ReadFault Text)
  | directory

/-- The text that bytes are in UTF-8. -/
def Text.ofUtf8 (bytes : List UInt8) : Except ReadFault Text :=
  match String.fromUTF8? ⟨bytes.toArray⟩ with
  | some s => .ok s.toList
  | none => .error .notUtf8

/-- Nodes by the names that lead to them. -/
structure FileTree where
  nodes : List (List Text × Node) := []

namespace FileTree

/-! ## Paths -/

/-- A path below a root directory. Absolute paths do not go below it. -/
def joinPath (root path : Text) : Text :=
  if path.head? = some '/' ∨ root = [] then path
  else if root.getLast? = some '/' then root ++ path
  else root ++ '/' :: path

/-- A path as seen from the top of the tree, where there may be a root directory. -/
def resolvePath (root : Option Text) (path : Text) : Text :=
  match root with
  | none => path
  | some root => joinPath root path

/-- The node at a place. The top is a directory. -/
def node? (t : FileTree) (place : List Text) : Option Node :=
  if place = [] then some .directory else t.nodes.lookup place

/-- The number of bytes that a name has at most. -/
def maxNameBytes : Nat := 255

/-- The number of bytes that a path has at most. -/
def maxPathBytes : Nat := 4095

/-- Follows names from a place on. -/
def walkFrom (t : FileTree) (place : List Text) : List Text → Except ReadFault (List Text × Node)
  | [] =>
    match t.node? place with
    | some node => .ok (place, node)
    | none => .error .missing
  | name :: names =>
    match t.node? place with
    | none => .error .missing
    | some (.file _) => .error .notDirectory
    | some .directory =>
      if maxNameBytes < name.byteSize then .error .nameTooLong
      else if name = [] ∨ name = ['.'] then walkFrom t place names
      else if name = ['.', '.'] then
        if place = [] then .error .missing else walkFrom t place.dropLast names
      else walkFrom t (place ++ [name]) names

/-- Follows a path from the top: the place it leads to, and the node there. -/
def walk (t : FileTree) (path : Text) : Except ReadFault (List Text × Node) :=
  if path.contains '\x00' then .error .zeroByte
  else if maxPathBytes < path.byteSize then .error .nameTooLong
  else if path = [] ∨ path.head? = some '/' then .error .missing
  else t.walkFrom [] (path.pieces ['/'])

/-! ## Reading -/

/-- Whether a path leads to a file. -/
def isFile (t : FileTree) (path : Text) : Bool :=
  match t.walk path with
  | .ok (_, .file _) => true
  | _ => false

/-- The text of the file that a path leads to. -/
def read (t : FileTree) (path : Text) : Except ReadFault Text :=
  match t.walk path with
  | .ok (_, .file content) => content
  | .ok (_, .directory) => .error .isDirectory
  | .error fault => .error fault

/-- A place written as a path. -/
def placePath (place : List Text) : Text := ['/'].intercalate place

/-- The files of the tree as templates, for paths below a root directory. -/
def resolver (t : FileTree) (root : Option Text) : Resolver where
  files := t.nodes.filterMap fun
    | (place, .file content) => some (placePath place, content)
    | (_, .directory) => none
  locate path :=
    match t.walk (resolvePath root path) with
    | .ok (place, .file _) => some (placePath place)
    | _ => none

/-! ## Writing -/

/-- The tree with a node put at a place. -/
def put (t : FileTree) (place : List Text) (node : Node) : FileTree :=
  ⟨(place, node) :: t.nodes.filter (·.1 ≠ place)⟩

/-- Goes on from a place by a name, and makes a directory where there is nothing. -/
def enter (t : FileTree) (place : List Text) (name : Text) : FileTree × List Text :=
  if name = [] ∨ name = ['.'] then (t, place)
  else if name = ['.', '.'] then (t, place.dropLast)
  else if (t.node? (place ++ [name])).isSome then (t, place ++ [name])
  else (t.put (place ++ [name]) .directory, place ++ [name])

/-- Goes from the top by names, and makes directories where there is nothing. -/
def enterAll (t : FileTree) (names : List Text) : FileTree × List Text :=
  names.foldl (fun (t, place) name => t.enter place name) (t, [])

/-- The tree with a file written, and directories on the way to it. -/
def write (t : FileTree) (path : Text) (content : Except ReadFault Text) : FileTree :=
  let names := path.pieces ['/']
  let (t, place) := t.enterAll names.dropLast
  t.put (place ++ names.getLast?.toList) (.file content)

/-- The tree with a directory made, and those on the way to it. -/
def makeDirectory (t : FileTree) (path : Text) : FileTree := (t.enterAll (path.pieces ['/'])).1

/-- The tree without what a path leads to and what lies below that. -/
def remove (t : FileTree) (path : Text) : FileTree :=
  match t.walk path with
  | .ok (place, _) => ⟨t.nodes.filter fun (p, _) => !place.isPrefixOf p⟩
  | .error _ => t

end FileTree

end TemplateEngine
