import DataTransfer.Bytes
import DataTransfer.Status.Fault

/-!
Files below a working directory. A name leads to a file, and an open file stays the same file when
its name is removed or given to another; permissions are those at the time of opening. Names are texts;
two of them name the same file when they agree component by component.
-/

namespace DataTransfer

-- `^` is the power of the core library, also where another one is in scope.
attribute [local instance (high)] instPowNat

namespace Path

/-- The parts of a name between slashes. -/
def parts (path : String) : List String := (path.splitOn "/").filter (· ≠ "")

def isAbsolute (path : String) : Bool := path.startsWith "/"

/-- The parts that count in a comparison: one that means the directory itself counts only at the
start of a relative name. -/
def components (path : String) : List String :=
  match parts path with
  | [] => []
  | first :: rest =>
    let rest := rest.filter (· ≠ ".")
    if first = "." && isAbsolute path then rest else first :: rest

def same (a b : String) : Bool :=
  isAbsolute a = isAbsolute b && components a = components b

@[simp] theorem same_self (a : String) : same a a = true := by simp [same]

/-- A slash behind a proper name asks for a directory. The names `.` and `..` are directories
anyway. -/
def asksForDirectory (path : String) : Bool :=
  path.endsWith "/" && (parts path).getLast?.any fun part => part ≠ "." && part ≠ ".."

def hasNul (path : String) : Bool := path.toList.contains '\x00'

/-- The longest part of a name, and the longest name with its end mark, in bytes. -/
def maxPart : Nat := 255
def maxPath : Nat := 4096

end Path

/-- A file, whether or not it has a name. -/
structure FileNode where
  content : Bytes := []
  readable : Bool := true
  writable : Bool := true
  deriving Repr, DecidableEq

/-- What an open file refers to: a file by its number, or the device that is always full. -/
inductive FileRef where
  | node (number : Nat)
  | fullDevice
  deriving Repr, DecidableEq

structure DirectoryNode where
  name : List String
  writable : Bool := true
  searchable : Bool := true
  deriving Repr, DecidableEq

/-- Files in the order of their numbers, their names, and the directories. The working directory has
the empty name. -/
structure FileSystem where
  nodes : List FileNode := []
  names : List (List String × Nat) := []
  directories : List DirectoryNode := [{ name := [] }]
  deriving Repr, DecidableEq

namespace FileSystem

inductive Place where
  | file (ref : FileRef) (parent : DirectoryNode)
  | directory (node : DirectoryNode) (parent : DirectoryNode)
  /-- Nothing has this name in an existing directory. -/
  | vacant (name : List String) (parent : DirectoryNode)
  deriving Repr, DecidableEq

def directory? (fs : FileSystem) (name : List String) : Option DirectoryNode :=
  fs.directories.find? (·.name = name)

/-- Follows the parts of a name from a directory on. The parent of the working directory is taken to
be itself. -/
def follow (fs : FileSystem) (here : DirectoryNode) : List String → Except OsError Place
  | [] => .ok (.directory here here)
  | part :: rest =>
    if !here.searchable then .error (.errno Errno.accessDenied)
    else if Path.maxPart < part.utf8ByteSize then .error (.errno Errno.nameTooLong)
    else if part = "." then follow fs here rest
    else if part = ".." then follow fs ((fs.directory? here.name.dropLast).getD here) rest
    else
      let name := here.name ++ [part]
      match fs.directory? name, fs.names.lookup name with
      | some d, _ =>
        match rest with
        | [] => .ok (.directory d here)
        | _ => follow fs d rest
      | none, some number =>
        match rest with
        | [] => .ok (.file (.node number) here)
        | _ => .error (.errno Errno.notDirectory)
      | none, none =>
        match rest with
        | [] => .ok (.vacant name here)
        | _ => .error (.errno Errno.noEntry)

/-- Of absolute names only that of the full device is known. -/
def locate (fs : FileSystem) (path : String) : Except OsError Place :=
  if Path.hasNul path then .error .nulInName
  else if path.isEmpty then .error (.errno Errno.noEntry)
  else if Path.maxPath ≤ path.utf8ByteSize then .error (.errno Errno.nameTooLong)
  else if Path.isAbsolute path then
    let device : DirectoryNode := { name := ["dev"], writable := false }
    if Path.components path = ["dev", "full"] then .ok (.file .fullDevice device)
    else .error (.errno Errno.noEntry)
  else
    match fs.directory? [] with
    | some here => fs.follow here (Path.parts path)
    | none => .error (.errno Errno.noEntry)

def node? (fs : FileSystem) : FileRef → Option FileNode
  | .node number => fs.nodes[number]?
  | .fullDevice => some {}

structure Request where
  write : Bool := true
  create : Bool := false
  exclusive : Bool := false
  truncate : Bool := false

def anonymous (fs : FileSystem) : FileRef × FileSystem :=
  (.node fs.nodes.length, { fs with nodes := fs.nodes ++ [{}] })

def setContent (fs : FileSystem) (ref : FileRef) (content : Bytes) : FileSystem :=
  match ref with
  | .node number => { fs with nodes := fs.nodes.modify number fun n => { n with content } }
  | .fullDevice => fs

def open_ (fs : FileSystem) (path : String) (request : Request) :
    Except OsError (FileRef × FileSystem) := do
  let directoryAsked := Path.asksForDirectory path
  match ← fs.locate path with
  | .directory _ _ =>
    if request.exclusive && !directoryAsked then .error (.errno Errno.alreadyExists)
    else .error (.errno Errno.isDirectory)
  | .file ref _ =>
    if directoryAsked then
      .error (.errno (if request.create then Errno.isDirectory else Errno.notDirectory))
    else if request.exclusive then .error (.errno Errno.alreadyExists)
    else
      match fs.node? ref with
      | none => .error (.errno Errno.noEntry)
      | some node =>
        if node.readable && (node.writable || !request.write) then
          .ok (ref, if request.truncate then fs.setContent ref [] else fs)
        else .error (.errno Errno.accessDenied)
  | .vacant name parent =>
    if !request.create then .error (.errno Errno.noEntry)
    else if directoryAsked then .error (.errno Errno.isDirectory)
    else if !parent.writable then .error (.errno Errno.accessDenied)
    else
      let (ref, fs) := fs.anonymous
      match ref with
      | .node number => .ok (ref, { fs with names := fs.names ++ [(name, number)] })
      | .fullDevice => .ok (ref, fs)

def remove (fs : FileSystem) (path : String) : Except OsError FileSystem := do
  let directoryAsked := Path.asksForDirectory path
  match ← fs.locate path with
  | .directory node parent =>
    if !directoryAsked && !parent.writable && node.name ≠ parent.name then
      .error (.errno Errno.accessDenied)
    else .error (.errno Errno.isDirectory)
  | .vacant _ _ => .error (.errno Errno.noEntry)
  | .file ref parent =>
    if directoryAsked then .error (.errno Errno.notDirectory)
    else if !parent.writable then .error (.errno Errno.accessDenied)
    else .ok { fs with names := fs.names.filter fun x => .node x.2 ≠ ref }

/-- Offsets from here on are not accepted. -/
def offsetLimit : Nat := 2 ^ (63 : Nat)

def size (fs : FileSystem) : FileRef → Nat
  | .node number => (fs.nodes[number]?.map (·.content.length)).getD 0
  | .fullDevice => 0

/-- The bytes at an offset, at most `count` of them. The full device reads as zeros without end. -/
def read (fs : FileSystem) (ref : FileRef) (offset count : Nat) : Except OsError Bytes :=
  match ref with
  | .fullDevice => .ok (Bytes.fill count 0)
  | .node number =>
    if offsetLimit ≤ offset then .error (.errno Errno.invalidArgument)
    else .ok ((fs.nodes[number]?.map (·.content.slice offset count)).getD [])

/-- Puts bytes at an offset. To write nothing always succeeds. -/
def write (fs : FileSystem) (ref : FileRef) (writable : Bool) (offset : Nat) (data : Bytes) :
    Except OsError FileSystem :=
  match ref with
  | .fullDevice => if data.isEmpty then .ok fs else .error (.errno Errno.noSpace)
  | .node number =>
    if offsetLimit ≤ offset then .error (.errno Errno.invalidArgument)
    else if data.isEmpty then .ok fs
    else if !writable then .error (.errno Errno.badDescriptor)
    else
      .ok { fs with
        nodes := fs.nodes.modify number fun n => { n with content := n.content.overlay offset data } }

def contentOf? (fs : FileSystem) (path : String) : Option Bytes :=
  match fs.locate path with
  | .ok (.file ref _) =>
    (fs.node? ref).bind fun n => if n.readable then some n.content else none
  | _ => none

def put (fs : FileSystem) (path : String) (content : Bytes) : FileSystem :=
  match fs.locate path with
  | .ok (.file (.node number) _) =>
    match fs.nodes[number]? with
    | some n => if n.writable then fs.setContent (.node number) content else fs
    | none => fs
  | .ok (.vacant _ _) =>
    match fs.open_ path { create := true } with
    | .ok (ref, fs) => fs.setContent ref content
    | .error _ => fs
  | _ => fs

def makeDirectory (fs : FileSystem) (path : String) : FileSystem :=
  { fs with directories := fs.directories ++ [{ name := Path.components path }] }

def setPermissions (fs : FileSystem) (path : String) (readable writable searchable : Bool) :
    FileSystem :=
  match fs.locate path with
  | .ok (.file (.node number) _) =>
    { fs with nodes := fs.nodes.modify number fun n => { n with readable, writable } }
  | .ok (.directory d _) =>
    { fs with
      directories := fs.directories.map fun x =>
        if x.name = d.name then { x with writable, searchable } else x }
  | _ => fs

/-- The readable files of the working directory itself. -/
def listing (fs : FileSystem) : List (String × Bytes) :=
  fs.names.filterMap fun (name, number) =>
    match name, fs.nodes[number]? with
    | [only], some n => if n.readable then some (only, n.content) else none
    | _, _ => none

end FileSystem

end DataTransfer
