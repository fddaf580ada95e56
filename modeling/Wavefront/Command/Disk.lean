import Std.Data.ExtTreeMap
import Wavefront.Command.Host

set_option autoImplicit false

/-!
# Disks in memory

A disk holds files and folders under absolute paths, lists of names from the root on, and has a
folder that relative paths start from. `Machine.host` lets commands work on such a disk instead
of a real one, under the rules of Linux: every name but the last leads to a folder, and a file is
created when it is written and not there.
-/
namespace Wavefront.Command

inductive Entry
  | file (content : ByteArray)
  | folder

/-- Files are compared byte by byte. -/
instance : DecidableEq Entry
  | .file a, .file b =>
    if h : a.data = b.data then .isTrue (by cases a; cases b; simp_all)
    else .isFalse (by rintro ⟨⟩; exact h rfl)
  | .folder, .folder => .isTrue rfl
  | .file _, .folder => .isFalse (by simp)
  | .folder, .file _ => .isFalse (by simp)

structure Disk where
  entries : Std.ExtTreeMap (List String) Entry
  /-- Where relative paths start. -/
  base : List String

namespace Disk

/-- The root is always there. -/
def entry? (d : Disk) (path : List String) : Option Entry :=
  if path = [] then some .folder else d.entries[path]?

def put (d : Disk) (path : List String) (e : Entry) : Disk :=
  { d with entries := d.entries.insert path e }

def putFolders (d : Disk) (above : List String) : List String → Disk
  | [] => d
  | name :: rest => (d.put (above ++ [name]) .folder).putFolders (above ++ [name]) rest

/-- With nothing in the folder that relative paths start from. -/
def empty (base : List String) : Disk := putFolders ⟨∅, base⟩ [] base

def names (path : String) : List String :=
  (path.toList.splitOn '/').map String.ofList

/-- Also makes the folders it is in. -/
def putRelative (d : Disk) (path : String) (e : Entry) : Disk :=
  let ns := names path
  (d.putFolders d.base ns.dropLast).put (d.base ++ ns) e

def maxNameBytes : Nat := 255

def maxPathBytes : Nat := 4095

def isSpecial (name : String) : Bool := name = "" || name = "." || name = ".."

/-- The folder that some names lead to. -/
def walk (d : Disk) (here : List String) : List String → Except AccessError (List String)
  | [] => .ok here
  | name :: rest =>
    if name = "" || name = "." then d.walk here rest
    else if name = ".." then d.walk here.dropLast rest
    else if maxNameBytes < name.utf8ByteSize then .error .nameTooLong
    else
      match d.entry? (here ++ [name]) with
      | none => .error .notFound
      | some (.file _) => .error .notDirectory
      | some .folder => d.walk (here ++ [name]) rest

def start (d : Disk) (path : String) : List String :=
  if path.toList.head? = some '/' then [] else d.base

/-- The folder a path leads into, and the name there. -/
def locate (d : Disk) (path : String) : Except AccessError (List String × String) :=
  if path.isEmpty then .error .notFound
  else if maxPathBytes < path.utf8ByteSize then .error .nameTooLong
  else
    let ns := names path
    (d.walk (d.start path) ns.dropLast).map fun folder => (folder, ns.getLast?.getD "")

def read (d : Disk) (path : String) : Except AccessError ByteArray :=
  match d.locate path with
  | .error e => .error e
  | .ok (folder, name) =>
    if isSpecial name then .error .isDirectory
    else if maxNameBytes < name.utf8ByteSize then .error .nameTooLong
    else
      match d.entry? (folder ++ [name]) with
      | none => .error .notFound
      | some .folder => .error .isDirectory
      | some (.file content) => .ok content

/-- Slashes at the end say that a folder is meant. -/
def write (d : Disk) (path : String) (content : ByteArray) : Except AccessError Disk :=
  let bare := (path.toList.reverse.dropWhile (· = '/')).reverse
  if maxPathBytes < path.utf8ByteSize then .error .nameTooLong
  else if bare.length < path.length && bare.isEmpty then .error .isDirectory
  else
    match d.locate (String.ofList bare) with
    | .error e => .error e
    | .ok (folder, name) =>
      if bare.length < path.length || isSpecial name then .error .isDirectory
      else if maxNameBytes < name.utf8ByteSize then .error .nameTooLong
      else
        match d.entry? (folder ++ [name]) with
        | some .folder => .error .isDirectory
        | _ => .ok (d.put (folder ++ [name]) (.file content))

/-- The files at or below the start of relative paths that were not the same on the other disk,
with their paths from there. -/
def changedFiles (d before : Disk) : List (String × ByteArray) :=
  d.entries.toList.filterMap fun (path, e) =>
    match e with
    | .folder => none
    | .file content =>
      if d.base.isPrefixOf path && before.entries[path]? ≠ some e then
        some ("/".intercalate (path.drop d.base.length), content)
      else none

end Disk

/-- A program that makes pictures of graphs: how it ends, and the picture if it writes one. -/
structure Renderer where
  exit : Nat
  picture? : Option ByteArray

structure Machine where
  disk : Disk
  renderer? : Option Renderer

namespace Machine

def read (path : String) : StateM Machine (Except AccessError ByteArray) := fun m =>
  (m.disk.read path, m)

def write (path : String) (content : ByteArray) : StateM Machine (Except AccessError Unit) :=
  fun m =>
    match m.disk.write path content with
    | .error e => (.error e, m)
    | .ok disk => (.ok (), { m with disk := disk })

def render (png : String) : StateM Machine (Except RenderError Unit) := fun m =>
  match m.renderer? with
  | none => (.error (.unavailable .notFound), m)
  | some r =>
    let after :=
      match r.picture? with
      | none => m
      | some picture => (write png picture m).2
    (if r.exit = 0 then .ok () else .error (.failed r.exit), after)

/-- On a disk in memory nothing takes any time, and there is no terminal. -/
def host : Host (StateM Machine) where
  read := read
  write path content := write path content.toUTF8
  render _ png := render png
  timed f := pure (f (), ⟨0, 0⟩)
  errIsTerminal := false

end Machine

end Wavefront.Command
