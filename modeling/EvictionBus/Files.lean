import EvictionBus.Bytes
import EvictionBus.IoError

/-!
# Reading files by path

A small tree of directories and files, and the errors that a path into it can meet.
-/

namespace EvictionBus

/-- A file, or a directory of named entries. -/
inductive FileNode where
  | file (content : Bytes)
  | directory (entries : List (String × FileNode))

namespace FileNode

/-- The longest name of an entry, in bytes. -/
def maxName : Nat := 255

/-- The longest path, in bytes, with the byte that ends it. -/
def maxPath : Nat := 4096

/-- The parts of a path between its slashes. -/
def components (path : List Char) : List String :=
  ((path.splitOn '/').filter (· ≠ [])).map String.ofList

/-- Follows names from a node; `up` holds the directories above it, the nearest first. -/
def follow (up : List FileNode) (node : FileNode) : List String → Except IoError FileNode
  | [] => .ok node
  | name :: names =>
    match node with
    | .file _ => .error .notADirectory
    | .directory entries =>
      if name = "." then follow up node names
      else if name = ".." then
        match up with
        | [] => follow [] node names
        | above :: up => follow up above names
      else if maxName < name.utf8ByteSize then .error .nameTooLong
      else match entries.lookup name with
        | some next => follow (node :: up) next names
        | none => .error .notFound

/-- The content of the file at a path, read from the root of the tree. -/
def read (root : FileNode) (path : String) : Except IoError Bytes := do
  let cs := path.toList
  if cs.contains (Char.ofNat 0) then throw .zeroInName
  if cs = [] then throw .notFound
  if maxPath ≤ path.utf8ByteSize then throw .nameTooLong
  match ← follow [] root (components cs) with
  | .directory _ => throw .isADirectory
  | .file content =>
    if cs.getLast? = some '/' then throw .notADirectory
    return content

/-- The directories of a plain machine, a few of its settings, and the device that is always
empty. -/
def machine : FileNode :=
  let bare (name : String) : String × FileNode := (name, .directory [])
  let text (name content : String) : String × FileNode := (name, .file content.toUTF8.toList)
  .directory [("dev", .directory [("null", .file []), bare "shm"]),
    ("etc", .directory [text "group" "root:x:0:", text "hostname" "localhost",
      text "hosts" "127.0.0.1 localhost", text "passwd" "root:x:0:0:root:/root:/bin/sh",
      text "resolv.conf" ""]),
    ("usr", .directory (["bin", "lib", "local", "sbin", "share"].map bare)),
    ("var", .directory (["lib", "log", "run", "tmp"].map bare)),
    bare "bin", bare "boot", bare "home", bare "lib", bare "media", bare "mnt", bare "opt",
    bare "proc", bare "root", bare "run", bare "sbin", bare "srv", bare "sys", bare "tmp"]

end FileNode

end EvictionBus
