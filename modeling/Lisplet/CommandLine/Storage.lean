import Lisplet.Text.Utf8
/-!
# Source files
-/

namespace Lisplet.CommandLine

/-- Why a file could not be read. -/
inductive ReadFailure where
  | notFound
  | isDirectory
  | notDirectory
  | notPermitted
  | nameTooLong
  | notText
  | other (reason : String)

def ReadFailure.message (name : String) : ReadFailure → String
  | notFound => "Source file \"" ++ name ++ "\" does not exist"
  | isDirectory => failed "Is a directory (os error 21)"
  | notDirectory => failed "Not a directory (os error 20)"
  | notPermitted => failed "Permission denied (os error 13)"
  | nameTooLong => failed "File name too long (os error 36)"
  | notText => failed "stream did not contain valid UTF-8"
  | other reason => failed reason
where
  failed (reason : String) : String := "Failed to read source file \"" ++ name ++ "\": " ++ reason

/-- What a file name leads to. -/
abbrev Storage := String → Except ReadFailure (List UInt8)

def Storage.text (storage : Storage) (name : String) : Except ReadFailure String := do
  match Text.Utf8.decode? (← storage name) with
  | some text => return text
  | none => throw .notText

/-! ## Paths

What a path leads to from a working directory that holds files only. Of the rest of the file
system only what every system has is known: the directories above, the root, the standard
directories in it and the null device.
-/

/-- The working directory. -/
structure Directory where
  files : List (String × List UInt8)

/-- Where a path has led so far. -/
inductive Place where
  | working
  /-- A directory above the working directory. -/
  | above
  | root
  /-- A directory of that name in the root. -/
  | inRoot (name : String)
  | file (bytes : List UInt8)

namespace Directory

/-- The directories that every root has. -/
def standard : List String :=
  ["bin", "boot", "dev", "etc", "home", "lib", "media", "mnt", "opt", "proc", "root", "run",
   "sbin", "srv", "sys", "tmp", "usr", "var"]

/-- The entry of that name, of those that are known. -/
def entry? (d : Directory) (place : Place) (name : String) : Option Place :=
  match place with
  | .working => (d.files.lookup name).map .file
  | .root => if standard.contains name then some (.inRoot name) else none
  | .inRoot directory => if directory = "dev" && name = "null" then some (.file []) else none
  | .above | .file _ => none

def parent : Place → Place
  | .working | .above => .above
  | .root | .inRoot _ => .root
  | .file bytes => .file bytes

/-- Follows one part of a path. A name has at most 255 bytes, and an empty part stays in
place. -/
def follow (d : Directory) (place : Place) (part : String) : Except ReadFailure Place :=
  match place with
  | .file _ => .error .notDirectory
  | place =>
    if part = "" || part = "." then .ok place
    else if part = ".." then .ok (parent place)
    else if part.utf8ByteSize > 255 then .error .nameTooLong
    else
      match d.entry? place part with
      | some next => .ok next
      | none => .error .notFound

/-- A path starts at the root if it starts with a slash. It has fewer than 4096 bytes. -/
def storage (d : Directory) : Storage := fun path =>
  if path.utf8ByteSize ≥ 4096 then .error .nameTooLong
  else do
    let start := if path.toList.head? = some '/' then Place.root else .working
    match ← (path.splitOn "/").foldlM d.follow start with
    | .file bytes => return bytes
    | _ => throw .isDirectory

end Directory

end Lisplet.CommandLine
