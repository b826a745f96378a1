import TextArt.Codecs

namespace TextArt

/-!
# Directories — files by path

* `Directory` — files, each under the names that lead to it;
* `Directory.follow` — where a path leads: to a file, a directory, or a free name;
* `Directory.read`, `Directory.place` — the file at a path, and the place for a new one;
* `Directory.save` — an artifact put at a path.

A path may lead above the directory, where other directories are but no files that
are known.
-/

/-- The `files`, each under the names that lead to it. -/
structure Directory where
  files : List (List String × Bytes)

namespace Directory

/-- What a path leads to, as `Directory.target` finds it. -/
inductive Target where
  | file (contents : Bytes)
  | directory
  | free
  deriving DecidableEq

/-- A place in or above a directory: `up` so many steps, then down these `names`. -/
structure Place where
  up : Nat := 0
  names : List String := []
  deriving DecidableEq, Repr

/-- What is found at a place: a `file`, a `directory` of one, or nothing yet. -/
def target (d : Directory) (p : Place) : Target :=
  if p.names.isEmpty then .directory
  else if 0 < p.up then .free
  else
    match d.files.find? (·.1 = p.names) with
    | some (_, contents) => .file contents
    | none =>
      if d.files.any fun f => p.names.isPrefixOf f.1 then .directory else .free

/-- The longest name of a file, in bytes; `followFrom` refuses a longer one. -/
def nameLimit : Nat := 255

/-- The shortest path that is refused, in bytes; see `follow`. -/
def pathLimit : Nat := 4096

/-- Follow the parts of a path from a place.  Every part but the last must lead to a `directory`. -/
def followFrom (d : Directory) (p : Place) : List String → Except FileError Place
  | [] => .ok p
  | part :: rest =>
    match d.target p with
    | .file _ => .error .notDirectory
    | .free => .error .notFound
    | .directory =>
      if part = "" ∨ part = "." then d.followFrom p rest
      else if part = ".." then
        d.followFrom
          (if p.names.isEmpty then { p with up := p.up + 1 }
            else { p with names := p.names.dropLast })
          rest
      else if nameLimit < part.utf8ByteSize then .error .nameTooLong
      else d.followFrom { p with names := p.names ++ [part] } rest

/-- Where a path leads, if its parts can be followed with `followFrom`. -/
def follow (d : Directory) (path : String) : Except FileError Place :=
  if path = "" then .error .notFound
  else if pathLimit ≤ path.utf8ByteSize then .error .nameTooLong
  else
    let parts := (path.toList.splitOn '/').map String.ofList
    -- a path from the root leads as far above as a path can be long
    if parts.head? = some "" then d.followFrom { up := pathLimit } parts
    else d.followFrom {} parts

/-- The file at a path that leads to a `Target.file`. -/
def read (d : Directory) (path : String) : Except FileError Bytes := do
  let p ← d.follow path
  match d.target p with
  | .file contents => .ok contents
  | .directory => .error .isDirectory
  | .free => .error .notFound

/-- The place at which a file can be written under a path: that of a `file` or a `free` one.  A path
    that ends with a slash asks for a `directory`. -/
def place (d : Directory) (path : String) : Except FileError Place :=
  let create (p : Place) : Except FileError Place :=
    match d.target p with
    | .directory => .error .isDirectory
    | _ => .ok p
  match d.follow path with
  | .ok p => create p
  | .error .notFound =>
    if path.endsWith "/" then
      match d.follow (String.ofList (path.toList.reverse.dropWhile (· = '/')).reverse) with
      | .ok _ => .error .isDirectory
      | .error cause => .error cause
    else .error .notFound
  | .error cause => .error cause

/-- Where an artifact is put that is saved under a path, after its file has been made at that
    `place`; it may be that `Codecs.refusal` stops it then. -/
def save {Image : Type} (codecs : Codecs Image) (d : Directory) (path : String)
    (a : Artifact Image) : Except SaveError Place :=
  match d.place path with
  | .error cause => .error (a.refused cause)
  | .ok p =>
    match codecs.refusal a with
    | some reason => .error (.refused reason)
    | none => .ok p

end Directory

end TextArt
