namespace TextArt.FileName

/-!
# File names — the extension at the end of a path

* `folderAndName`, `stemAndExtension` — a path as what leads to the file and its name, and a name as
  its stem and its extension;
* `extension?` — the extension of the file that a path leads to;
* `withExtension` — the path with another extension.

The extension begins at the last dot of the name.  A name without a dot has none, and
neither has a name whose only dot is its first character.
-/

/-- The part of a path up to its last slash, and the name after it, which make up `path.toList`. -/
def folderAndName (path : String) : List Char × List Char :=
  let name := (path.toList.reverse.takeWhile (· ≠ '/')).reverse
  (path.toList.take (path.toList.length - name.length), name)

/-- The stem of a name and its extension, which the last dot parts unless it is the first
    character. -/
def stemAndExtension (name : List Char) : List Char × Option (List Char) :=
  let last := (name.reverse.takeWhile (· ≠ '.')).reverse
  let stem := name.take (name.length - last.length - 1)
  if last.length = name.length ∨ stem.isEmpty then (name, none) else (stem, some last)

/-- Whether a path ends with the `name` of a file, and not with a step up or nothing. -/
def isFile (name : List Char) : Bool :=
  name ≠ [] && name ≠ ['.'] && name ≠ ['.', '.']

/-- The extension of the file that a path leads to, if its name `isFile`. -/
def extension? (path : String) : Option String :=
  let name := (folderAndName path).2
  if isFile name then (stemAndExtension name).2.map String.ofList else none

/-- A path with another `extension` at its end, if its name `isFile`.  Nothing can be read at
    another path. -/
def withExtension (path extension : String) : String :=
  let (folder, name) := folderAndName path
  if isFile name then
    String.ofList (folder ++ (stemAndExtension name).1) ++ "." ++ extension
  else path

end TextArt.FileName
