namespace TextArt

/-!
# File errors — why a file cannot be read or written

* `FileError` — the causes;
* `FileError.message` — their wording.
-/

/-- Why a file cannot be read or written, which `FileError.message` puts into words. -/
inductive FileError where
  | notFound
  /-- Something on the way to the file is not a directory, with the number 20 in `message`. -/
  | notDirectory
  /-- The path leads to a directory in place of a file, with the number 21 in `message`. -/
  | isDirectory
  | nameTooLong
  /-- The contents are not text in UTF-8, which `Settings.ofBytes` asks for. -/
  | notText
  /-- Anything else that the system reports, in the words of the `report`. -/
  | other (report : String)
  deriving DecidableEq, Repr

/-- The wording of a file error, which is that of the system, but for `notText`. -/
def FileError.message : FileError → String
  | notFound => "No such file or directory (os error 2)"
  | notDirectory => "Not a directory (os error 20)"
  | isDirectory => "Is a directory (os error 21)"
  | nameTooLong => "File name too long (os error 36)"
  | notText => "stream did not contain valid UTF-8"
  | other report => report

end TextArt
