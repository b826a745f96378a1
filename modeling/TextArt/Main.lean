import TextArt.CommandLine.Run
import TextArt.Format.Codecs

namespace TextArt

/-!
# The program

The outer layer of the library: `CommandLine.answer` at the files of the system and with
`Format.codecs`, and the printing of what it reports.
-/

open Format (Bitmap codecs)

/-- The bytes of an artifact in its file, by `toPng`, by `toGif`, or as they are. -/
def Artifact.toBytes : Artifact Bitmap → ByteArray
  | .picture b => b.toPng
  | .animation r => r.toGif
  | .pixels bytes => bytes

namespace CommandLine

/-- The number of an error, which the system may also report with its sign changed, as `0 -
    code`. -/
def errorNumber (code : UInt32) : Nat := min code.toNat (0 - code).toNat

/-- The cause that a `report` of the system names. -/
def causeOf (report : IO.Error) : FileError :=
  match report with
  | .noFileOrDirectory _ _ _ => .notFound
  | .inappropriateType _ code _ =>
    if errorNumber code = 20 then .notDirectory
    else if errorNumber code = 21 then .isDirectory
    else .other (toString report)
  | .invalidArgument _ code _ =>
    if errorNumber code = 36 then .nameTooLong else .other (toString report)
  | _ => .other (toString report)

/-- Read a file, with the `causeOf` a failure. -/
def readFile (path : String) : IO (Except FileError Bytes) := do
  try
    return .ok (← IO.FS.readBinFile path).toList
  catch cause =>
    return .error (causeOf cause)

/-- Save an artifact under a path: the file is made before `Codecs.refusal` is asked. -/
def saveFile (path : String) (a : Artifact Bitmap) : IO (Except SaveError Unit) := do
  try
    IO.FS.writeBinFile path .empty
    match codecs.refusal a with
    | some reason => return .error (.refused reason)
    | none =>
      IO.FS.writeBinFile path a.toBytes
      return .ok ()
  catch cause =>
    return .error (a.refused (causeOf cause))

/-- Read the settings file of the user, with `readFile`, if there is a place for one. -/
def readSettings : IO (Except FileError Bytes) := do
  let home ← IO.getEnv "USERPROFILE"
  let home ← match home with
    | some home => pure (some home)
    | none => IO.getEnv "HOME"
  match home with
  | some home => readFile (home ++ "/.ansiplay/config.toml")
  | none => return .error .notFound

/-- The files of the system: `readSettings`, `readFile` and `saveFile`. -/
def Files.ofSystem : Files Bitmap IO where
  settings := readSettings
  read := readFile
  save := saveFile

end CommandLine

end TextArt

/-- Answer the command line, with `Format.codecs` and at `Files.ofSystem`. -/
def main (arguments : List String) : IO UInt32 := do
  let report ← TextArt.CommandLine.answer TextArt.Format.codecs .ofSystem arguments
  IO.print report.out
  IO.eprint report.err
  return UInt32.ofNat report.status
