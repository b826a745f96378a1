import TextArt.Command.Parameters
import TextArt.FileError
import TextArt.Options

namespace TextArt

/-!
# Settings — the file of standing wishes

* `Settings` — a rate for runs and render wishes;
* `Settings.read` — the settings of a file, or why there are none.

What a text says is up to a function `parse`, which is not part of this library.
-/

/-- Standing wishes of a user: a rate, and render `options`. -/
structure Settings where
  /-- The rate of runs in bits per second, for `Player.play`. -/
  baud : Option Nat := none
  options : Options := {}
  deriving DecidableEq, Inhabited, Repr

/-- Why a file gives no `Settings`. -/
inductive SettingsError where
  | unreadable (path : String) (cause : FileError)
  /-- The contents are not well-formed, or a value is not of the kind that its key asks for: what
      `Settings.ofBytes` says when `parse` gives nothing. -/
  | malformed
  deriving DecidableEq, Repr

/-- The wording of a settings error, with the `FileError.message` of its cause. -/
def SettingsError.message : SettingsError → String
  | unreadable path cause => "Failed to read config " ++ path ++ ": " ++ cause.message
  | malformed => "Failed to parse config"

namespace Settings

variable (parse : String → Option Settings) (path : String)

/-- The settings in the contents of a file, whose text is understood by `parse`. -/
def ofBytes (contents : Bytes) : Except SettingsError Settings :=
  match String.fromUTF8? contents.toByteArray with
  | none => .error (.unreadable path .notText)
  | some text =>
    match parse text with
    | none => .error .malformed
    | some settings => .ok settings

/-- The settings of a file, given what reading it gave: those that `ofBytes` finds in its
    contents. -/
def read : Except FileError Bytes → Except SettingsError Settings
  | .error cause => .error (.unreadable path cause)
  | .ok contents => ofBytes parse path contents

end Settings

end TextArt
