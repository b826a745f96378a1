import TextArt.CommandLine.Job
import TextArt.Directory

namespace TextArt.CommandLine

/-!
# Runs — a command line at work

* `Files` — what a run needs of the place where it runs, in any monad;
* `answer` — a command line at work there;
* `run` — a command line at work in a directory: what it prints, and what it saves
  where.

The program is `answer` at the files of the system, so that what is said of runs in
directories is said of the program that runs.
-/

/-! ### Anywhere -/

/-- What a run needs of the place where it runs, in a monad `m`. -/
structure Files (Image : Type) (m : Type → Type) where
  /-- What reading the settings file gives, for `Settings.read`. -/
  settings : m (Except FileError Bytes)
  /-- Read a file, as `Directory.read` does. -/
  read : String → m (Except FileError Bytes)
  /-- Save an `Artifact` under a path, as `Directory.save` does. -/
  save : String → Artifact Image → m (Except SaveError Unit)

section

variable {Image : Type} (codecs : Codecs Image)

/-- The settings that `Settings.read` makes of a file; one without settings counts as an empty
    one. -/
def settingsOf (file : Except FileError Bytes) : Settings :=
  match Settings.read codecs.settings "config.toml" file with
  | .ok settings => settings
  | .error _ => {}

variable {m : Type → Type} [Monad m]

/-- Do a job: carry out its `Job.effect`. -/
def work (files : Files Image m) (a : Arguments) (input : String) : m Report := do
  match ← files.read input with
  | .error cause => return .unreadable input cause
  | .ok contents =>
    match Job.effect codecs (settingsOf codecs (← files.settings)) a input contents with
    | .error e => return .failure e.message e.causes.tail
    | .ok (.display text) => return .success text
    | .ok (.save path (.error e)) => return .unwritable path e
    | .ok (.save path (.ok artifact)) =>
      match ← files.save path artifact with
      | .error e => return .unwritable path e
      | .ok () => return .success ""

/-- Do what a command line asks for, by `Arguments.parse`. -/
def answer (files : Files Image m) (arguments : List String) : m Report :=
  match Arguments.parse arguments with
  | .error e => return .misuse e
  | .ok .help => return .answer usageText
  | .ok .version => return .answer (unlines [versionText])
  | .ok (.job a) =>
    match a.input with
    | none => return .misuse .missingInput
    | some input => work codecs files a input

end

/-! ### In a directory -/

section

variable {Image : Type} (codecs : Codecs Image)

/-- The `Artifact` that has been saved, and where. -/
abbrev Saved (Image : Type) := Option (Directory.Place × Artifact Image)

/-- Save an artifact in a directory, with `Directory.save`, and note down where it went. -/
def saveIn (d : Directory) (path : String) (a : Artifact Image) :
    StateM (Saved Image) (Except SaveError Unit) :=
  fun saved =>
    match d.save codecs path a with
    | .error e => (.error e, saved)
    | .ok place => (.ok (), some (place, a))

/-- The files of a directory, next to a `settings` file elsewhere. -/
def Files.ofDirectory (d : Directory) (settings : Except FileError Bytes) :
    Files Image (StateM (Saved Image)) where
  settings := pure settings
  read path := pure (d.read path)
  save path a := saveIn codecs d path a

/-- What a `run` leaves behind: its `report`, and what is `saved`. -/
structure Outcome (Image : Type) where
  report : Report
  saved : Saved Image

/-- Run a command line in a directory, by `answer` at `Files.ofDirectory`. -/
def run (d : Directory) (settings : Except FileError Bytes) (arguments : List String) :
    Outcome Image :=
  let left := answer codecs (.ofDirectory codecs d settings) arguments none
  { report := left.1, saved := left.2 }

end

end TextArt.CommandLine
