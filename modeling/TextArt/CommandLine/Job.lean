import TextArt.Codecs
import TextArt.CommandLine.Arguments
import TextArt.CommandLine.FileName
import TextArt.Render

namespace TextArt

/-!
# Jobs — what a command line does

* `Job.effect` — the text that a job shows, or the file that it writes, given the
  contents of its input and the standing settings;
* `Report` — what is printed, and how the program ends;
* `usageText`, `describeRecord` — the texts that the program shows.
-/

/-- The name that the program goes by, in `versionText` and in `usageText`. -/
def programName : String := "ansiplay"

/-- The version of the program, in `versionText`. -/
def programVersion : String := "0.1.0"

/-- The program and its version: `programName` and `programVersion`. -/
def versionText : String := programName ++ " " ++ programVersion

/-- The `lines`, each with its end. -/
def unlines (lines : List String) : String :=
  String.join (lines.map (· ++ "\n"))

/-- The help that the program gives, with the names in `Font.presets`. -/
def usageText : String := unlines [
  versionText ++ " - ANSI art renderer and baud-paced player",
  "",
  "Usage: " ++ programName ++ " [OPTIONS] <FILE>",
  "",
  "Output options:",
  "  -o, --output <PATH>   Output file (default: input with .png/.gif/.rgba)",
  "  --imagedata           Write the raw RGBA buffer instead of a PNG",
  "  --animate             Write an animated GIF of the paced replay",
  "  --baud <N>            Replay rate in bits per second (default: 115200)",
  "  --sauce               Print the SAUCE record and exit",
  "",
  "Render options:",
  "  --icecolors           Blink becomes bright background",
  "  --bits <B>            8, 9, ced or workbench",
  "  --columns <N>         Override the column count",
  "  --rows <N>            Surface height in rows (default: 26)",
  "  --font <NAME>         " ++ " or ".intercalate Font.presets,
  "  --thumbnail <N>       Downsample level 0-3",
  "  --2x                  Mark output as double density",
  "  --no-2j               Ignore the clear-screen escape",
  "  --mode <M>            Editor mode hint (ced implies 78 columns)",
  "",
  "Other options:",
  "  -v, --verbose         Debug logging",
  "  -V, --version         Show version",
  "  -h, --help            Show this help",
  "",
  "Configuration: ~/.ansiplay/config.toml",
  "Log filter: ANSIPLAY_LOG (e.g. ANSIPLAY_LOG=trace)"]

/-- What there is to say about the record of a file, or that there is no `Sauce`. -/
def describeRecord : Option Sauce → String
  | none => unlines ["No SAUCE record"]
  | some s => unlines
    (["Title:    " ++ s.title,
      "Author:   " ++ s.author,
      "Group:    " ++ s.group,
      "Date:     " ++ s.date,
      "Version:  " ++ s.version,
      "Type:     " ++ toString s.dataType ++ "/" ++ toString s.fileType,
      "Size:     " ++ toString s.tinfo1 ++ "x" ++ toString s.tinfo2,
      "iCE:      " ++ (if s.iceColors then "true" else "false")]
    ++ (if s.tinfoS = "" then [] else ["Font:     " ++ s.tinfoS])
    ++ s.comments.map ("Comment:  " ++ ·))

/-! ### What is printed -/

/-- What is printed to `out` and `err`, and how the program ends. -/
structure Report where
  /-- Zero for success, and one for `misuse` and `failure`. -/
  status : Nat := 0
  out : String := ""
  err : String := ""
  deriving DecidableEq, Repr

namespace Report

/-- The end of a job that did what it was asked for, and prints `out`. -/
def success (out : String) : Report := { out }

/-- An answer that goes to `err` although nothing failed. -/
def answer (text : String) : Report := { err := text }

/-- The end of a command line that is refused, with `UsageError.message`. -/
def misuse (e : UsageError) : Report where
  status := 1
  err := unlines ["Error: " ++ e.message, "Use --help for usage information"]

/-- The lines of a chain of `causes`, which are numbered if there is more than one. -/
def causeLines : List String → List String
  | [cause] => ["    " ++ cause]
  | causes => causes.mapIdx fun i cause => "    " ++ toString i ++ ": " ++ cause

/-- The end of a job that failed at `what` for some causes, or for none that is worth
    telling. -/
def failure (what : String) (causes : List String) : Report where
  status := 1
  err := unlines (["Error: " ++ what]
    ++ if causes.isEmpty then [] else ["", "Caused by:"] ++ causeLines causes)

/-- The end of a job whose input cannot be read, with `FileError.message`. -/
def unreadable (path : String) (cause : FileError) : Report :=
  failure ("Failed to read " ++ path) [cause.message]

/-- The end of a job whose output cannot be written, with `SaveError.causes`. -/
def unwritable (path : String) (e : SaveError) : Report :=
  failure ("Failed to write " ++ path) e.causes

end Report

/-! ### What is done -/

namespace Job

/-- The most frames that an `animation` has. -/
def frameLimit : Nat := 1200

/-- What a job does once its input is read: it shows a text, or saves an `Artifact`, of which there
    may be no image. -/
inductive Effect (Image : Type) where
  | display (text : String)
  | save (path : String) (artifact : Except SaveError (Artifact Image))

/-- The wishes of a job: those of the command line, completed by the standing ones with
    `Options.orElse`, and the `FileName.extension?` of the input if nothing else names a kind. -/
def wishes (settings : Settings) (a : Arguments) (input : String) : Options :=
  let wishes := a.options.orElse settings.options
  { wishes with
    filetype := wishes.filetype.or ((FileName.extension? input).map String.toLower) }

/-- The extension of the output of a job that names no `output`. -/
def outputExtension (a : Arguments) (config : Config) : String :=
  if a.animate then "gif" else if config.imageData then "rgba" else "png"

/-- Where the output of a job goes: to the `output`, or to `FileName.withExtension` of the input. -/
def outputPath (a : Arguments) (config : Config) (input : String) : String :=
  a.output.getD (FileName.withExtension input (outputExtension a config))

section

variable {Image : Type} (codecs : Codecs Image)

/-- The animation of a file: the `Recording.ofPlayer` of a run at the rate `baud`, of at most
    `frameLimit` frames. -/
def animation (contents : Bytes) (config : Config) (baud : Option Nat) :
    Except SaveError (Recording Image) :=
  (Recording.ofPlayer codecs.fromRaw ((Player.new contents config).play baud none true)
    frameLimit).map (·.1)

/-- What a job does with the contents of its input: it describes their record, or saves the
    `animation`, the pixels or the `Picture.image` of them. -/
def effect (settings : Settings) (a : Arguments) (input : String) (contents : Bytes) :
    Except SaveError (Effect Image) :=
  if a.sauce then .ok (.display (describeRecord (Sauce.ofBytes? contents)))
  else
    let wishes := wishes settings a input
    let config := Config.ofOptions wishes
    let path := outputPath a config input
    if a.animate then
      (animation codecs contents config (a.baud.or settings.baud)).map fun recording =>
        .save path (.ok (.animation recording))
    else
      let picture := render contents wishes
      .ok (.save path
        (if config.imageData then .ok (.pixels picture.rgba)
          else (picture.image codecs.fromRaw).map .picture))

end

end Job

end TextArt
