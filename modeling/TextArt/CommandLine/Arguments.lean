import TextArt.CommandLine.Number
import TextArt.Options

namespace TextArt

/-!
# Arguments — what a command line asks for

* `Arguments` — the settings that a command line makes;
* `Flag` — what one flag means: an answer at once, a switch, or a setting that takes
  the next argument as its value, whatever that looks like;
* `Arguments.parse` — a whole command line, read from the left.
-/

/-- The settings that a command line makes, which `Arguments.parse` collects. -/
structure Arguments where
  /-- The file to read, which a job needs; see `UsageError.missingInput`. -/
  input : Option String := none
  /-- The file to write, if it is not the one that `FileName.withExtension` finds. -/
  output : Option String := none
  options : Options := {}
  /-- The rate of a run in bits per second, for `Player.play`. -/
  baud : Option Nat := none
  /-- Write an animation, which `Job.animation` makes. -/
  animate : Bool := false
  /-- Show the record of the file, in the words of `describeRecord`. -/
  sauce : Bool := false
  /-- Say more about what is done, in a log on which nothing else depends. -/
  verbose : Bool := false
  deriving DecidableEq, Inhabited, Repr

/-- Why a command line is refused, by `Arguments.parse`. -/
inductive UsageError where
  | missingValue (flag : String)
  | badNumber (flag text : String)
  | badRate (text : String)
  | unknownFlag (flag : String)
  | secondInput (path : String)
  | missingInput
  deriving DecidableEq, Repr

/-- The wording of a usage error, in which `flag`, `text` and `path` are quoted. -/
def UsageError.message : UsageError → String
  | missingValue flag => "Missing argument for " ++ flag
  | badNumber flag text => "Invalid number for " ++ flag ++ ": " ++ text
  | badRate text => "Invalid baud rate: " ++ text
  | unknownFlag flag => "Unknown argument: " ++ flag ++ ". Use -h for help."
  | secondInput path => "Unexpected argument: " ++ path
  | missingInput => "Missing input file"

/-- The meaning of a flag, which `Flag.named?` finds. -/
inductive Flag where
  | help
  | version
  | switch (set : Arguments → Arguments)
  | valued (set : String → Arguments → Except UsageError Arguments)

namespace Flag

/-- A flag that changes the render wishes, in `Arguments.options`. -/
def wish (set : Options → Options) : Flag :=
  switch fun a => { a with options := set a.options }

/-- A flag whose value is a render wish in words, as they are. -/
def wordWish (set : String → Options → Options) : Flag :=
  valued fun text a => .ok { a with options := set text a.options }

/-- A flag whose value is a render wish in numbers; `name` is how the flag was
    written. -/
def numberWish (name : String) (set : Int → Options → Options) : Flag :=
  valued fun text a =>
    match CommandLine.integer? text with
    | some n => .ok { a with options := set n a.options }
    | none => .error (.badNumber name text)

/-- A flag whose value is a rate, which `CommandLine.rate?` reads. -/
def rate : Flag :=
  valued fun text a =>
    match CommandLine.rate? text with
    | some n => .ok { a with baud := some n }
    | none => .error (.badRate text)

/-- The flag that an argument is, if it is one of those in `usageText`. -/
def named? : String → Option Flag
  | "-h" | "--help" => some help
  | "-V" | "--version" => some version
  | "-v" | "--verbose" => some (switch fun a => { a with verbose := true })
  | "-o" | "--output" => some (valued fun text a => .ok { a with output := some text })
  | "--animate" => some (switch fun a => { a with animate := true })
  | "--sauce" => some (switch fun a => { a with sauce := true })
  | "--baud" => some rate
  | "--imagedata" => some (wish fun o => { o with imagedata := some 1 })
  | "--icecolors" => some (wish fun o => { o with icecolors := some 1 })
  | "--2x" => some (wish fun o => { o with double := some 1 })
  | "--no-2j" => some (wish fun o => { o with clearScreen := some 0 })
  | "--bits" => some (wordWish fun text o => { o with bits := some text })
  | "--font" => some (wordWish fun text o => { o with font := some text })
  | "--mode" => some (wordWish fun text o => { o with mode := some text })
  | "--columns" => some (numberWish "--columns" fun n o => { o with columns := some n })
  | "--rows" => some (numberWish "--rows" fun n o => { o with rows := some n })
  | "--thumbnail" => some (numberWish "--thumbnail" fun n o => { o with thumbnail := some n })
  | _ => none

end Flag

/-- What a command line comes to, if it is not refused with a `UsageError`. -/
inductive Request where
  | help
  | version
  | job (a : Arguments)
  deriving DecidableEq, Repr

namespace Arguments

/-- Whether an argument is written like a flag.  A lone dash is a path, for `positional`. -/
def isFlagLike (argument : String) : Bool :=
  argument.startsWith "-" && argument ≠ "-"

/-- Take an argument that is no flag: the `input`, of which there is only one. -/
def positional (a : Arguments) (argument : String) : Except UsageError Arguments :=
  if isFlagLike argument then .error (.unknownFlag argument)
  else if a.input.isSome then .error (.secondInput argument)
  else .ok { a with input := some argument }

/-- Take the arguments from the left, by `Flag.named?`.  A flag that is answered at once ends the
    reading, so that mistakes after it go unnoticed. -/
def parseFrom (a : Arguments) : List String → Except UsageError Request
  | [] => if a.input.isSome then .ok (.job a) else .error .missingInput
  | argument :: rest =>
    match Flag.named? argument, rest with
    -- nothing after such a flag is looked at, not even for a path
    | some .help, _ => .ok .help
    | some .version, _ => .ok .version
    | some (.switch set), rest => (set a).parseFrom rest
    | some (.valued _), [] => .error (.missingValue argument)
    | some (.valued set), value :: rest => do (← set value a).parseFrom rest
    | none, rest => do (← a.positional argument).parseFrom rest

/-- What a command line asks for, read by `parseFrom` from settings that are all unset. -/
def parse (arguments : List String) : Except UsageError Request :=
  parseFrom {} arguments

/-- Nothing at all asks for nothing, and there is a `missingInput`. -/
theorem parse_nil : parse [] = .error .missingInput := rfl

end Arguments

end TextArt
