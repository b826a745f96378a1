import TextArt.CommandLine.Run
import TextArt.Proofs.FileNames
import TextArt.Proofs.Recordings

namespace TextArt

/-!
# Jobs — what a command line asks to be made

What a job makes is said here in words of its own: the standing settings that a file holds, the
wishes that are merged from two sources, the rate, the place and the output.  Then a job is shown to
do just that, and its output to be encoded.

* `Codecs.Standing` — the settings that a file stands for; there is exactly one of them, by
  `Codecs.standing_settingsOf` and `Codecs.Standing.eq_settingsOf`;
* `Options.Merges` — every wish comes from the one source, or else from the other;
* `Recording.ofPlayer_withConfig`, `render_of_kind` — the kind of the input, which its name may
  tell, makes no difference to what is written;
* `Recording.exists_ofPlayer` — a recording does not fail, and its frames have common sides;
* `Job.rate`, `Job.GoesTo`, `Job.Makes` — how fast the run of a job is, where its output goes, and
  what it is;
* `Job.effect_eq` — this is what a job does, and its output is encoded.
-/

/-! ### Settings and wishes -/

namespace Codecs

variable {Image : Type} (codecs : Codecs Image)

/-- The contents of a file are the bytes of a text that `parse` makes these `Settings` of, given
    what reading the file gave. -/
def Says (file : Except FileError Bytes) (s : Settings) : Prop :=
  ∃ text, file = .ok text.toUTF8.data.toList ∧ codecs.settings text = some s

/-- The settings that a file stands for: those that it `Says`, or else the ones that leave
    everything open, if it cannot be read or does not say any. -/
inductive Standing (file : Except FileError Bytes) : Settings → Prop where
  | said (s : Settings) (h : codecs.Says file s) : Standing file s
  | absent (h : ∀ s, ¬ codecs.Says file s) : Standing file { baud := none, options := {} }

variable {codecs} {file : Except FileError Bytes} {s : Settings}

/-- `String.fromUTF8?` finds the one text with these bytes. -/
theorem fromUTF8?_eq_some_iff {contents : Bytes} {text : String} :
    String.fromUTF8? contents.toByteArray = some text ↔ contents = text.toUTF8.data.toList := by
  constructor
  · intro h
    unfold String.fromUTF8? at h
    split at h
    · obtain rfl := Option.some.inj h
      show contents = contents.toByteArray.data.toList
      rw [List.data_toByteArray]
    · cases h
  · rintro rfl
    have hbytes : text.toUTF8.data.toList.toByteArray = text.toUTF8 :=
      ByteArray.ext (List.data_toByteArray ..)
    rw [hbytes]
    exact dif_pos text.isValidUTF8

/-- What a file `Says` is what `Settings.read` makes of it. -/
theorem read_eq_ok_iff {path : String} :
    Settings.read codecs.settings path file = .ok s ↔ codecs.Says file s := by
  constructor
  · intro h
    cases file with
    | error cause => cases h
    | ok contents =>
      -- both the decoding and the parsing have succeeded
      replace h : Settings.ofBytes codecs.settings path contents = .ok s := h
      unfold Settings.ofBytes at h
      split at h
      · cases h
      · next text htext =>
        split at h
        · cases h
        · next settings hparse =>
          obtain rfl := Except.ok.inj h
          exact ⟨text, congrArg _ (fromUTF8?_eq_some_iff.mp htext), hparse⟩
  · rintro ⟨text, rfl, hparse⟩
    simp only [Settings.read, Settings.ofBytes, fromUTF8?_eq_some_iff.mpr rfl, hparse]

/-- The settings of a run are those that `Standing` allows for its file. -/
theorem standing_settingsOf (file : Except FileError Bytes) :
    codecs.Standing file (CommandLine.settingsOf codecs file) := by
  unfold CommandLine.settingsOf
  cases hread : Settings.read codecs.settings "config.toml" file with
  | ok s => exact .said s (read_eq_ok_iff.mp hread)
  | error e =>
    refine .absent fun s hsays => ?_
    rw [read_eq_ok_iff.mpr hsays] at hread
    cases hread

/-- A file has no other settings `Standing` for it than those of `settingsOf`. -/
theorem Standing.eq_settingsOf (h : codecs.Standing file s) :
    s = CommandLine.settingsOf codecs file := by
  unfold CommandLine.settingsOf
  cases h with
  | said s hsays => rw [read_eq_ok_iff.mpr hsays]
  | absent hnone =>
    cases hread : Settings.read codecs.settings "config.toml" file with
    | ok s => exact absurd (read_eq_ok_iff.mp hread) (hnone s)
    | error e => rfl

end Codecs

/-- Every wish that is `merged` is the `upper` one if there is one, and else the `lower` one. -/
structure Options.Merges (upper lower merged : Options) : Prop where
  icecolors : merged.icecolors = upper.icecolors.or lower.icecolors
  bits : merged.bits = upper.bits.or lower.bits
  columns : merged.columns = upper.columns.or lower.columns
  font : merged.font = upper.font.or lower.font
  thumbnail : merged.thumbnail = upper.thumbnail.or lower.thumbnail
  double : merged.double = upper.double.or lower.double
  imagedata : merged.imagedata = upper.imagedata.or lower.imagedata
  rows : merged.rows = upper.rows.or lower.rows
  clearScreen : merged.clearScreen = upper.clearScreen.or lower.clearScreen
  filetype : merged.filetype = upper.filetype.or lower.filetype
  mode : merged.mode = upper.mode.or lower.mode

/-- To complete wishes with `Options.orElse` is to merge them. -/
theorem Options.merges_orElse (upper lower : Options) :
    upper.Merges lower (upper.orElse lower) :=
  ⟨rfl, rfl, rfl, rfl, rfl, rfl, rfl, rfl, rfl, rfl, rfl⟩

/-- There is one way to merge wishes: what `Merges` describes is `orElse`. -/
theorem Options.Merges.eq {upper lower merged : Options} (h : upper.Merges lower merged) :
    merged = upper.orElse lower := by
  obtain ⟨icecolors, bits, columns, font, thumbnail, double, imagedata, rows, clearScreen,
    filetype, mode⟩ := merged
  simp only [Options.orElse, Options.mk.injEq]
  exact ⟨h.icecolors, h.bits, h.columns, h.font, h.thumbnail, h.double, h.imagedata, h.rows,
    h.clearScreen, h.filetype, h.mode⟩

/-! ### The kind of a file -/

namespace Player

/-- A player under other settings, with the `terminal` that it has. -/
def withConfig (config : Config) (p : Player) : Player :=
  { p with config }

variable (config : Config) (p : Player)

theorem stepChunk_withConfig :
    (p.withConfig config).stepChunk.2 = p.stepChunk.2.withConfig config := by
  unfold stepChunk
  dsimp only [withConfig]
  rw [finish_eq, finish_eq]
  split <;> rfl

theorem tick_withConfig (time : Nat) :
    (p.withConfig config).tick time = (p.tick time).withConfig config := by
  have hchunked : (p.withConfig config).chunked time = (p.chunked time).withConfig config := by
    unfold chunked
    rw [apply_ite (withConfig config), ← stepChunk_withConfig]
    rfl
  rw [tick_eq_chunked, tick_eq_chunked, hchunked, apply_ite (withConfig config),
    apply_ite (withConfig config)]
  rfl

/-- The passing of time, by `advance`, does not depend on the `config`. -/
theorem advance_withConfig (time : Nat) :
    (p.withConfig config).advance time = (p.advance time).withConfig config := by
  refine @advance_related _ (fun q p => q = p.withConfig config) ?_ ?_ ?_ ?_ p rfl time
  · rintro _ p rfl
    exact ⟨rfl, rfl, rfl⟩
  · rintro _ p rfl
    rfl
  · rintro _ p time rfl
    rfl
  · rintro _ p time rfl
    exact p.tick_withConfig config time

end Player

namespace Recording

variable {Image : Type} {fromRaw : Nat → Nat → ByteArray → Option Image} {p : Player}
  {r : Recording Image}

theorem follow_withConfig (config : Config) (n : Nat) (ended : Bool) :
    follow fromRaw n ended r (p.withConfig config)
      = (follow fromRaw n ended r p).map fun left => (left.1, left.2.withConfig config) := by
  induction n generalizing ended r p with
  | zero => rfl
  | succ n ih =>
    -- the next frame is the same, and so is the player behind it but for its settings
    have hframe : ((p.withConfig config).advance blinkPeriod).frame
        = ((p.advance blinkPeriod).frame.1, (p.advance blinkPeriod).frame.2.withConfig config) := by
      rw [p.advance_withConfig config]
      rfl
    unfold follow
    rw [hframe]
    dsimp only
    cases r.push fromRaw (p.advance blinkPeriod).frame.1 with
    | error e => rfl
    | ok r =>
      cases ended with
      | true => rfl
      | false => exact ih _

/-- The frames of a run do not depend on its `config`, but for the screen that it begins with. -/
theorem ofPlayer_withConfig (config : Config) (limit : Nat) :
    ofPlayer fromRaw (p.withConfig config) limit
      = (ofPlayer fromRaw p limit).map fun left => (left.1, left.2.withConfig config) :=
  follow_withConfig config limit false

/-- If there are images of all frames of a run, its recording is made of the first of its
    `Player.shots`. -/
theorem exists_follow {develop : Raster → Image}
    (himage : ∀ i, (p.filmed i).nextShot.1.image fromRaw = .ok (develop (p.filmed i).nextShot.1))
    (n : Nat) (ended : Bool) :
    ∃ k last, follow fromRaw n ended r p = .ok (r.append ((p.shots k).map develop), last) := by
  induction n generalizing ended r p with
  | zero => exact ⟨0, p, by rw [Player.shots, List.map_nil, append_nil]; rfl⟩
  | succ n ih =>
    have hfirst : p.nextShot.1.image fromRaw = .ok (develop p.nextShot.1) := himage 0
    rw [follow_succ hfirst]
    cases ended with
    | true => exact ⟨1, _, rfl⟩
    | false =>
      -- the frames of what is left of the run are the later ones of the run
      have hnext : ∀ i, (p.nextShot.2.filmed i).nextShot.1.image fromRaw
          = .ok (develop (p.nextShot.2.filmed i).nextShot.1) := fun i => by
        rw [← Player.filmed_succ]
        exact himage (i + 1)
      obtain ⟨k, last, hrest⟩ := @ih p.nextShot.2 (r.append [develop p.nextShot.1]) hnext
        (!p.nextShot.2.isPlaying)
      refine ⟨k + 1, last, ?_⟩
      rw [if_neg Bool.false_ne_true, hrest, Player.shots, List.map_cons,
        append_cons r (develop p.nextShot.1) ((p.nextShot.2.shots k).map develop)]

/-- A run that has just been started has a recording, whose frames are images of rasters of the
    sides in `Player.sides_filmed`. -/
theorem exists_ofPlayer
    (htakes : ∀ width height rgba, width * height * 4 ≤ rgba.size →
      (fromRaw width height rgba).isSome)
    (file : Bytes) (o : Options) (baud : Option Nat) (limit : Nat) :
    ∃ recording last,
      ofPlayer fromRaw ((Player.new file (.ofOptions o)).play baud none true) limit
        = .ok (recording, last)
      ∧ ∀ image ∈ recording.frames, ∃ frame : Raster,
          fromRaw frame.width frame.height frame.toBytes = some image
          ∧ (1 ≤ frame.width ∧ frame.width ≤ 512 * 9)
          ∧ 1 ≤ frame.height ∧ frame.height ≤ 256 * 16 := by
  let run := (Player.new file (.ofOptions o)).play baud none true
  obtain ⟨develop, hdevelop⟩ := exists_develop htakes
  have hsides := Player.sides_filmed file o baud
  obtain ⟨k, last, hrecording⟩ := @exists_follow _ fromRaw run (empty blinkDelay) develop
    (fun i => (hdevelop _).2 (hsides i).1.2 (hsides i).2.2) limit false
  refine ⟨_, last, hrecording, fun image himage => ?_⟩
  rw [frames_append_empty, List.mem_toArray, List.mem_map] at himage
  obtain ⟨frame, hframe, rfl⟩ := himage
  obtain ⟨i, rfl⟩ := Player.exists_filmed_of_mem_shots run hframe
  exact ⟨_, (hdevelop _).1, hsides i⟩

end Recording

/-- A render does not depend on the `filetype`. -/
theorem render_of_kind (file : Bytes) (o : Options) (kind : Option String) :
    render file { o with filetype := kind } = render file o := rfl

/-! ### Outputs -/

namespace Job

/-- The rate of a run: that of the command line, or else that of the `Settings`, or else 115200. -/
def rate (a : Arguments) (s : Settings) : Nat :=
  match a.baud, s.baud with
  | some baud, _ => baud
  | none, some baud => baud
  | none, none => 115200

/-- Where the output of a job goes: where the command line says, or else to the path that the input
    `FileName.Renames` to with the extension of what it is.  Bare pixels are wished for by the
    number one in `imagedata`. -/
inductive GoesTo (a : Arguments) (merged : Options) (input : String) : String → Prop where
  | named (path : String) (houtput : a.output = some path) : GoesTo a merged input path
  | beside (path : String) (houtput : a.output = none)
      (hpath : FileName.Renames
        (if a.animate then "gif" else if merged.imagedata = some 1 then "rgba" else "png")
        input path) :
      GoesTo a merged input path

section

variable {Image : Type} (codecs : Codecs Image) (a : Arguments) (s : Settings) (merged : Options)
  (input : String) (contents : Bytes)

/-- The output of a job: the recording of a run at the `rate` of the job, of 1200 frames at most; or
    the bare pixels of the render, if `imagedata` is wished for by the number one; or an image of
    the render. -/
inductive Makes : Artifact Image → Prop where
  | animation (recording : Recording Image) (last : Player) (hanimate : a.animate = true)
      (hrecording : Recording.ofPlayer codecs.fromRaw
        ((Player.new contents (.ofOptions merged)).play (some (rate a s)) none true) 1200
        = .ok (recording, last)) :
      Makes (.animation recording)
  | pixels (hanimate : a.animate = false) (hraw : merged.imagedata = some 1) :
      Makes (.pixels (render contents merged).rgba)
  | picture (image : Image) (hanimate : a.animate = false) (hraw : merged.imagedata ≠ some 1)
      (himage : codecs.fromRaw (render contents merged).width (render contents merged).height
        (render contents merged).rgba = some image) :
      Makes (.picture image)

/-- The animation of a file does not depend on the `filetype`. -/
theorem animation_of_kind (config : Config) (kind : String) (baud : Option Nat) :
    animation codecs contents { config with filetype := kind } baud
      = animation codecs contents config baud := by
  let run := (Player.new contents config).play baud none true
  have hrun : (Player.new contents { config with filetype := kind }).play baud none true
      = run.withConfig { config with filetype := kind } :=
    (Player.new contents config).started baud none true |>.stepChunk_withConfig _
  rw [animation, hrun, Recording.ofPlayer_withConfig, animation]
  cases Recording.ofPlayer codecs.fromRaw run frameLimit <;> rfl

/-- Bare pixels are wished for by `imagedata` being the number one. -/
theorem imageData_ofOptions (o : Options) :
    (Config.ofOptions o).imageData = decide (o.imagedata = some 1) := by
  show Config.switch o.imagedata false = _
  unfold Config.switch
  split
  · next hzero => rw [hzero]; rfl
  · split
    · next hone => rw [hone]; rfl
    · next hother => exact (decide_eq_false hother).symm

theorem play_rate (p : Player) :
    p.play (some (rate a s)) none true = p.play (a.baud.or s.baud) none true := by
  unfold rate
  cases a.baud with
  | some baud => rfl
  | none => cases s.baud <;> rfl

/-- The output of a job goes to its `outputPath`, and nowhere else, if its input has the name of a
    file. -/
theorem goesTo_iff (hinput : FileName.isFile (FileName.folderAndName input).2 = true)
    {path : String} :
    GoesTo a merged input path ↔ path = outputPath a (Config.ofOptions merged) input := by
  have hextension : outputExtension a (Config.ofOptions merged)
      = if a.animate then "gif" else if merged.imagedata = some 1 then "rgba" else "png" := by
    simp only [outputExtension, imageData_ofOptions, decide_eq_true_eq]
  unfold outputPath
  rw [hextension]
  constructor
  · intro h
    cases h with
    | named houtput => rw [houtput, Option.getD_some]
    | beside houtput hpath =>
      rw [houtput, Option.getD_none]
      exact (FileName.renames_iff hinput).mp hpath
  · rintro rfl
    cases houtput : a.output with
    | some path => exact .named path houtput
    | none => exact .beside _ houtput ((FileName.renames_iff hinput).mpr rfl)

variable {codecs}

/-- What a job does that is not for the record of its input: it saves its output, which is encoded
    by `Reliable` codecs. -/
theorem effect_eq (hcodecs : codecs.Reliable) (hsauce : a.sauce = false)
    (hmerged : a.options.Merges s.options merged) :
    ∃ artifact, Makes codecs a s merged contents artifact
      ∧ effect codecs s a input contents
        = .ok (.save (outputPath a (Config.ofOptions merged) input) (.ok artifact))
      ∧ codecs.refusal artifact = none := by
  let config := Config.ofOptions merged
  let path := outputPath a config input
  obtain rfl := hmerged.eq
  -- the name of the input tells no more than its kind
  have heffect : effect codecs s a input contents =
      if a.animate then
        (animation codecs contents config (a.baud.or s.baud)).map fun recording =>
          .save path (.ok (.animation recording))
      else .ok (.save path
        (if config.imageData then .ok (.pixels (render contents (a.options.orElse s.options)).rgba)
          else ((render contents (a.options.orElse s.options)).image codecs.fromRaw).map
            .picture)) := by
    have hanimation := animation_of_kind codecs contents config
      (Config.ofOptions (wishes s a input)).filetype (a.baud.or s.baud)
    have hpicture := render_of_kind contents (a.options.orElse s.options)
      (wishes s a input).filetype
    rw [effect, if_neg (Bool.eq_false_iff.mp hsauce), ← hanimation, ← hpicture]
    rfl
  rw [heffect, imageData_ofOptions]
  cases hanimate : a.animate with
  | true =>
    obtain ⟨recording, last, hrecording, hframes⟩ := Recording.exists_ofPlayer hcodecs.takes
      contents (a.options.orElse s.options) (a.baud.or s.baud) frameLimit
    refine ⟨.animation recording, .animation recording last hanimate ?_, ?_, ?_⟩
    · rw [play_rate]
      exact hrecording
    · rw [if_pos rfl, animation, hrecording]
      rfl
    · refine hcodecs.encodes_animation recording fun image himage => ?_
      obtain ⟨frame, hraw, hwidth, hheight⟩ := hframes image himage
      exact ⟨frame.width, frame.height, frame.toBytes, hraw,
        ⟨hwidth.1, hwidth.2.trans (by decide)⟩, hheight.1, hheight.2.trans (by decide)⟩
  | false =>
    rw [if_neg Bool.false_ne_true]
    by_cases hraw : (a.options.orElse s.options).imagedata = some 1
    · rw [if_pos (decide_eq_true hraw)]
      exact ⟨_, .pixels hanimate hraw, rfl, rfl⟩
    · obtain ⟨image, hfromRaw, himage⟩ :=
        exists_image_render contents (a.options.orElse s.options) hcodecs.takes
      obtain ⟨hwidth, hheight⟩ := sides_render_le contents (a.options.orElse s.options)
      rw [decide_eq_false hraw, if_neg Bool.false_ne_true, himage]
      refine ⟨_, .picture image hanimate hraw hfromRaw, rfl, ?_⟩
      exact hcodecs.encodes_picture image ⟨_, _, _, hfromRaw,
        ⟨hwidth.1, hwidth.2.trans (by decide)⟩, hheight.1, hheight.2.trans (by decide)⟩

end

end Job

end TextArt
