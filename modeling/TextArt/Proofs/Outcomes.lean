import Mathlib
import TextArt.Format.Codecs
import TextArt.Proofs.Jobs

namespace TextArt

/-!
# Outcomes — what a command line does to the files of a directory

A run writes one file or none.  It writes none if it fails, and nothing makes it fail once it has
begun to write: its output is encoded, so that a place for the file is all that may be missing.

* `Arguments.input_of_parseFrom` — a command line for a job names an input;
* `CommandLine.Journal`, `CommandLine.journal` — all that a command line does to files, also if it
  leaves a file without contents;
* `CommandLine.work_of_unreadable`, `CommandLine.work_of_sauce`, `CommandLine.work_of_output` — what
  a job does, by what there is to do;
* `CommandLine.Ends` — the ways in which a run ends, one of which any run does, by
  `CommandLine.ends_journal`;
* `CommandLine.journal_of_run` — what a run reports, and what it has done to files.
-/

/-- A command line that `parseFrom` takes for a job names an input. -/
theorem Arguments.input_of_parseFrom {a b : Arguments} {arguments : List String}
    (h : a.parseFrom arguments = .ok (.job b)) : b.input.isSome = true := by
  -- a job comes of the end of a command line, and what comes before only leads there
  fun_induction parseFrom a arguments with
  | case1 a hinput =>
    obtain rfl : a = b := by simpa using h
    exact hinput
  | case2 | case3 | case4 | case6 => simp at h
  | case5 a argument set rest hflag ih => exact ih h
  | case7 a argument set value rest hflag ih =>
    cases hset : set value a with
    | error e => simp [hset, bind, Except.bind] at h
    | ok a =>
      rw [hset] at h
      exact ih a h
  | case8 a argument rest hflag ih =>
    cases hpositional : a.positional argument with
    | error e => simp [hpositional, bind, Except.bind] at h
    | ok a =>
      rw [hpositional] at h
      exact ih a h

namespace CommandLine

/-- All that is done to files, the latest first: each that is made, or emptied if there is one, with
    the `Artifact` that is then written to it, if that succeeds. -/
abbrev Journal (Image : Type) := List (Directory.Place × Option (Artifact Image))

/-- The file that has been filled last. -/
def Journal.saved {Image : Type} (journal : Journal Image) : Saved Image :=
  journal.head?.bind fun change => change.2.map fun artifact => (change.1, artifact)

section

variable {Image : Type} (codecs : Codecs Image)

/-- Save an artifact in a directory, step by step: a file is made before it is filled, which
    `Codecs.refusal` may prevent. -/
def keep (d : Directory) (path : String) (a : Artifact Image) :
    StateM (Journal Image) (Except SaveError Unit) := fun journal =>
  match d.place path with
  | .error cause => (.error (a.refused cause), journal)
  | .ok place =>
    match codecs.refusal a with
    | some reason => (.error (.refused reason), (place, none) :: journal)
    | none => (.ok (), (place, some a) :: journal)

/-- The files of a directory, where all that is done is noted down by `keep`. -/
def Files.journaled (d : Directory) (file : Except FileError Bytes) :
    Files Image (StateM (Journal Image)) where
  settings := pure file
  read path := pure (d.read path)
  save path a := keep codecs d path a

/-- A command line at work in a `Directory`: the `Report`, and what it has done to files. -/
def journal (d : Directory) (file : Except FileError Bytes) (arguments : List String) :
    Report × Journal Image :=
  answer codecs (.journaled codecs d file) arguments []

end

section

variable {Image : Type} {codecs : Codecs Image} {d : Directory} {file : Except FileError Bytes}
  {a : Arguments} {input : String} {contents : Bytes}

/-- A job whose input `Directory.read` does not find does nothing. -/
theorem work_of_unreadable {cause : FileError} (h : d.read input = .error cause)
    (journal : Journal Image) :
    work codecs (.journaled codecs d file) a input journal
      = (.unreadable input cause, journal) := by
  simp only [work, Files.journaled, pure_bind, h]
  rfl

/-- A job for the record of its input, one with `sauce`, does nothing to files. -/
theorem work_of_sauce (h : d.read input = .ok contents) (hsauce : a.sauce = true)
    (journal : Journal Image) :
    work codecs (.journaled codecs d file) a input journal
      = (.success (describeRecord (Sauce.ofBytes? contents)), journal) := by
  simp only [work, Files.journaled, pure_bind, h, Job.effect, hsauce, if_true]
  rfl

/-- Any other job makes one file and fills it, if there is a place for the path that it
    `Job.GoesTo`. -/
theorem work_of_output (hcodecs : codecs.Reliable) {s : Settings} {merged : Options}
    (hstanding : codecs.Standing file s) (hmerged : a.options.Merges s.options merged)
    {path : String} (hpath : Job.GoesTo a merged input path) (h : d.read input = .ok contents)
    (hsauce : a.sauce = false) (journal : Journal Image) :
    ∃ artifact, Job.Makes codecs a s merged contents artifact
      ∧ work codecs (.journaled codecs d file) a input journal =
        match d.place path with
        | .error cause => (.unwritable path (artifact.refused cause), journal)
        | .ok place => (.success "", (place, some artifact) :: journal) := by
  obtain ⟨artifact, hmakes, heffect, hrefusal⟩ :=
    Job.effect_eq a s merged input contents hcodecs hsauce hmerged
  obtain rfl := hstanding.eq_settingsOf
  rw [← (Job.goesTo_iff a merged input (Directory.isFile_of_read h)).mp hpath] at heffect
  refine ⟨artifact, hmakes, ?_⟩
  simp only [work, Files.journaled, pure_bind, h, heffect]
  -- as the output is encoded, only the place for it is in question
  simp only [bind, StateT.bind, keep, hrefusal]
  cases d.place path <;> rfl

end

/-- A command line with such a `Report` is at work for nothing that is written to a file: it fails,
    or it is answered at once, or it shows the record of its input. -/
def Quiet (arguments : List String) (report : Report) : Prop :=
  report.status ≠ 0
    ∨ Arguments.parse arguments = .ok .help ∨ Arguments.parse arguments = .ok .version
    ∨ ∃ a, Arguments.parse arguments = .ok (.job a) ∧ a.sauce = true

/-- A command line fails under such `Settings`: it is refused, or its input cannot be read, or there
    is no place for its output. -/
def Fails (d : Directory) (s : Settings) (arguments : List String) : Prop :=
  (∃ e, Arguments.parse arguments = .error e)
    ∨ ∃ a input, Arguments.parse arguments = .ok (.job a) ∧ a.input = some input
      ∧ ((∃ cause, d.read input = .error cause)
        ∨ (∃ contents, d.read input = .ok contents) ∧ a.sauce = false
          ∧ ∃ merged path cause, a.options.Merges s.options merged
            ∧ Job.GoesTo a merged input path ∧ d.place path = .error cause)

section

variable {Image : Type} (codecs : Codecs Image) (d : Directory) (file : Except FileError Bytes)
  (arguments : List String)

/-- To save an artifact by `saveIn` is to make a file and fill it. -/
theorem saveIn_eq_keep (path : String) (a : Artifact Image) :
    saveIn codecs d path a none
      = ((keep codecs d path a []).1, Journal.saved (keep codecs d path a []).2) := by
  unfold saveIn Directory.save keep
  cases d.place path with
  | error cause => rfl
  | ok place =>
    dsimp only
    cases codecs.refusal a <;> rfl

/-- What a `run` leaves behind is all that it has done to files. -/
theorem run_eq_journal :
    run codecs d file arguments =
      { report := (journal codecs d file arguments).1
        saved := (journal codecs d file arguments).2.saved } := by
  unfold run journal answer
  -- up to the saving of its output, a run does nothing to files
  cases Arguments.parse arguments with
  | error e => rfl
  | ok request =>
    cases request with
    | help => rfl
    | version => rfl
    | job a =>
      dsimp only
      cases a.input with
      | none => rfl
      | some input =>
        simp only [work, Files.journaled, Files.ofDirectory, pure_bind]
        cases d.read input with
        | error cause => rfl
        | ok contents =>
          dsimp only
          cases Job.effect codecs (settingsOf codecs file) a input contents with
          | error e => rfl
          | ok effect =>
            cases effect with
            | display text => rfl
            | save path artifact =>
              cases artifact with
              | error e => rfl
              | ok artifact =>
                simp only [bind, StateT.bind, saveIn_eq_keep]
                generalize keep codecs d path artifact [] = left
                obtain ⟨result, changes⟩ := left
                cases result <;> rfl

variable {arguments}

/-- What a command line does for a job that `Arguments.parse` finds in it. -/
theorem journal_of_job {a : Arguments} {input : String}
    (hparse : Arguments.parse arguments = .ok (.job a)) (hinput : a.input = some input) :
    journal codecs d file arguments = work codecs (.journaled codecs d file) a input [] := by
  unfold journal answer
  rw [hparse]
  dsimp only
  rw [hinput]

end

/-- The ways in which a run ends under such `Settings`, and what it has done to files by then. -/
inductive Ends {Image : Type} (codecs : Codecs Image) (d : Directory) (s : Settings)
    (arguments : List String) : Report × Journal Image → Prop where
  | refused (e : UsageError) (h : Arguments.parse arguments = .error e) :
      Ends codecs d s arguments (.misuse e, [])
  | answered (text : String)
      (h : Arguments.parse arguments = .ok .help ∨ Arguments.parse arguments = .ok .version) :
      Ends codecs d s arguments (.answer text, [])
  | unreadable (a : Arguments) (input : String) (cause : FileError)
      (hparse : Arguments.parse arguments = .ok (.job a)) (hinput : a.input = some input)
      (hread : d.read input = .error cause) :
      Ends codecs d s arguments (.unreadable input cause, [])
  | shown (a : Arguments) (record : String)
      (hparse : Arguments.parse arguments = .ok (.job a)) (hsauce : a.sauce = true) :
      Ends codecs d s arguments (.success record, [])
  | unwritable (a : Arguments) (input : String) (merged : Options) (path : String)
      (contents : Bytes) (cause : FileError) (e : SaveError)
      (hparse : Arguments.parse arguments = .ok (.job a)) (hinput : a.input = some input)
      (hmerged : a.options.Merges s.options merged) (hpath : Job.GoesTo a merged input path)
      (hread : d.read input = .ok contents) (hsauce : a.sauce = false)
      (hplace : d.place path = .error cause) :
      Ends codecs d s arguments (.unwritable path e, [])
  | written (a : Arguments) (input : String) (merged : Options) (path : String) (contents : Bytes)
      (place : Directory.Place) (artifact : Artifact Image)
      (hparse : Arguments.parse arguments = .ok (.job a)) (hinput : a.input = some input)
      (hmerged : a.options.Merges s.options merged) (hpath : Job.GoesTo a merged input path)
      (hread : d.read input = .ok contents) (hsauce : a.sauce = false)
      (hplace : d.place path = .ok place) (hmakes : Job.Makes codecs a s merged contents artifact) :
      Ends codecs d s arguments (.success "", [(place, some artifact)])

section

variable {Image : Type} {codecs : Codecs Image} (hcodecs : codecs.Reliable) {d : Directory}
  {file : Except FileError Bytes} {s : Settings} {arguments : List String}

include hcodecs

/-- A run ends in one of the ways of `Ends`. -/
theorem ends_journal (hstanding : codecs.Standing file s) :
    Ends codecs d s arguments (journal codecs d file arguments) := by
  cases hparse : Arguments.parse arguments with
  | error e =>
    have hrefused : journal codecs d file arguments = (.misuse e, []) := by
      rw [journal, answer, hparse]
      rfl
    rw [hrefused]
    exact .refused e hparse
  | ok request =>
    cases request with
    | help =>
      have hhelp : journal codecs d file arguments = (.answer usageText, []) := by
        rw [journal, answer, hparse]
        rfl
      rw [hhelp]
      exact .answered usageText (.inl hparse)
    | version =>
      have hversion : journal codecs d file arguments = (.answer (unlines [versionText]), []) := by
        rw [journal, answer, hparse]
        rfl
      rw [hversion]
      exact .answered _ (.inr hparse)
    | job a =>
      -- without an input, the command line would have been refused
      obtain ⟨input, hinput⟩ := Option.isSome_iff_exists.mp (Arguments.input_of_parseFrom hparse)
      have hmerged := a.options.merges_orElse s.options
      rw [journal_of_job codecs d file hparse hinput]
      cases hread : d.read input with
      | error cause =>
        rw [work_of_unreadable hread]
        exact .unreadable a input cause hparse hinput hread
      | ok contents =>
        cases hsauce : a.sauce with
        | true =>
          rw [work_of_sauce hread hsauce]
          exact .shown a _ hparse hsauce
        | false =>
          -- what has been read has the name of a file
          have hpath := (Job.goesTo_iff a (a.options.orElse s.options) input
            (Directory.isFile_of_read hread)).mpr rfl
          obtain ⟨artifact, hmakes, hwork⟩ :=
            work_of_output hcodecs hstanding hmerged hpath hread hsauce []
          rw [hwork]
          cases hplace : d.place _ with
          | error cause =>
            exact .unwritable a input _ _ contents cause _ hparse hinput hmerged hpath hread hsauce
              hplace
          | ok place =>
            exact .written a input _ _ contents place artifact hparse hinput hmerged hpath hread
              hsauce hplace hmakes

/-- A run with a reason to fail, in the sense of `Fails`, has a `status` that says so. -/
theorem status_ne_zero_of_fails (hstanding : codecs.Standing file s)
    (h : Fails d s arguments) : (journal codecs d file arguments).1.status ≠ 0 := by
  rcases h with ⟨e, hparse⟩ | ⟨a, input, hparse, hinput,
    ⟨cause, hread⟩ | ⟨⟨contents, hread⟩, hsauce, merged, path, cause, hmerged, hpath, hplace⟩⟩
  · rw [journal, answer, hparse]
    exact Nat.one_ne_zero
  · rw [journal_of_job codecs d file hparse hinput, work_of_unreadable hread]
    exact Nat.one_ne_zero
  · obtain ⟨artifact, -, hwork⟩ := work_of_output hcodecs hstanding hmerged hpath hread hsauce []
    rw [journal_of_job codecs d file hparse hinput, hwork, hplace]
    exact Nat.one_ne_zero

end

namespace Ends

variable {Image : Type} {codecs : Codecs Image} {d : Directory} {s : Settings}
  {arguments : List String} {done : Report × Journal Image}

/-- A run whose `status` is not 0 has a reason to fail. -/
theorem fails (hends : Ends codecs d s arguments done) (h : done.1.status ≠ 0) :
    Fails d s arguments := by
  cases hends with
  | refused e hparse => exact .inl ⟨e, hparse⟩
  | unreadable a input cause hparse hinput hread =>
    exact .inr ⟨a, input, hparse, hinput, .inl ⟨cause, hread⟩⟩
  | unwritable a input merged path contents cause e hparse hinput hmerged hpath hread hsauce
      hplace =>
    exact .inr ⟨a, input, hparse, hinput,
      .inr ⟨⟨contents, hread⟩, hsauce, merged, path, cause, hmerged, hpath, hplace⟩⟩
  -- the other ends report success
  | answered | shown | written => exact absurd rfl h

/-- A `Quiet` run does nothing to files. -/
theorem nothing (hends : Ends codecs d s arguments done) (h : Quiet arguments done.1) :
    done.2 = [] := by
  cases hends with
  | refused | answered | unreadable | shown | unwritable => rfl
  | written a input merged path contents place artifact hparse hinput hmerged hpath hread hsauce =>
    rcases h with hstatus | hhelp | hversion | ⟨b, hjob, hb⟩
    · exact absurd rfl hstatus
    · simp [hparse] at hhelp
    · simp [hparse] at hversion
    · obtain rfl : a = b := by simpa [hparse] using hjob
      simp [hsauce] at hb

/-- Any run that is not `Quiet` makes its output, and nothing else. -/
theorem output (hends : Ends codecs d s arguments done) (h : ¬ Quiet arguments done.1) :
    ∃ a input merged path contents place artifact,
      Arguments.parse arguments = .ok (.job a) ∧ a.input = some input
      ∧ a.options.Merges s.options merged
      ∧ Job.GoesTo a merged input path
      ∧ d.read input = .ok contents
      ∧ d.place path = .ok place
      ∧ Job.Makes codecs a s merged contents artifact
      ∧ done.2 = [(place, some artifact)] := by
  cases hends with
  | written a input merged path contents place artifact hparse hinput hmerged hpath hread _ hplace
      hmakes =>
    exact ⟨a, input, merged, path, contents, place, artifact, hparse, hinput, hmerged, hpath, hread,
      hplace, hmakes, rfl⟩
  | refused | unreadable | unwritable => exact absurd (.inl Nat.one_ne_zero) h
  | answered text hparse => exact absurd (.inr (hparse.imp_right .inl)) h
  | shown a record hparse hsauce => exact absurd (.inr (.inr (.inr ⟨a, hparse, hsauce⟩))) h

end Ends

/-- Only the settings that are `Standing` for a file matter to a run. -/
theorem journal_congr {Image : Type} {codecs : Codecs Image} {s : Settings}
    {file file' : Except FileError Bytes} (h : codecs.Standing file s)
    (h' : codecs.Standing file' s) (d : Directory) (arguments : List String) :
    journal codecs d file arguments = journal codecs d file' arguments := by
  have hsame : settingsOf codecs file = settingsOf codecs file' :=
    h.eq_settingsOf.symm.trans h'.eq_settingsOf
  unfold journal answer
  cases Arguments.parse arguments with
  | error e => rfl
  | ok request =>
    cases request with
    | help => rfl
    | version => rfl
    | job a =>
      cases hinput : a.input with
      | none => simp only [hinput]
      | some input =>
        simp only [hinput, work, Files.journaled, pure_bind, hsame]

end CommandLine

end TextArt
