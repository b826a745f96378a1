import TextArt.Proofs.Calendar
import TextArt.Proofs.Renders
import TextArt.Recording

namespace TextArt

/-!
# Recordings of runs — a frame for every period, and one after the end

A recording tells a run that a period of the blink has passed, looks at it, and goes on until it
finds that no more bytes are taken.  Then it takes one frame more.

* `Retouch.unkeep`, `Player.advance_unkeep` — the passing of time does not depend on the picture
  that is kept when somebody looks;
* `Player.paced`, `Player.filmed` — a run after some periods, without looking and with;
* `Recording.follow_eq` — so the frames of a recording, when it is known how long the run takes;
* `Player.Course.Follows` — a run by the calendar is where its chunks have brought it, which
  every moment preserves;
* `Player.shows_paced`, `Player.composed_paced` — hence what a run shows after some periods;
* `Recording.ofPlayer_play` — the recording of a run that has just been started.
-/

/-! ### Looking on -/

/-- The kept picture is thrown away, as a `Retouch`; every edit does so anyhow. -/
def Retouch.unkeep : Retouch where
  onScreen := Screen.unkept
  edit_onScreen := by
    intro font palette icecolors e s
    cases e with
    | glyph column row code pen =>
      show s.unkept.write font code (pen.look palette icecolors) column row
        = (s.write font code (pen.look palette icecolors) column row).unkept
      unfold Screen.write
      dsimp only
      cases (pen.look palette icecolors).masks <;> rfl
    | eraseRest column row => rfl
    | eraseAll => rfl
    | scroll => rfl

namespace Player

/-- A `Player` with a retouched screen. -/
def retouch (r : Retouch) (p : Player) : Player :=
  { p with terminal := p.terminal.retouch r }

variable (p : Player)

theorem stepChunk_retouch (r : Retouch) :
    (p.retouch r).stepChunk.2 = p.stepChunk.2.retouch r := by
  have hread : (p.terminal.retouch r).read p.stream p.chunk = p.nextChunk.retouch r :=
    p.terminal.read_retouch r p.stream p.chunk
  have hchunk : p.terminal.read p.stream p.chunk = p.nextChunk := rfl
  unfold stepChunk
  dsimp only [retouch]
  rw [hread, hchunk, finish_eq, finish_eq]
  show (if p.nextChunk.consumed = 0 then _ else _) = _
  split <;> rfl

/-- The chunk and the phase that are due in a `tick` do not depend on the kept picture. -/
theorem tick_unkeep (time : Nat) :
    (p.retouch .unkeep).tick time = (p.tick time).retouch .unkeep := by
  have hchunked : (p.retouch .unkeep).chunked time = (p.chunked time).retouch .unkeep := by
    unfold chunked
    rw [apply_ite (retouch .unkeep), ← stepChunk_retouch]
    rfl
  rw [tick_eq_chunked, tick_eq_chunked, hchunked, apply_ite (retouch .unkeep),
    apply_ite (retouch .unkeep)]
  rfl

/-- The passing of time in `advance` does not depend on the kept picture. -/
theorem advance_unkeep (time : Nat) :
    (p.retouch .unkeep).advance time = (p.advance time).retouch .unkeep := by
  refine @advance_related _ (fun q p => q = p.retouch .unkeep) ?_ ?_ ?_ ?_ p rfl time
  · rintro _ p rfl
    exact ⟨rfl, rfl, rfl⟩
  · rintro _ p rfl
    rfl
  · rintro _ p time rfl
    rfl
  · rintro _ p time rfl
    exact p.tick_unkeep time

end Player

/-! ### The frames of a recording -/

namespace Player

/-- A run after `n` periods of the blink. -/
def paced (p : Player) (n : Nat) : Player :=
  (fun q => q.advance blinkPeriod)^[n] p

/-- The `frame` at the end of the next period, and the run after it. -/
def nextShot (p : Player) : Raster × Player :=
  (p.advance blinkPeriod).frame

/-- A run after `n` periods of the blink, a frame being taken at the end of each. -/
def filmed (p : Player) (n : Nat) : Player :=
  (fun q => q.nextShot.2)^[n] p

/-- The frames at the ends of some periods, as `nextShot` gives them. -/
def shots (p : Player) : Nat → List Raster
  | 0 => []
  | n + 1 => p.nextShot.1 :: p.nextShot.2.shots n

variable (p : Player)

theorem filmed_succ (n : Nat) : p.filmed (n + 1) = p.nextShot.2.filmed n :=
  Function.iterate_succ_apply ..

theorem filmed_succ' (n : Nat) : p.filmed (n + 1) = (p.filmed n).nextShot.2 :=
  Function.iterate_succ_apply' ..

theorem paced_succ' (n : Nat) : p.paced (n + 1) = (p.paced n).advance blinkPeriod :=
  Function.iterate_succ_apply' ..

@[simp] theorem length_shots (n : Nat) : (p.shots n).length = n := by
  induction n generalizing p with
  | zero => rfl
  | succ n ih => rw [shots, List.length_cons, ih]

theorem getElem?_shots {i n : Nat} (h : i < n) :
    (p.shots n)[i]? = some (p.filmed i).nextShot.1 := by
  induction n generalizing i p with
  | zero => exact absurd h (Nat.not_lt_zero i)
  | succ n ih =>
    cases i with
    | zero => rfl
    | succ i =>
      rw [shots, List.getElem?_cons_succ, ih p.nextShot.2 (Nat.lt_of_succ_lt_succ h), filmed_succ]

/-- Every one of the `shots` is taken of a run that has been `filmed` up to there. -/
theorem exists_filmed_of_mem_shots {n : Nat} {frame : Raster} (h : frame ∈ p.shots n) :
    ∃ i, frame = (p.filmed i).nextShot.1 := by
  obtain ⟨i, hi⟩ := List.mem_iff_getElem?.mp h
  have hlt : i < n := by
    have hlength := (List.getElem?_eq_some_iff.mp hi).1
    rwa [length_shots] at hlength
  rw [getElem?_shots p hlt] at hi
  exact ⟨i, (Option.some.inj hi).symm⟩

/-- To look at a run makes no difference to it, but that a picture is kept: `filmed` and `paced`
    agree without it. -/
theorem filmed_unkeep (n : Nat) :
    (p.filmed n).retouch .unkeep = (p.paced n).retouch .unkeep := by
  induction n with
  | zero => rfl
  | succ n ih =>
    have hframe : ∀ q : Player, q.frame.2.retouch .unkeep = q.retouch .unkeep := fun q =>
      congrArg (fun screen => { q with terminal := { q.terminal with screen } })
        (Screen.unkept_frame q.terminal.screen)
    rw [filmed_succ', paced_succ', nextShot, hframe, ← advance_unkeep, ih, advance_unkeep]

theorem isPlaying_filmed (n : Nat) : (p.filmed n).isPlaying = (p.paced n).isPlaying := by
  show ((p.filmed n).retouch .unkeep).isPlaying = ((p.paced n).retouch .unkeep).isPlaying
  rw [filmed_unkeep]

end Player

namespace Recording

section

variable {Image : Type}

/-- A recording with more `frames` at the end. -/
def append (r : Recording Image) (images : List Image) : Recording Image :=
  { r with frames := r.frames ++ images.toArray }

@[simp] theorem append_nil (r : Recording Image) : r.append [] = r := by
  simp [append]

theorem append_cons (r : Recording Image) (image : Image) (images : List Image) :
    r.append (image :: images) = (r.append [image]).append images := by
  simp [append]

theorem frames_append_empty (delay : Nat) (images : List Image) :
    ((empty delay).append images).frames = images.toArray :=
  Array.empty_append

theorem length_append_empty (delay : Nat) (images : List Image) :
    ((empty delay).append images).length = images.length := by
  rw [length, frames_append_empty, List.size_toArray]

end

section

variable {Image : Type} {fromRaw : Nat → Nat → ByteArray → Option Image}
  {develop : Raster → Image} {r : Recording Image} {p : Player}

/-- One frame of a recording that `follow` makes, and the rest of them. -/
theorem follow_succ (himage : p.nextShot.1.image fromRaw = .ok (develop p.nextShot.1)) (n : Nat)
    (ended : Bool) :
    follow fromRaw (n + 1) ended r p =
      if ended then .ok (r.append [develop p.nextShot.1], p.nextShot.2)
      else follow fromRaw n (!p.nextShot.2.isPlaying) (r.append [develop p.nextShot.1])
        p.nextShot.2 := by
  have hpush : r.push fromRaw p.nextShot.1 = .ok (r.append [develop p.nextShot.1]) := by
    rw [push, himage, append, ← Array.push_eq_append]
    rfl
  show (r.push fromRaw p.nextShot.1 >>= fun r =>
      if ended then .ok (r, p.nextShot.2)
      else follow fromRaw n (!p.nextShot.2.isPlaying) r p.nextShot.2) = _
  rw [hpush]
  rfl

/-- A recording of a run that has ended takes one frame, if it may, and then `follow` stops. -/
theorem follow_of_ended (himage : p.nextShot.1.image fromRaw = .ok (develop p.nextShot.1))
    (n : Nat) :
    follow fromRaw n true r p
      = .ok (r.append ((p.shots (min n 1)).map develop), p.filmed (min n 1)) := by
  cases n with
  | zero =>
    rw [Nat.zero_min, Player.shots, List.map_nil, append_nil]
    rfl
  | succ n =>
    rw [follow_succ himage, if_pos rfl, Nat.min_eq_right (Nat.le_add_left 1 n)]
    rfl

/-- A recording of a run takes a frame after every period up to the one in which the run ends,
    and one frame more; or else as many as it may.  Each of them is what `develop` makes of one of
    the `Player.shots`. -/
theorem follow_eq {m : Nat}
    (himage : ∀ i, (p.filmed i).nextShot.1.image fromRaw
      = .ok (develop (p.filmed i).nextShot.1))
    (hplays : ∀ i < m, (p.filmed (i + 1)).isPlaying = true)
    (hends : (p.filmed (m + 1)).isPlaying = false) (n : Nat) :
    follow fromRaw n false r p
      = .ok (r.append ((p.shots (min n (m + 2))).map develop), p.filmed (min n (m + 2))) := by
  induction n generalizing r p m with
  | zero =>
    rw [Nat.zero_min, Player.shots, List.map_nil, append_nil]
    rfl
  | succ n ih =>
    have himage' : ∀ i, (p.nextShot.2.filmed i).nextShot.1.image fromRaw
        = .ok (develop (p.nextShot.2.filmed i).nextShot.1) := fun i => by
      rw [← Player.filmed_succ]
      exact himage (i + 1)
    have hfirst : p.nextShot.1.image fromRaw = .ok (develop p.nextShot.1) := himage 0
    rw [follow_succ hfirst, if_neg Bool.false_ne_true, Nat.succ_min_succ, Player.shots,
      Player.filmed_succ, List.map_cons, append_cons r (develop p.nextShot.1)
        ((p.nextShot.2.shots (min n (m + 1))).map develop)]
    -- the run has ended with this period, or goes on after it
    cases m with
    | zero =>
      have hended : p.nextShot.2.isPlaying = false := hends
      have hnext : p.nextShot.2.nextShot.1.image fromRaw
          = .ok (develop p.nextShot.2.nextShot.1) := himage' 0
      rw [hended]
      exact follow_of_ended hnext n
    | succ m =>
      have hgoes : p.nextShot.2.isPlaying = true := hplays 0 (Nat.succ_pos m)
      rw [hgoes]
      refine ih himage' (fun i hi => ?_) ?_
      · rw [← Player.filmed_succ]
        exact hplays (i + 1) (Nat.succ_lt_succ hi)
      · rw [← Player.filmed_succ]
        exact hends

end

end Recording

/-! ### What a run shows -/

namespace Player

/-- The chunks of a run, each of them read where the one before ended. -/
def chunkReads (p : Player) (n : Nat) : Reading :=
  p.terminal.reads p.stream (fun _ => p.chunk) n

namespace Course

variable {c : Course} {r : Reading} {size : Nat}

/-- A `Course` is where a `Reading` is, but for the blink; and its chunks have come to an end only
    at the end of the art. -/
structure Follows (c : Course) (r : Reading) : Prop where
  terminal_eq : c.player.terminal.settled = r.terminal.settled
  stream_eq : c.player.stream = r.stream
  ended : c.goesOn = false → r.stream.rest = []

/-- `Course.takeChunk` leads to where the next reading leads, also when no more chunks are taken as
    there is nothing left to read. -/
theorem Follows.takeChunk (h : c.Follows r) (hchunk : c.player.chunk = size) (hsize : 1 ≤ size) :
    c.takeChunk.Follows (r.terminal.read r.stream size) := by
  unfold Course.takeChunk
  cases hgoes : c.goesOn with
  | true =>
    have hread : c.player.nextChunk.retouch .restart
        = (r.terminal.read r.stream size).retouch .restart := by
      have hsettled : c.player.terminal.retouch .restart = r.terminal.retouch .restart :=
        h.terminal_eq
      rw [nextChunk, ← Terminal.read_retouch, ← Terminal.read_retouch, hsettled, h.stream_eq,
        hchunk]
    have hstream : c.player.stepChunk.2.stream = c.player.nextChunk.stream := by
      unfold Player.stepChunk nextChunk
      dsimp only
      rw [finish_eq]
      split <;> rfl
    have hconsumed : c.player.nextChunk.consumed = (r.terminal.read r.stream size).consumed :=
      (congrArg Reading.consumed hread :)
    rw [if_pos rfl]
    refine ⟨?_, hstream.trans (congrArg Reading.stream hread :), fun hended => ?_⟩
    · rw [terminal_stepChunk]
      exact congrArg Reading.terminal hread
    · -- the chunks end here, so this one has found nothing
      have hnone : (r.terminal.read r.stream size).consumed = 0 := by
        by_contra hsome
        rw [← hconsumed] at hsome
        have hall : goesOn ⟨c.player.stepChunk.2, c.player.nextChunk :: c.chunks⟩
            = (decide (c.player.nextChunk.consumed ≠ 0) && c.goesOn) := rfl
        rw [hall, hgoes, decide_eq_true hsome] at hended
        exact absurd hended (by decide)
      have hplace := Terminal.place_read_of_consumed_eq_zero r.terminal r.stream hnone
      have hrest : (r.terminal.read r.stream size).stream = r.stream :=
        congrArg Place.stream hplace
      rw [hrest]
      exact (Terminal.consumed_read_eq_zero_iff r.terminal r.stream hsize).mp hnone
  | false =>
    have hnone := (Terminal.consumed_read_eq_zero_iff r.terminal r.stream hsize).mpr
      (h.ended hgoes)
    have hplace := Terminal.place_read_of_consumed_eq_zero r.terminal r.stream hnone
    have hterminal : (r.terminal.read r.stream size).terminal = r.terminal :=
      congrArg Place.terminal hplace
    have hstream : (r.terminal.read r.stream size).stream = r.stream :=
      congrArg Place.stream hplace
    rw [if_neg Bool.false_ne_true]
    exact ⟨h.terminal_eq.trans (congrArg Terminal.settled hterminal.symm),
      h.stream_eq.trans hstream.symm, fun _ =>
        (congrArg ByteStream.rest hstream).trans (h.ended hgoes)⟩

theorem Follows.mergeBlink (h : c.Follows r) : c.mergeBlink.Follows r :=
  ⟨h.terminal_eq, h.stream_eq, h.ended⟩

/-- By the calendar a run is where `chunkReads` has brought it. -/
theorem follows_after (p : Player) (baud : Option Nat) (waiting : Option Callback)
    (hwaiting : ∀ callback ∈ waiting, callback.cancels = false) (reset : Bool) (time : Nat) :
    ((begun p baud waiting reset).after time).Follows
      ((p.started baud waiting reset).chunkReads (time / chunkPeriod)) := by
  have hregular := regular_begun p baud waiting hwaiting reset
  have hsize := chunkSize_pos (baud.getD ordinaryBaud)
  induction time with
  | zero =>
    -- the first chunk is one like the others, of a course without chunks before it
    have hstarted : Follows ⟨p.started baud waiting reset, []⟩
        ⟨(p.started baud waiting reset).terminal, (p.started baud waiting reset).stream, 0,
          false⟩ :=
      ⟨rfl, rfl, fun h => nomatch h⟩
    exact hstarted.takeChunk rfl hsize
  | succ time ih =>
    rw [after, atMoment, Nat.succ_div]
    have hchunked : (if chunkPeriod ∣ time + 1
          then ((begun p baud waiting reset).after time).takeChunk
        else (begun p baud waiting reset).after time).Follows
          ((p.started baud waiting reset).chunkReads
            (time / chunkPeriod + if chunkPeriod ∣ time + 1 then 1 else 0)) := by
      split
      · exact ih.takeChunk (hregular.after time).chunk_eq hsize
      · exact ih
    split
    · exact hchunked.mergeBlink
    · exact hchunked

end Course

/-- A run that is `OnTime` shows what its chunks have drawn, in the phase that the time has come
    to. -/
theorem OnTime.shows {p q : Player} {baud : Option Nat} {reset : Bool} {time : Nat}
    (h : q.OnTime ((Course.begun p baud none reset).after time) time) :
    let chunk := (p.started baud none reset).chunkReads (time / chunkPeriod)
    q.terminal.settled = chunk.terminal.settled ∧ q.stream = chunk.stream
      ∧ q.terminal.screen.shown = Course.phaseAfter (time / blinkPeriod) := by
  intro chunk
  have hfollows := Course.follows_after p baud none (fun _ h => nomatch h) reset time
  have hfirst : (Course.begun p baud none reset).player.terminal.screen.blinkState
      = (none, .on) := by
    show (p.started baud none reset).stepChunk.2.terminal.screen.blinkState = _
    rw [terminal_stepChunk]
    exact (Terminal.takes_read ..).blinkState_eq
  have hphase := congrArg Prod.fst (Course.blinkState_after hfirst time)
  have hterminal : q.terminal = ((Course.begun p baud none reset).after time).player.terminal :=
    (congrArg Player.terminal h.eq_course :)
  have hstream : q.stream = ((Course.begun p baud none reset).after time).player.stream :=
    (congrArg Player.stream h.eq_course :)
  rw [hterminal, hstream]
  exact ⟨hfollows.terminal_eq, hfollows.stream_eq, hphase⟩

section

variable (p : Player) (baud : Option Nat) (reset : Bool)

/-- A run that nobody waits for is `OnTime` after any number of periods. -/
theorem onTime_paced (n : Nat) :
    ((p.play baud none reset).paced n).OnTime
      ((Course.begun p baud none reset).after (n * blinkPeriod)) (n * blinkPeriod) := by
  have hregular := Course.regular_begun p baud none (fun _ h => nomatch h) reset
  induction n with
  | zero =>
    rw [Nat.zero_mul]
    exact onTime_begun p baud none reset
  | succ n ih =>
    rw [paced_succ', Nat.succ_mul]
    exact ih.advance hregular blinkPeriod

/-- After `n` periods a run has read its first chunk, and twenty-five more in every period. -/
theorem shows_paced (n : Nat) :
    let run := (p.play baud none reset).paced n
    let chunk := (p.started baud none reset).chunkReads (25 * n)
    run.terminal.settled = chunk.terminal.settled ∧ run.stream = chunk.stream
      ∧ run.terminal.screen.shown = Course.phaseAfter n := by
  have hshows := (onTime_paced p baud reset n).shows
  have hperiod : blinkPeriod = 25 * chunkPeriod := rfl
  have hchunks : n * blinkPeriod / chunkPeriod = 25 * n := by
    rw [hperiod, ← Nat.mul_assoc, Nat.mul_div_cancel _ chunkPeriod_pos, Nat.mul_comm]
  rwa [hchunks, Nat.mul_div_cancel _ blinkPeriod_pos] at hshows

/-- After a number of periods that is odd a `paced` run shows its `on` phase, and its `off` phase
    after one that is even. -/
theorem composed_paced (n : Nat) :
    let screen := ((p.started baud none reset).chunkReads (25 * (n + 1))).terminal.screen
    ((p.play baud none reset).paced (n + 1)).terminal.screen.composed
      = screen.visible.overlay (screen.mask (Course.phaseNext n)) := by
  intro screen
  obtain ⟨hsettled, _, hshown⟩ := shows_paced p baud reset (n + 1)
  generalize (p.play baud none reset).paced (n + 1) = run at hsettled hshown ⊢
  rw [Course.phaseAfter_succ] at hshown
  have hscreen : run.terminal.screen.restartBlink = screen.restartBlink :=
    congrArg Terminal.screen hsettled
  have hvisible : run.terminal.screen.visible = screen.visible :=
    (congrArg Screen.visible hscreen :)
  have hmask : ∀ phase, run.terminal.screen.mask phase = screen.mask phase := by
    rintro (_ | _)
    · exact (congrArg Screen.onMask hscreen :)
    · exact (congrArg Screen.offMask hscreen :)
  rw [Screen.composed, hshown, hvisible]
  exact congrArg screen.visible.overlay (hmask _)

end

/-! ### What a recording sees -/

section

variable {p : Player}

theorem fresh_play (p : Player) (baud : Option Nat) (waiting : Option Callback) (reset : Bool) :
    (p.play baud waiting reset).terminal.screen.Fresh := by
  refine @terminal_stepChunk_preserves (fun t => t.screen.Fresh)
    (fun _ b next h => Terminal.fresh_feed h b next) (p.started baud waiting reset)
    fun picture hpicture => ?_
  -- no picture is kept when the blink is started anew
  cases hpicture

theorem fresh_advance (h : p.terminal.screen.Fresh) (time : Nat) :
    (p.advance time).terminal.screen.Fresh :=
  @terminal_advance_preserves (fun t => t.screen.Fresh)
    (fun _ b next h => Terminal.fresh_feed h b next) (fun _ h => h.after (.change .merge)) p h time

theorem fresh_filmed (h : p.terminal.screen.Fresh) (n : Nat) :
    (p.filmed n).terminal.screen.Fresh := by
  induction n with
  | zero => exact h
  | succ n ih =>
    rw [filmed_succ']
    exact (fresh_advance ih blinkPeriod).after .frame

/-- What `nextShot` takes is the composed picture of a `paced` run, at which nobody has looked
    before. -/
theorem nextShot_filmed (h : p.terminal.screen.Fresh) (n : Nat) :
    (p.filmed n).nextShot.1 = (p.paced (n + 1)).terminal.screen.composed := by
  have hunkept : ((p.filmed n).advance blinkPeriod).terminal.screen.unkept
      = (p.paced (n + 1)).terminal.screen.unkept := by
    have hretouched : ((p.filmed n).advance blinkPeriod).retouch .unkeep
        = (p.paced (n + 1)).retouch .unkeep := by
      rw [← advance_unkeep, filmed_unkeep, advance_unkeep, paced_succ']
    exact (congrArg (fun q : Player => q.terminal.screen) hretouched :)
  calc (p.filmed n).nextShot.1
      = ((p.filmed n).advance blinkPeriod).terminal.screen.composed :=
        Screen.frame_fst_of_fresh (fresh_advance (fresh_filmed h n) blinkPeriod)
    _ = (p.paced (n + 1)).terminal.screen.composed := Screen.composed_eq_of_unkept hunkept

end

/-- Whatever `chunkReads` has drawn, a run has a screen of the size that it began with. -/
theorem sameForm_chunkReads (p : Player) (baud : Option Nat) (n : Nat) :
    ((p.started baud none true).chunkReads n).terminal.SameForm p.terminal := by
  let s := p.started baud none true
  have hstarted : s.terminal.SameForm p.terminal :=
    ⟨rfl, rfl, rfl, rfl, p.terminal.screen.sameForm_reset⟩
  have htakes := s.terminal.takes_reads s.stream (fun _ => s.chunk) n
  exact @Place.Takes.preserves _ _ _ (fun t => t.SameForm p.terminal)
    (fun t b next h => (t.sameForm_feed b next).trans h) htakes hstarted

/-- So the frames of a run, too, have the sides of a `Player.sides_le_of_sameForm`. -/
theorem sides_filmed (file : Bytes) (o : Options) (baud : Option Nat) (n : Nat) :
    let frame := (((Player.new file (.ofOptions o)).play baud none true).filmed n).nextShot.1
    (1 ≤ frame.width ∧ frame.width ≤ 512 * 9) ∧ 1 ≤ frame.height ∧ frame.height ≤ 256 * 16 := by
  intro frame
  have hform := sameForm_chunkReads (Player.new file (.ofOptions o)) baud (25 * (n + 1))
  have hframe : frame = _ :=
    (nextShot_filmed (fresh_play _ baud none true) n).trans (composed_paced _ baud true n)
  rw [hframe, Raster.width_overlay, Raster.height_overlay]
  exact sides_le_of_sameForm file hform

/-! ### The end of a run -/

/-- A chunk at the end of the art leads nowhere, so those after it leave the terminal as `renderAll`
    does. -/
theorem terminal_chunkReads_of_end (p : Player) (baud : Option Nat) {m n : Nat}
    (hend : ((p.started baud none true).chunkReads m).stream.rest = []) (hle : m ≤ n) :
    ((p.started baud none true).chunkReads n).terminal = p.renderAll.2.terminal := by
  let s := p.started baud none true
  have hrest : (s.chunkReads n).stream.rest = [] := by
    induction n, hle using Nat.le_induction with
    | base => exact hend
    | succ n _ ih =>
      have hlength := (s.chunkReads n).terminal.length_rest_read (s.chunkReads n).stream s.chunk
      rw [ih, List.length_nil] at hlength
      exact List.eq_nil_of_length_eq_zero (Nat.eq_zero_of_add_eq_zero_right
        (Nat.le_zero.mp hlength))
  have htakes := s.terminal.takes_reads s.stream (fun _ => s.chunk) n
  obtain ⟨hplace, _⟩ := htakes.end_unique (s.terminal.takes_readToEnd s.stream) hrest
    (s.terminal.rest_readToEnd s.stream)
  exact congrArg Place.terminal hplace

section

variable (file : Bytes) (config : Config) (baud : Option Nat)

/-- Every period brings a run closer to its end: a `paced` run `Replays` the art with as much time
    behind it. -/
theorem replays_paced (n : Nat) :
    let p := Player.new file config
    ((p.play baud none true).paced n).Replays (Place.settled ⟨p.terminal.reset, p.stream.seek 0⟩)
      none (n * blinkPeriod) 0 := by
  intro p
  have hwaiting : ∀ callback ∈ (none : Option Callback), callback.cancels = false :=
    fun _ h => nomatch h
  induction n with
  | zero =>
    rw [Nat.zero_mul]
    exact replays_play rfl baud none hwaiting
  | succ n ih =>
    rw [paced_succ', Nat.succ_mul]
    exact ih.advance hwaiting blinkPeriod

/-- A run comes to its end in some period, and so in a first one, which `IsLeast` names. -/
theorem exists_isLeast_period :
    ∃ k, IsLeast
      {n | 1 ≤ n ∧ (((Player.new file config).play baud none true).paced n).isPlaying = false}
      k := by
  classical
  let p := Player.new file config
  -- there is a chunk for every byte, and many of them in every period
  let n := (p.stream.seek 0).rest.length + 1
  suffices hends : ∃ n, 1 ≤ n ∧ ((p.play baud none true).paced n).isPlaying = false from
    ⟨Nat.find hends, Nat.find_spec hends, fun n hn => Nat.find_min' hends hn⟩
  refine ⟨n, Nat.le_add_left 1 _, ?_⟩
  have htime : chunkPeriod * (p.stream.seek 0).rest.length ≤ n * blinkPeriod :=
    calc chunkPeriod * (p.stream.seek 0).rest.length
        ≤ blinkPeriod * n := Nat.mul_le_mul (by decide) (Nat.le_succ _)
      _ = n * blinkPeriod := Nat.mul_comm ..
  have hover := (replays_paced file config baud n).isOver htime
  rw [isPlaying, hover.chunkTicker_eq]
  rfl

/-- When a run is not `isPlaying` any more, its chunks have left what `renderAll` leaves. -/
theorem terminal_chunkReads_of_not_playing {m n : Nat}
    (h : (((Player.new file config).play baud none true).paced m).isPlaying = false)
    (hle : m ≤ n) :
    (((Player.new file config).started baud none true).chunkReads (25 * n)).terminal
      = (Player.new file config).renderAll.2.terminal := by
  have hreplays := replays_paced file config baud m
  obtain ⟨_, hstream, _⟩ := shows_paced (Player.new file config) baud true m
  obtain ⟨_, _, hgoes | hover⟩ := hreplays.course
  · obtain ⟨left, pos, hticker, _⟩ := hgoes.due
    rw [isPlaying, hticker, hreplays.uncancelled] at h
    exact absurd h Bool.true_eq_false_eq_False
  · have hrest := (congrArg ByteStream.rest hstream).symm.trans hover.rest_eq
    exact terminal_chunkReads_of_end _ baud hrest (Nat.mul_le_mul_left 25 hle)

end

end Player

namespace Recording

/-- A frame of the sides in `Player.sides_filmed` has an image, if `fromRaw` takes every buffer that
    is long enough. -/
theorem exists_develop {Image : Type} {fromRaw : Nat → Nat → ByteArray → Option Image}
    (htakes : ∀ width height rgba, width * height * 4 ≤ rgba.size →
      (fromRaw width height rgba).isSome) :
    ∃ develop : Raster → Image, ∀ frame : Raster,
      fromRaw frame.width frame.height frame.toBytes = some (develop frame)
        ∧ (frame.width ≤ 512 * 9 → frame.height ≤ 256 * 16 →
          frame.image fromRaw = .ok (develop frame)) := by
  choose develop hdevelop using fun frame : Raster =>
    Option.isSome_iff_exists.mp (htakes _ _ frame.toBytes frame.size_toBytes.ge)
  have hlargest : 512 * 9 ≤ largestSide ∧ 256 * 16 ≤ largestSide := by decide
  exact ⟨develop, fun frame => ⟨hdevelop frame, fun hwidth hheight =>
    imageOf_eq fromRaw (hwidth.trans hlargest.1) (hheight.trans hlargest.2) (hdevelop frame)⟩⟩

end Recording

/-- **The recording of a run.**  Let `fromRaw` make an image of every buffer that is long enough.
    Start a run on a fresh player at any rate, and let `k` be the least number of periods of the
    blink, one or more, after which no more bytes are taken; there is one.  To record the run does
    not fail, and gives one frame more than that, or as many as are allowed.  The `i`-th frame is
    the image of the screen as the first chunk has left it and the twenty-five chunks of every
    period so far, that at the end of the last period among them, with the on mask over it if `i` is
    odd, and the off mask if `i` is even.  If all frames are allowed, the last two of them are
    images of the screen that is left when the art is drawn at once, by `Player.renderAll`, in both
    phases. -/
theorem Recording.ofPlayer_play {Image : Type} {fromRaw : Nat → Nat → ByteArray → Option Image}
    (htakes : ∀ width height rgba, width * height * 4 ≤ rgba.size →
      (fromRaw width height rgba).isSome)
    (file : Bytes) (o : Options) (baud : Option Nat) (limit : Nat) :
    let p := Player.new file (.ofOptions o)
    let run := p.play baud none true
    let screenAfter (chunks : Nat) := ((p.started baud none true).chunkReads chunks).terminal.screen
    let still := p.renderAll.2.terminal.screen
    let phase (i : Nat) : Phase := if i % 2 = 1 then .on else .off
    let shot (screen : Screen) (phase : Phase) := screen.visible.overlay (screen.mask phase)
    let image (frame : Raster) := fromRaw frame.width frame.height frame.toBytes
    ∃ k recording last,
      IsLeast {n | 1 ≤ n ∧ (run.paced n).isPlaying = false} k
      ∧ ofPlayer fromRaw run limit = .ok (recording, last)
      ∧ recording.length = min limit (k + 1)
      ∧ (∀ i, 1 ≤ i → i ≤ recording.length →
          recording.frames[i - 1]? = image (shot (screenAfter (25 * i)) (phase i)))
      ∧ (k + 1 ≤ limit →
          recording.frames[k - 1]? = image (shot still (phase k))
          ∧ recording.frames[k]? = image (shot still (phase k).toggled)) := by
  intro p run screenAfter still phase shot image
  obtain ⟨k, hleast⟩ := Player.exists_isLeast_period file (.ofOptions o) baud
  obtain ⟨m, rfl⟩ := Nat.exists_eq_add_of_le' hleast.1.1
  have hends : (run.paced (m + 1)).isPlaying = false := hleast.1.2
  have hplays : ∀ i < m, (run.paced (i + 1)).isPlaying = true := fun i hi =>
    Bool.eq_true_of_not_eq_false fun hstops =>
      absurd (hleast.2 ⟨Nat.le_add_left 1 i, hstops⟩) (by omega)
  have hphase : ∀ i, Player.Course.phaseNext i = phase (i + 1) := fun i =>
    if_congr (by omega) rfl rfl
  -- a frame is what is composed when nobody looks
  have hshot : ∀ i, (run.filmed i).nextShot.1
      = shot (screenAfter (25 * (i + 1))) (phase (i + 1)) := by
    intro i
    rw [Player.nextShot_filmed (Player.fresh_play p baud none true), Player.composed_paced, hphase]
  obtain ⟨develop, hdevelop⟩ := exists_develop htakes
  have himage : ∀ i, (run.filmed i).nextShot.1.image fromRaw
      = .ok (develop (run.filmed i).nextShot.1) := fun i =>
    have hsides := Player.sides_filmed file o baud i
    (hdevelop _).2 hsides.1.2 hsides.2.2
  let recording := (empty blinkDelay).append ((run.shots (min limit (m + 2))).map develop)
  have hrecording : ofPlayer fromRaw run limit
      = .ok (recording, run.filmed (min limit (m + 2))) := by
    refine follow_eq himage (fun i hi => ?_) ?_ limit
    · rw [Player.isPlaying_filmed]
      exact hplays i hi
    · rw [Player.isPlaying_filmed]
      exact hends
  have hlength : recording.length = min limit (m + 2) :=
    (length_append_empty ..).trans ((List.length_map ..).trans (run.length_shots _))
  have hframe : ∀ i, i < min limit (m + 2) →
      recording.frames[i]? = image (shot (screenAfter (25 * (i + 1))) (phase (i + 1))) := by
    intro i hi
    rw [frames_append_empty, List.getElem?_toArray, List.getElem?_map, Player.getElem?_shots run hi,
      hshot]
    exact (hdevelop _).1.symm
  -- the run has ended before the last two frames, so both of them show the finished screen
  have hstill : ∀ i, m ≤ i → screenAfter (25 * (i + 1)) = still := fun i hi =>
    congrArg Terminal.screen
      (Player.terminal_chunkReads_of_not_playing file _ baud hends (Nat.succ_le_succ hi))
  refine ⟨m + 1, recording, _, hleast, hrecording, hlength, fun i hi hle => ?_,
    fun hlimit => ⟨?_, ?_⟩⟩
  · obtain ⟨i, rfl⟩ := Nat.exists_eq_add_of_le' hi
    exact hframe i (hlength ▸ hle)
  · have hlast := hframe m (by omega)
    rwa [hstill m (Nat.le_refl m)] at hlast
  · have hlast := hframe (m + 1) (by omega)
    rwa [hstill (m + 1) (Nat.le_succ m), ← hphase (m + 1), Player.Course.phaseNext_succ,
      hphase] at hlast

/-- A case of `ofPlayer_play`: two letters, images that are a size and a buffer, and two frames, one
    in each phase. -/
theorem Recording.ofPlayer_play_two_letters :
    let fromRaw := fun (width height : Nat) (rgba : ByteArray) =>
      if width * height * 4 ≤ rgba.size then some (width, height, rgba) else none
    let p := Player.new [0x68, 0x69] (.ofOptions {})
    let image (screen : Screen) (phase : Phase) :=
      let frame := screen.visible.overlay (screen.mask phase)
      fromRaw frame.width frame.height frame.toBytes
    let screenAfter (chunks : Nat) := ((p.started none none true).chunkReads chunks).terminal.screen
    (∀ width height rgba, width * height * 4 ≤ rgba.size → (fromRaw width height rgba).isSome)
      ∧ ∃ recording last, ofPlayer fromRaw (p.play none none true) 2 = .ok (recording, last)
        ∧ recording.length = 2
        ∧ recording.frames[0]? = image (screenAfter 25) .on
        ∧ recording.frames[1]? = image (screenAfter 50) .off := by
  intro fromRaw
  dsimp only
  have htakes : ∀ width height rgba, width * height * 4 ≤ rgba.size →
      (fromRaw width height rgba).isSome := fun width height rgba h => by
    rw [show fromRaw width height rgba = some (width, height, rgba) from if_pos h]
    rfl
  obtain ⟨k, recording, last, hleast, hrecording, hlength, hframes, -⟩ :=
    ofPlayer_play htakes [0x68, 0x69] {} none 2
  -- there is a period at least before the end, so two frames are not too many
  have htwo : recording.length = 2 :=
    hlength.trans (Nat.min_eq_left (Nat.succ_le_succ hleast.1.1))
  have hlong : 2 ≤ recording.length := Nat.le_of_eq htwo.symm
  have hfirst := hframes 1 (Nat.le_refl 1) (Nat.le_of_succ_le hlong)
  have hsecond := hframes 2 (Nat.le_succ 1) hlong
  simp only [Nat.reduceSub, Nat.reduceMul, Nat.reduceMod, if_true, zero_ne_one, if_false]
    at hfirst hsecond
  exact ⟨htakes, recording, last, hrecording, htwo, hfirst, hsecond⟩

end TextArt
