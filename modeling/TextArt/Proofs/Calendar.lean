import TextArt.Proofs.Chunks
import TextArt.Proofs.Script
import TextArt.Proofs.Time
import Mathlib.Algebra.GroupWithZero.Nat

namespace TextArt

/-!
# Calendars — what is due in a run, moment by moment

Once a run is started there is nothing left to chance in it: a chunk is due every ten
milliseconds until one finds nothing, and a phase of the blink every quarter of a second.  A
calendar says so without any clocks.

* `Player.Course` — a run by the calendar, and the chunks that it has taken;
  `Player.Course.atMoment` is what is due at a moment, `Player.Course.after` what has been due
  until some time is over;
* `Ticker.KeepsTo` — a clock fires at the multiples of a period;
* `Player.OnTime` — a player is where the calendar says, and its clocks keep to it, which
  every nanosecond preserves (`Player.OnTime.advance_one`);
* `Reading.full_or_ended` — a chunk has its full size unless it scrolls or ends the stream;
* `Player.paced_eq_calendar` — however time is told to a run, it is the run by the calendar.
-/

/-! ### Chunks -/

/-- A `run` of bytes takes as many as it may, unless it ends with a scroll or at the end of the
    stream. -/
theorem Reading.full_or_ended (n : Nat) (r : Reading) :
    (run n r).consumed = r.consumed + n ∨ (run n r).scrolled = true
      ∨ (run n r).stream.atEnd = true := by
  induction n generalizing r with
  | zero => exact .inl rfl
  | succ n ih =>
    rw [run]
    by_cases hstop : (r.scrolled || r.stream.atEnd) = true
    · rw [if_pos hstop]
      exact .inr ((Bool.or_eq_true _ _).mp hstop)
    · rw [if_neg hstop]
      have hne : r.stream.rest ≠ [] := by
        intro hnil
        simp [ByteStream.atEnd, hnil] at hstop
      have hone : r.step.consumed + n = r.consumed + (n + 1) := by
        rw [consumed_step hne, Nat.add_assoc, Nat.add_comm 1 n]
      exact hone ▸ ih r.step

/-- What a screen shows of the blink, and what it will show next: its `shown` and `next` phase. -/
def Screen.blinkState (s : Screen) : Option Phase × Phase :=
  (s.shown, s.next)

/-- No `Edit` touches the `blinkState`. -/
theorem Edit.blinkState_onScreen (font : Font) (palette : Palette) (icecolors : Bool)
    (e : Edit) (s : Screen) :
    (e.onScreen font palette icecolors s).blinkState = s.blinkState := by
  cases e with
  | glyph column row code pen =>
    show (s.write font code (pen.look palette icecolors) column row).blinkState = _
    unfold Screen.write
    dsimp only
    cases (pen.look palette icecolors).masks <;> rfl
  | eraseRest column row => rfl
  | eraseAll => rfl
  | scroll => rfl

theorem Edit.blinkState_foldr_onScreen (font : Font) (palette : Palette) (icecolors : Bool)
    (edits : List Edit) (s : Screen) :
    (edits.foldr (Edit.onScreen font palette icecolors) s).blinkState = s.blinkState := by
  induction edits with
  | nil => rfl
  | cons e edits ih => rw [List.foldr_cons, blinkState_onScreen, ih]

/-- No byte that is fed to a terminal touches its `blinkState`. -/
theorem Terminal.blinkState_feed (t : Terminal) (b : UInt8) (next : Option UInt8) :
    (t.feed b next).screen.blinkState = t.screen.blinkState := by
  rw [feed_eq_after]
  exact Edit.blinkState_foldr_onScreen ..

namespace Place

theorem Takes.blinkState_eq {n : Nat} {p q : Place} (h : Takes n p q) :
    q.terminal.screen.blinkState = p.terminal.screen.blinkState :=
  @Takes.preserves p q n (fun t => t.screen.blinkState = p.terminal.screen.blinkState)
    (fun t b next h => (t.blinkState_feed b next).trans h) h rfl

end Place

namespace Player

variable {p : Player}

/-- A `Player` with other clocks. -/
def withClocks (p : Player) (chunkTicker blinkTicker : Ticker) : Player :=
  { p with chunkTicker, blinkTicker }

/-- What `stepChunk` does has nothing to do with the clocks, but for stopping the `chunkTicker`. -/
theorem stepChunk_withClocks (p : Player) (chunkTicker blinkTicker : Ticker) :
    (p.withClocks chunkTicker blinkTicker).stepChunk.2
      = p.stepChunk.2.withClocks
          (if p.nextChunk.consumed = 0 then chunkTicker.stop else chunkTicker) blinkTicker := by
  unfold stepChunk nextChunk withClocks
  dsimp only
  rw [finish_eq, finish_eq]
  split <;> rfl

/-- What `stepChunk` leaves as it was, if nobody among `waiting` cancels the run. -/
theorem stepChunk_frame (hwaiting : ∀ callback ∈ p.waiting, callback.cancels = false) :
    p.stepChunk.2.cancelled = p.cancelled
      ∧ (∀ callback ∈ p.stepChunk.2.waiting, callback.cancels = false)
      ∧ p.stepChunk.2.chunk = p.chunk
      ∧ p.stepChunk.2.chunkTicker
        = (if p.nextChunk.consumed = 0 then p.chunkTicker.stop else p.chunkTicker)
      ∧ p.stepChunk.2.blinkTicker = p.blinkTicker := by
  have hany : p.waiting.any Callback.cancels = false := by
    rw [Option.any_eq_false]
    exact hwaiting
  have hnobody : ∀ callback ∈ (none : Option Callback), callback.cancels = false :=
    fun _ h => nomatch h
  unfold stepChunk nextChunk
  dsimp only
  rw [finish_eq]
  split
  · refine ⟨?_, hnobody, rfl, rfl, rfl⟩
    show (p.cancelled || p.waiting.any Callback.cancels) = p.cancelled
    rw [hany, Bool.or_false]
  · exact ⟨rfl, hwaiting, rfl, rfl, rfl⟩

/-! ### The calendar -/

/-- A run by the calendar: the `player`, and the `chunks` that it has taken, the latest first. -/
structure Course where
  player : Player
  chunks : List Reading

namespace Course

/-- Whether none of the `chunks` so far has found nothing. -/
def goesOn (c : Course) : Bool :=
  c.chunks.all (·.consumed ≠ 0)

/-- A chunk is taken, unless the course no longer `goesOn` because one before has found nothing. -/
def takeChunk (c : Course) : Course :=
  if c.goesOn then ⟨c.player.stepChunk.2, c.player.nextChunk :: c.chunks⟩ else c

/-- The blink shows its next phase, as in `Player.mergeBlink`. -/
def mergeBlink (c : Course) : Course :=
  { c with player := c.player.mergeBlink }

/-- What is due at a moment, counted in nanoseconds from the beginning of the run: a chunk at every
    multiple of `chunkPeriod`, ten milliseconds, and after it a phase of the blink at every multiple
    of `blinkPeriod`, a quarter of a second. -/
def atMoment (time : Nat) (c : Course) : Course :=
  let c := if chunkPeriod ∣ time then c.takeChunk else c
  if blinkPeriod ∣ time then c.mergeBlink else c

/-- The course when some time is over: all moments of it, one after the other, by `atMoment`. -/
def after (c : Course) : Nat → Course
  | 0 => c
  | time + 1 => (c.after time).atMoment (time + 1)

/-- The course of a run with its first chunk, which `Player.play` takes before any time is over. -/
def begun (p : Player) (baud : Option Nat) (waiting : Option Callback) (reset : Bool) :
    Course where
  player := p.play baud waiting reset
  chunks := [(p.started baud waiting reset).nextChunk]

/-- A run that nobody cancels, with chunks of one `size`: the blink goes on, the chunks go on until
    one finds nothing, and every chunk has the full size, or has scrolled, or has come to the
    end. -/
structure Regular (size : Nat) (c : Course) : Prop where
  uncancelled : c.player.cancelled = false
  waiting : ∀ callback ∈ c.player.waiting, callback.cancels = false
  chunk_eq : c.player.chunk = size
  plays : c.player.chunkTicker.isRunning = c.goesOn
  blinks : c.player.blinkTicker.isRunning = true
  chunks_full : ∀ r ∈ c.chunks,
    r.consumed = size ∨ r.scrolled = true ∨ r.stream.atEnd = true

variable {c : Course} {size : Nat}

/-- One more chunk, where the course `goesOn`, leaves it `Regular`. -/
theorem Regular.stepChunk (h : c.Regular size) (hgoes : c.goesOn = true) :
    Regular size ⟨c.player.stepChunk.2, c.player.nextChunk :: c.chunks⟩ := by
  obtain ⟨hcancelled, hwaiting, hchunk, hticker, hblink⟩ := stepChunk_frame h.waiting
  refine ⟨hcancelled.trans h.uncancelled, hwaiting, hchunk.trans h.chunk_eq, ?_,
    (congrArg Ticker.isRunning hblink).trans h.blinks, ?_⟩
  · -- the chunks go on just if this one has found something
    show c.player.stepChunk.2.chunkTicker.isRunning
      = (decide (c.player.nextChunk.consumed ≠ 0) && c.goesOn)
    rw [hticker, hgoes, Bool.and_true]
    by_cases hnone : c.player.nextChunk.consumed = 0
    · rw [if_pos hnone, Ticker.isRunning_stop, decide_eq_false (not_not_intro hnone)]
    · rw [if_neg hnone, h.plays, hgoes, decide_eq_true hnone]
  · intro r hr
    rcases List.mem_cons.mp hr with rfl | hearlier
    · have hfull := Reading.full_or_ended c.player.chunk
        { terminal := c.player.terminal, stream := c.player.stream }
      rw [h.chunk_eq, Nat.zero_add] at hfull
      rw [nextChunk, h.chunk_eq]
      exact hfull
    · exact h.chunks_full r hearlier

theorem Regular.takeChunk (h : c.Regular size) : c.takeChunk.Regular size := by
  unfold Course.takeChunk
  split
  · next hgoes => exact h.stepChunk hgoes
  · exact h

theorem Regular.mergeBlink (h : c.Regular size) : c.mergeBlink.Regular size :=
  ⟨h.uncancelled, h.waiting, h.chunk_eq, h.plays, h.blinks, h.chunks_full⟩

theorem Regular.atMoment (h : c.Regular size) (time : Nat) :
    (c.atMoment time).Regular size := by
  unfold Course.atMoment
  have hchunked : (if chunkPeriod ∣ time then c.takeChunk else c).Regular size := by
    split
    · exact h.takeChunk
    · exact h
  dsimp only
  split
  · exact hchunked.mergeBlink
  · exact hchunked

/-- A run by the calendar stays `Regular`, by induction on the time. -/
theorem Regular.after (h : c.Regular size) (time : Nat) : (c.after time).Regular size := by
  induction time with
  | zero => exact h
  | succ time ih => exact ih.atMoment (time + 1)

/-- A run begins `Regular`, if nobody who waits cancels it. -/
theorem regular_begun (p : Player) (baud : Option Nat) (waiting : Option Callback)
    (hwaiting : ∀ callback ∈ waiting, callback.cancels = false) (reset : Bool) :
    (begun p baud waiting reset).Regular (chunkSize (baud.getD ordinaryBaud)) := by
  -- before the first chunk no chunk has been taken
  have hstarted : Regular (chunkSize (baud.getD ordinaryBaud))
      ⟨p.started baud waiting reset, []⟩ :=
    ⟨rfl, hwaiting, rfl, rfl, rfl, fun _ h => nomatch h⟩
  exact hstarted.stepChunk rfl

/-! ### The phases -/

/-- The phase that is shown after some merges, `none` before the first. -/
def phaseAfter (merges : Nat) : Option Phase :=
  if merges = 0 then none else if merges % 2 = 1 then some .on else some .off

/-- The phase that is shown next: the `on` phase after an even number of merges. -/
def phaseNext (merges : Nat) : Phase :=
  if merges % 2 = 0 then .on else .off

/-- A merge shows the phase that was `phaseNext`. -/
theorem phaseAfter_succ (merges : Nat) : phaseAfter (merges + 1) = some (phaseNext merges) := by
  unfold phaseAfter phaseNext
  rw [if_neg (Nat.succ_ne_zero merges)]
  rcases Nat.mod_two_eq_zero_or_one merges with heven | hodd
  · have hsucc : (merges + 1) % 2 = 1 := by omega
    rw [if_pos heven, if_pos hsucc]
  · have hsucc : ¬ (merges + 1) % 2 = 1 := by omega
    have hnot : ¬ merges % 2 = 0 := by omega
    rw [if_neg hnot, if_neg hsucc]

theorem phaseNext_succ (merges : Nat) : phaseNext (merges + 1) = (phaseNext merges).toggled := by
  unfold phaseNext
  rcases Nat.mod_two_eq_zero_or_one merges with heven | hodd
  · have hsucc : ¬ (merges + 1) % 2 = 0 := by omega
    rw [if_pos heven, if_neg hsucc]
    rfl
  · have hsucc : (merges + 1) % 2 = 0 := by omega
    have hnot : ¬ merges % 2 = 0 := by omega
    rw [if_neg hnot, if_pos hsucc]
    rfl

theorem blinkState_takeChunk (c : Course) :
    c.takeChunk.player.terminal.screen.blinkState = c.player.terminal.screen.blinkState := by
  unfold takeChunk
  split
  · rw [terminal_stepChunk]
    exact (c.player.terminal.takes_read c.player.stream c.player.chunk).blinkState_eq
  · rfl

/-- By the calendar the `blinkState` changes at every `blinkPeriod`, whatever the chunks do. -/
theorem blinkState_after (h : c.player.terminal.screen.blinkState = (none, .on)) (time : Nat) :
    (c.after time).player.terminal.screen.blinkState
      = (phaseAfter (time / blinkPeriod), phaseNext (time / blinkPeriod)) := by
  induction time with
  | zero => exact h
  | succ time ih =>
    have hchunked : (if chunkPeriod ∣ time + 1 then (c.after time).takeChunk
        else c.after time).player.terminal.screen.blinkState
        = (phaseAfter (time / blinkPeriod), phaseNext (time / blinkPeriod)) := by
      split
      · rw [blinkState_takeChunk, ih]
      · exact ih
    rw [Course.after, atMoment, Nat.succ_div]
    generalize (if chunkPeriod ∣ time + 1 then (c.after time).takeChunk
      else c.after time) = chunked at hchunked ⊢
    have hnext : chunked.player.terminal.screen.next = phaseNext (time / blinkPeriod) :=
      congrArg Prod.snd hchunked
    split
    · rw [phaseAfter_succ, phaseNext_succ, ← hnext]
      rfl
    · exact hchunked

end Course

end Player

/-! ### Clocks that keep to the calendar -/

namespace Ticker

/-- A clock that is `running` fires next at a multiple of a period. -/
def KeepsTo (period time : Nat) : Ticker → Prop
  | stopped _ => True
  | running left _ => left ≤ period ∧ period ∣ time + left

variable {clock : Ticker} {period time : Nat}

theorem KeepsTo.stop (clock : Ticker) (period time : Nat) : clock.stop.KeepsTo period time := by
  cases clock <;> exact trivial

/-- A clock that `KeepsTo` a period is due within a nanosecond just if that ends at a multiple of
    it. -/
theorem KeepsTo.isDue_one (h : clock.KeepsTo period time) (hruns : clock.isRunning = true) :
    clock.isDue 1 = decide (period ∣ time + 1) := by
  cases clock with
  | stopped left => exact absurd hruns Bool.false_ne_true
  | running left pos =>
    obtain ⟨hle, hdvd⟩ := h
    show decide (left ≤ 1) = _
    rw [decide_eq_decide]
    constructor
    · intro hone
      have : left = 1 := Nat.le_antisymm hone pos
      rwa [this] at hdvd
    · intro hnow
      -- two multiples of the period are not closer than a period
      have hless : period ∣ left - 1 := by
        have hdiff := Nat.dvd_sub hdvd hnow
        rwa [Nat.add_sub_add_left] at hdiff
      have hzero : left - 1 = 0 := Nat.eq_zero_of_dvd_of_lt hless (by omega)
      omega

/-- A nanosecond later a clock still `KeepsTo` its period. -/
theorem KeepsTo.after_one (h : clock.KeepsTo period time) (pos : 0 < period) :
    (clock.after 1 period pos).KeepsTo period (time + 1) := by
  cases clock with
  | stopped left => trivial
  | running left hleft =>
    obtain ⟨hle, hdvd⟩ := h
    by_cases hlt : 1 < left
    · have hafter : (running left hleft).after 1 period pos
          = running (left - 1) (Nat.sub_pos_of_lt hlt) := dif_pos hlt
      have hsame : time + 1 + (left - 1) = time + left := by omega
      rw [hafter]
      exact ⟨Nat.le_trans (Nat.sub_le left 1) hle, hsame ▸ hdvd⟩
    · have hafter : (running left hleft).after 1 period pos = running period pos :=
        dif_neg hlt
      have hone : left = 1 := by omega
      rw [hafter]
      rw [hone] at hdvd
      exact ⟨Nat.le_refl _, Nat.dvd_add hdvd (Nat.dvd_refl _)⟩

end Ticker

namespace Player

/-- A player is where the `Course` says some time after the beginning of a run, and its clocks keep
    to `chunkPeriod` and `blinkPeriod`. -/
structure OnTime (c : Player.Course) (time : Nat) (p : Player) : Prop where
  eq_course : p = c.player.withClocks p.chunkTicker p.blinkTicker
  plays : p.chunkTicker.isRunning = c.goesOn
  blinks : p.blinkTicker.isRunning = true
  chunk_keeps : p.chunkTicker.KeepsTo chunkPeriod time
  blink_keeps : p.blinkTicker.KeepsTo blinkPeriod time

variable {p : Player} {c : Course} {time : Nat}

namespace OnTime

/-- A nanosecond in which nothing fires is a `wait`, and leaves the player `OnTime`. -/
theorem wait_one (h : p.OnTime c time) : (p.wait 1).OnTime c (time + 1) where
  eq_course := by
    rw [h.eq_course]
    rfl
  plays := (Ticker.isRunning_after ..).trans h.plays
  blinks := (Ticker.isRunning_after ..).trans h.blinks
  chunk_keeps := h.chunk_keeps.after_one chunkPeriod_pos
  blink_keeps := h.blink_keeps.after_one blinkPeriod_pos

/-- A chunk, where the course `goesOn`, leaves the player `OnTime` for the course that took it. -/
theorem stepChunk (h : p.OnTime c time) (hgoes : c.goesOn = true) :
    p.stepChunk.2.OnTime c.takeChunk time := by
  have hstep : p.stepChunk.2 = c.player.stepChunk.2.withClocks
      (if c.player.nextChunk.consumed = 0 then p.chunkTicker.stop else p.chunkTicker)
      p.blinkTicker := by
    conv_lhs => rw [h.eq_course]
    exact stepChunk_withClocks ..
  rw [Course.takeChunk, if_pos hgoes, hstep]
  refine ⟨rfl, ?_, h.blinks, ?_, h.blink_keeps⟩
  · show Ticker.isRunning (if c.player.nextChunk.consumed = 0 then p.chunkTicker.stop
      else p.chunkTicker) = (decide (c.player.nextChunk.consumed ≠ 0) && c.goesOn)
    rw [hgoes, Bool.and_true]
    split
    · next hnone => rw [Ticker.isRunning_stop, decide_eq_false (not_not_intro hnone)]
    · next hsome => rw [h.plays, hgoes, decide_eq_true hsome]
  · show Ticker.KeepsTo chunkPeriod time (if c.player.nextChunk.consumed = 0
      then p.chunkTicker.stop else p.chunkTicker)
    split
    · exact Ticker.KeepsTo.stop ..
    · exact h.chunk_keeps

theorem mergeBlink (h : p.OnTime c time) : p.mergeBlink.OnTime c.mergeBlink time where
  eq_course := by
    conv_lhs => rw [h.eq_course]
    rfl
  plays := h.plays
  blinks := h.blinks
  chunk_keeps := h.chunk_keeps
  blink_keeps := h.blink_keeps

/-- A `tick` of a nanosecond does what `Course.atMoment` says is due at its end. -/
theorem tick_one {size : Nat} (h : p.OnTime c time) (hc : c.Regular size) :
    (p.tick 1).OnTime (c.atMoment (time + 1)) (time + 1) := by
  -- a chunk is due by the clock just if it is due by the calendar and the chunks go on
  have hchunkDue : p.chunkTicker.isDue 1
      = (c.goesOn && decide (chunkPeriod ∣ time + 1)) := by
    cases hgoes : c.goesOn with
    | true => exact h.chunk_keeps.isDue_one (h.plays.trans hgoes)
    | false =>
      have hstopped := h.plays.trans hgoes
      cases hticker : p.chunkTicker with
      | stopped left => rfl
      | running left pos =>
        rw [hticker] at hstopped
        exact absurd hstopped.symm Bool.false_ne_true
  have hchunked : OnTime (if chunkPeriod ∣ time + 1 then c.takeChunk else c) (time + 1)
      (if p.chunkTicker.isDue 1 then (p.wait 1).stepChunk.2 else p.wait 1) := by
    rw [hchunkDue]
    by_cases hdvd : chunkPeriod ∣ time + 1
    · rw [if_pos hdvd, decide_eq_true hdvd, Bool.and_true]
      cases hgoes : c.goesOn with
      | true => exact h.wait_one.stepChunk hgoes
      | false =>
        rw [Course.takeChunk, hgoes]
        exact h.wait_one
    · rw [if_neg hdvd, decide_eq_false hdvd, Bool.and_false]
      exact h.wait_one
  have hregular : (if chunkPeriod ∣ time + 1 then c.takeChunk else c).Regular size := by
    split
    · exact hc.takeChunk
    · exact hc
  rw [tick_eq, h.blink_keeps.isDue_one h.blinks, Course.atMoment]
  generalize (if p.chunkTicker.isDue 1 then (p.wait 1).stepChunk.2 else p.wait 1) = q
    at hchunked ⊢
  generalize (if chunkPeriod ∣ time + 1 then c.takeChunk else c) = d at hchunked hregular ⊢
  have hcancelled : q.cancelled = false := by
    rw [hchunked.eq_course]
    exact hregular.uncancelled
  dsimp only
  rw [if_neg (Bool.eq_false_iff.mp hcancelled)]
  by_cases hdvd : blinkPeriod ∣ time + 1
  · rw [if_pos (decide_eq_true hdvd), if_pos hdvd]
    exact hchunked.mergeBlink
  · have hnot : ¬ decide (blinkPeriod ∣ time + 1) = true := by simpa using hdvd
    rw [if_neg hnot, if_neg hdvd]
    exact hchunked

end OnTime

/-- In one nanosecond no clock fires twice, so `advance 1` is one `tick`. -/
theorem advance_one (hcancelled : p.cancelled = false) (hblinks : p.blinkTicker.isRunning = true)
    (hticked : (p.tick 1).cancelled = false)
    (hblinks' : (p.tick 1).blinkTicker.isRunning = true) : p.advance 1 = p.tick 1 := by
  cases hnext : p.chunkTicker.soonest p.blinkTicker with
  | none => exact absurd hnext (Ticker.soonest_ne_none hblinks)
  | some next =>
    rcases Nat.lt_or_ge 1 next.1 with hlt | hle
    · have hchunk := Ticker.isDue_eq_false hnext hlt
      have hblink := Ticker.isDue_eq_false ((Ticker.soonest_comm ..).symm.trans hnext) hlt
      rw [advance_of_lt hcancelled hnext hlt, tick_eq, hchunk, hblink]
      rfl
    · have hone : next.1 = 1 := Nat.le_antisymm hle next.2
      rw [advance_of_le hcancelled hnext hle, hone]
      -- no time is left after the tick
      cases hnext' : (p.tick 1).chunkTicker.soonest (p.tick 1).blinkTicker with
      | none => exact absurd hnext' (Ticker.soonest_ne_none hblinks')
      | some next' => rw [Nat.sub_self, advance_of_lt hticked hnext' next'.2, wait_zero]

namespace OnTime

/-- To `advance` by a nanosecond leads from moment to moment of the calendar. -/
theorem advance_one {size : Nat} (h : p.OnTime c time) (hc : c.Regular size) :
    (p.advance 1).OnTime (c.atMoment (time + 1)) (time + 1) := by
  have htick := h.tick_one hc
  have hcancelled : p.cancelled = false := by
    rw [h.eq_course]
    exact hc.uncancelled
  have hticked : (p.tick 1).cancelled = false := by
    rw [htick.eq_course]
    exact (hc.atMoment (time + 1)).uncancelled
  rw [Player.advance_one hcancelled h.blinks hticked htick.blinks]
  exact htick

/-- To `advance` by any time leads along the calendar, by induction on the nanoseconds in it. -/
theorem advance {size : Nat} (hc : c.Regular size) (h : p.OnTime (c.after time) time)
    (more : Nat) : (p.advance more).OnTime (c.after (time + more)) (time + more) := by
  induction more generalizing p time with
  | zero =>
    have hcancelled : p.cancelled = false := by
      rw [h.eq_course]
      exact (hc.after time).uncancelled
    cases hnext : p.chunkTicker.soonest p.blinkTicker with
    | none => exact absurd hnext (Ticker.soonest_ne_none h.blinks)
    | some next =>
      rw [advance_of_lt hcancelled hnext next.2, wait_zero]
      exact h
  | succ more ih =>
    have hone : (p.advance 1).OnTime (c.after (time + 1)) (time + 1) :=
      h.advance_one (hc.after time)
    have hmore := ih hone
    rw [advance_one_advance, Nat.add_assoc, Nat.add_comm 1 more] at hmore
    exact hmore

/-- Several spells of time lead as far along the calendar as their sum, as `advance_advance` puts
    them together. -/
theorem foldl_advance {size : Nat} (hc : c.Regular size) (h : p.OnTime (c.after time) time)
    (times : List Nat) :
    (times.foldl Player.advance p).OnTime (c.after (time + times.sum)) (time + times.sum) := by
  induction times generalizing p time with
  | nil => exact h
  | cons more times ih =>
    rw [List.foldl_cons, List.sum_cons, ← Nat.add_assoc]
    exact ih (h.advance hc more)

end OnTime

/-- A run that has just begun is `OnTime` for the course `begun` at time 0. -/
theorem onTime_begun (p : Player) (baud : Option Nat) (waiting : Option Callback)
    (reset : Bool) :
    (p.play baud waiting reset).OnTime (.begun p baud waiting reset) 0 := by
  -- before the first chunk both clocks have a whole period left
  have hstarted : (p.started baud waiting reset).OnTime
      ⟨p.started baud waiting reset, []⟩ 0 :=
    ⟨rfl, rfl, rfl, ⟨Nat.le_refl _, Nat.dvd_add (Nat.dvd_zero _) (Nat.dvd_refl _)⟩,
      ⟨Nat.le_refl _, Nat.dvd_add (Nat.dvd_zero _) (Nat.dvd_refl _)⟩⟩
  exact hstarted.stepChunk rfl

/-- **A run keeps to the calendar.** Start a run by `play` on any player, let nobody cancel it, and
    tell it in any spells by `advance` that time has passed. But for the time that its clocks have
    left, it is the run by the calendar: from the state right after its beginning, a chunk every ten
    milliseconds up to the first that finds nothing, and a phase of the blink every quarter of a
    second, after the chunk where both are due. So the shown phase is `phaseAfter` of the time
    alone, and every chunk has its full size, or has scrolled, or has come to the end of the art. -/
theorem paced_eq_calendar (p : Player) (baud : Option Nat) (waiting : Option Callback)
    (hwaiting : ∀ callback ∈ waiting, callback.cancels = false) (reset : Bool)
    (times : List Nat) :
    let total := times.sum
    let paced := times.foldl advance (p.play baud waiting reset)
    let planned := (Course.begun p baud waiting reset).after total
    paced = planned.player.withClocks paced.chunkTicker paced.blinkTicker
    ∧ paced.chunkTicker.isRunning = planned.player.chunkTicker.isRunning
    ∧ paced.blinkTicker.isRunning = planned.player.blinkTicker.isRunning
    ∧ paced.terminal.screen.shown
      = (if total < blinkPeriod then none
        else if total / blinkPeriod % 2 = 1 then some .on else some .off)
    ∧ ∀ chunk ∈ planned.chunks,
        chunk.consumed = chunkSize (baud.getD ordinaryBaud) ∨ chunk.scrolled = true
          ∨ chunk.stream.atEnd = true := by
  intro total paced planned
  have hbegun := Course.regular_begun p baud waiting hwaiting reset
  have hplanned : planned.Regular (chunkSize (baud.getD ordinaryBaud)) := hbegun.after total
  have hpaced : paced.OnTime planned total := by
    have hnow :
        (p.play baud waiting reset).OnTime ((Course.begun p baud waiting reset).after 0) 0 :=
      onTime_begun p baud waiting reset
    have hlater := OnTime.foldl_advance hbegun hnow times
    rwa [Nat.zero_add] at hlater
  refine ⟨hpaced.eq_course, hpaced.plays.trans hplanned.plays.symm,
    hpaced.blinks.trans hplanned.blinks.symm, ?_, hplanned.chunks_full⟩
  -- a run begins without a phase, and only the calendar changes that
  have hfirst : (Course.begun p baud waiting reset).player.terminal.screen.blinkState
      = (none, .on) := by
    show (p.started baud waiting reset).stepChunk.2.terminal.screen.blinkState = _
    rw [terminal_stepChunk]
    exact (Terminal.takes_read ..).blinkState_eq
  have hphase : planned.player.terminal.screen.shown = Course.phaseAfter (total / blinkPeriod) :=
    congrArg Prod.fst (Course.blinkState_after hfirst total)
  have hterminal := congrArg Player.terminal hpaced.eq_course
  have hnone : total / blinkPeriod = 0 ↔ total < blinkPeriod :=
    Nat.div_eq_zero_iff_lt blinkPeriod_pos
  rw [hterminal]
  show planned.player.terminal.screen.shown = _
  rw [hphase, Course.phaseAfter]
  exact if_congr hnone rfl rfl

/-- A case of `paced_eq_calendar`: two bytes at the slowest rate, told of a quarter of a second in
    three spells that end between the ticks. -/
theorem paced_for_a_quarter :
    let waiting : Option Callback := some { id := 7 }
    let times := [9999999, 200000001, 40000000]
    let paced := times.foldl advance
      ((Player.new [0x48, 0x69] .ordinary).play (some 0) waiting true)
    (∀ callback ∈ waiting, callback.cancels = false)
    ∧ paced.terminal.screen.shown = some .on := by
  intro waiting times paced
  have hwaiting : ∀ callback ∈ waiting, callback.cancels = false := by decide
  obtain ⟨_, _, _, hshown, _⟩ :=
    paced_eq_calendar (.new [0x48, 0x69] .ordinary) (some 0) waiting hwaiting true times
  exact ⟨hwaiting, hshown.trans (by decide)⟩

end Player

end TextArt
