import TextArt.Proofs.Calendar
import TextArt.Proofs.Replay

namespace TextArt

/-!
# Cancelling — a cancelled run is a stopped one, and no other run is touched

Whoever cancels a run from outside raises a flag and nothing else; the clocks go on until the
player looks at it.  Whoever stops it stops the clocks at once.  What can be seen of the two is
the same, now and after anything that is done later.

* `Player.noticed` — the player when it has seen that its run is cancelled;
* `Player.noticed_act` — it may see that before or after anything is done to it;
* `Player.run_le_act` — runs are numbered in the order of their beginning, so what was known of
  runs before a `play` is about other runs than the current one;
* `Player.Rests` — a player that takes no chunks rests but for the blink, however much time
  passes (`Player.Rests.advance`);
* `Player.cancelling_is_exact` — what a cancel does, and what it does not do.
-/

namespace Player

variable {p q : Player}

/-! ### Noticing -/

/-- The player when it has seen that its run is `cancelled`, if it is: then it does what `halt`
    does. -/
def noticed (p : Player) : Player :=
  if p.cancelled then p.halt else p

theorem noticed_of_cancelled (h : p.cancelled = true) : p.noticed = p.halt :=
  if_pos h

theorem noticed_of_live (h : p.cancelled = false) : p.noticed = p :=
  if_neg (Bool.eq_false_iff.mp h)

/-- Only the clocks are stopped by `noticed`. -/
theorem noticed_eq_withClocks (p : Player) :
    p.noticed = p.withClocks p.noticed.chunkTicker p.noticed.blinkTicker := by
  unfold noticed
  split <;> rfl

/-- Players that are the same once they have `noticed` differ in nothing but their clocks. -/
theorem eq_withClocks_of_noticed (h : p.noticed = q.noticed) :
    p = q.withClocks p.chunkTicker p.blinkTicker :=
  calc p
      = p.noticed.withClocks p.chunkTicker p.blinkTicker := by
        rw [noticed_eq_withClocks]
        rfl
    _ = q.noticed.withClocks p.chunkTicker p.blinkTicker := by rw [h]
    _ = q.withClocks p.chunkTicker p.blinkTicker := by
        rw [noticed_eq_withClocks]
        rfl

/-- A cancelled run neither plays nor blinks, whether or not that has been `noticed`. -/
theorem isPlaying_noticed (p : Player) : p.noticed.isPlaying = p.isPlaying := by
  cases h : p.cancelled with
  | true => simp [noticed, isPlaying, halt, h]
  | false => rw [noticed_of_live h]

theorem isBlinking_noticed (p : Player) : p.noticed.isBlinking = p.isBlinking := by
  cases h : p.cancelled with
  | true => simp [noticed, isBlinking, halt, h]
  | false => rw [noticed_of_live h]

/-- No `stepChunk` takes a cancel back. -/
theorem cancelled_stepChunk (h : p.cancelled = true) : p.stepChunk.2.cancelled = true := by
  unfold stepChunk
  dsimp only
  rw [finish_eq]
  split
  · exact Bool.or_eq_true_iff.mpr (.inl h)
  · exact h

/-- A chunk taken after `halt` has stopped the clocks is one taken before. -/
theorem stepChunk_halt (p : Player) : p.halt.stepChunk.2 = p.stepChunk.2.halt := by
  have hhalt : p.halt = p.withClocks p.chunkTicker.stop p.blinkTicker.stop := rfl
  have hown : p.stepChunk.2 = _ := stepChunk_withClocks p p.chunkTicker p.blinkTicker
  rw [hhalt, stepChunk_withClocks, hown]
  unfold halt withClocks
  dsimp only
  split <;> simp

/-- What is done to a cancelled player by an `Act` it may notice before or after. -/
theorem noticed_act_halt (h : p.cancelled = true) (a : Act) :
    (p.halt.act a).noticed = (p.act a).noticed := by
  -- `halt` leaves the flag as it is, so both players are cancelled all along
  have hhalt : p.halt.cancelled = true := h
  cases a with
  | play baud waiting reset => rfl
  | stop => simp [act, stop, halt]
  | load file =>
    show (p.halt.load file).noticed = (p.load file).noticed
    rw [noticed_of_cancelled (p := p.halt.load file) h, noticed_of_cancelled (p := p.load file) h]
    simp [load, halt]
  | advance time =>
    show (p.halt.advance time).noticed = (p.advance time).noticed
    rw [advance_of_cancelled hhalt, advance_of_cancelled h, halt_halt]
  | renderAll =>
    show p.halt.renderAll.2.noticed = p.renderAll.2.noticed
    simp [renderAll, stop, halt]
  | stepChunk =>
    have hstep := cancelled_stepChunk h
    show p.halt.stepChunk.2.noticed = p.stepChunk.2.noticed
    rw [stepChunk_halt, noticed_of_cancelled hstep,
      noticed_of_cancelled (p := p.stepChunk.2.halt) hstep, halt_halt]
  | mergeBlink =>
    show p.halt.mergeBlink.noticed = p.mergeBlink.noticed
    rw [noticed_of_cancelled (p := p.halt.mergeBlink) h, noticed_of_cancelled (p := p.mergeBlink) h]
    simp [mergeBlink, halt]
  | frame =>
    show p.halt.frame.2.noticed = p.frame.2.noticed
    rw [noticed_of_cancelled (p := p.halt.frame.2) h, noticed_of_cancelled (p := p.frame.2) h]
    simp [frame, halt]
  | snapshot =>
    show p.halt.noticed = p.noticed
    rw [noticed_of_cancelled hhalt, noticed_of_cancelled h, halt_halt]
  | cancel run =>
    -- a second cancel of the run raises a flag that is raised already
    have hcancel : ∀ q : Player, q.cancelled = true → q.cancel run = q := by
      intro q hq
      unfold cancel
      split
      · rw [← hq]
      · rfl
    show (p.halt.cancel run).noticed = (p.cancel run).noticed
    rw [hcancel p.halt hhalt, hcancel p h, noticed_of_cancelled hhalt, noticed_of_cancelled h,
      halt_halt]

theorem noticed_act (p : Player) (a : Act) : (p.noticed.act a).noticed = (p.act a).noticed := by
  cases h : p.cancelled with
  | true => rw [noticed_of_cancelled h, noticed_act_halt h]
  | false => rw [noticed_of_live h]

/-- Players that are the same once they have `noticed` are so after the same acts are done to
    both. -/
theorem noticed_foldl_act (h : p.noticed = q.noticed) (acts : List Act) :
    (acts.foldl act p).noticed = (acts.foldl act q).noticed := by
  induction acts generalizing p q with
  | nil => exact h
  | cons a acts ih =>
    refine ih ?_
    rw [← noticed_act p a, h, noticed_act q a]

/-- A `cancel` of the current run that has been `noticed` is a `stop`. -/
theorem noticed_cancel_run (p : Player) : (p.cancel p.run).noticed = p.stop.noticed := by
  have hcancel : (p.cancel p.run) = { p with cancelled := true } := if_pos rfl
  rw [hcancel, noticed_of_cancelled (p := { p with cancelled := true }) rfl,
    noticed_of_cancelled (p := p.stop) rfl]
  simp [stop, halt]

/-! ### The numbers of the runs -/

@[simp] theorem run_stepChunk (p : Player) : p.stepChunk.2.run = p.run := by
  unfold stepChunk
  dsimp only
  rw [finish_eq]
  split <;> rfl

@[simp] theorem run_advance (p : Player) (time : Nat) : (p.advance time).run = p.run :=
  @advance_keeps p (fun q => q.run = p.run) (fun _ h => h) (fun _ _ h => h)
    (fun q h => (run_stepChunk q).trans h) (fun _ h => h) (fun _ h => h) rfl time

/-- No `Act` goes back to an earlier run: the number `run` does not fall. -/
theorem run_le_act (p : Player) (a : Act) : p.run ≤ (p.act a).run := by
  cases a with
  | play baud waiting reset =>
    show p.run ≤ (p.started baud waiting reset).stepChunk.2.run
    rw [run_stepChunk]
    exact Nat.le_succ p.run
  | advance time => exact Nat.le_of_eq (run_advance p time).symm
  | stepChunk => exact Nat.le_of_eq (run_stepChunk p).symm
  | cancel run =>
    -- a cancel may raise a flag, but it does not count as a run
    show p.run ≤ (p.cancel run).run
    unfold cancel
    split <;> exact Nat.le_refl _
  | stop => exact Nat.le_refl _
  | load file => exact Nat.le_refl _
  | renderAll => exact Nat.le_refl _
  | mergeBlink => exact Nat.le_refl _
  | frame => exact Nat.le_refl _
  | snapshot => exact Nat.le_refl _

theorem run_le_foldl_act (p : Player) (acts : List Act) : p.run ≤ (acts.foldl act p).run := by
  refine @List.foldlRecOn _ _ (fun q => p.run ≤ q.run) acts act p (Nat.le_refl _)
    fun q hq a _ => ?_
  exact Nat.le_trans hq (run_le_act q a)

/-- To `cancel` a run before the current one does nothing. -/
theorem cancel_of_lt {run : Nat} (h : run < p.run) : p.cancel run = p :=
  if_neg (Nat.ne_of_lt h)

/-! ### Players at rest -/

end Player

namespace Ticker

variable {clock clock' : Ticker}

theorem isDue_of_not_running (h : clock.isRunning = false) (time : Nat) :
    clock.isDue time = false := by
  cases clock with
  | stopped left => rfl
  | running left pos => exact nomatch h

/-- Where no clock runs, `soonest` finds none that fires. -/
theorem soonest_eq_none (h : clock.isRunning = false) (h' : clock'.isRunning = false) :
    clock.soonest clock' = none := by
  cases clock with
  | stopped left =>
    cases clock' with
    | stopped left' => rfl
    | running left' pos' => exact nomatch h'
  | running left pos => exact nomatch h

end Ticker

namespace Player

variable {p q : Player}

/-- A player that takes no chunks is another one, but for its clocks and its blink. -/
structure Rests (p q : Player) : Prop where
  idle : q.isPlaying = false
  stream_eq : q.stream = p.stream
  settled_eq : q.terminal.settled = p.terminal.settled
  completed_eq : q.completed = p.completed

namespace Rests

/-- A `tick` at rest can only be one of the blink. -/
theorem tick (h : p.Rests q) (hlive : q.cancelled = false) (time : Nat) :
    p.Rests (q.tick time) := by
  -- a run that is not cancelled and does not play has a clock that does not run
  have hstopped : q.chunkTicker.isRunning = false := by
    have hidle := h.idle
    rwa [isPlaying, hlive, Bool.not_false, Bool.and_true] at hidle
  have hidle : ∀ screen, isPlaying
      { q.wait time with terminal := { q.terminal with screen } } = false := by
    intro screen
    show ((q.chunkTicker.after time chunkPeriod chunkPeriod_pos).isRunning && !q.cancelled) = false
    rw [Ticker.isRunning_after, hstopped, Bool.false_and]
  have hwait : (q.wait time).cancelled = false := hlive
  rw [tick_eq, Ticker.isDue_of_not_running hstopped]
  dsimp only
  rw [if_neg Bool.false_ne_true, hwait, if_neg Bool.false_ne_true]
  split
  · exact ⟨hidle _, h.stream_eq, h.settled_eq, h.completed_eq⟩
  · exact ⟨hidle _, h.stream_eq, h.settled_eq, h.completed_eq⟩

/-- Only the blink goes on while an `advance` is told to a player that `Rests`. -/
theorem advance (h : p.Rests q) (time : Nat) : p.Rests (q.advance time) := by
  -- the case of a chunk never comes, since `tick` has none to take for a player at rest
  refine @advance_preserves q (fun _ q => p.Rests q) ?_ ?_ ?_ ?_ 0 h time
  · intro _ q _ h _
    exact ⟨by simp [isPlaying, halt], h.stream_eq, h.settled_eq, h.completed_eq⟩
  · intro _ q _ h _ _
    exact h
  · intro _ q time _ h _ _ _
    refine ⟨?_, h.stream_eq, h.settled_eq, h.completed_eq⟩
    show ((q.chunkTicker.after time chunkPeriod chunkPeriod_pos).isRunning && !q.cancelled) = false
    rw [Ticker.isRunning_after]
    exact h.idle
  · intro _ q next h hlive _
    exact h.tick hlive next.1

theorem foldl_advance (h : p.Rests q) (times : List Nat) :
    p.Rests (times.foldl Player.advance q) := by
  induction times generalizing q with
  | nil => exact h
  | cons time times ih => exact ih (h.advance time)

end Rests

/-- A player that neither plays nor blinks can only notice that when it is told to `advance`. -/
theorem advance_of_still (hidle : p.isPlaying = false) (hdark : p.isBlinking = false)
    (time : Nat) : p.advance time = p.noticed := by
  cases h : p.cancelled with
  | true => rw [advance_of_cancelled h, noticed_of_cancelled h]
  | false =>
    rw [isPlaying, h, Bool.not_false, Bool.and_true] at hidle
    rw [isBlinking, h, Bool.not_false, Bool.and_true] at hdark
    rw [advance_of_none h (Ticker.soonest_eq_none hidle hdark), noticed_of_live h]

/-- So the `terminal` of a player that neither plays nor blinks does not change with time. -/
theorem terminal_foldl_advance_of_still (hidle : p.isPlaying = false)
    (hdark : p.isBlinking = false) (times : List Nat) :
    (times.foldl advance p).terminal = p.terminal := by
  induction times generalizing p with
  | nil => rfl
  | cons time times ih =>
    rw [List.foldl_cons, advance_of_still hidle hdark,
      ih ((isPlaying_noticed p).trans hidle) ((isBlinking_noticed p).trans hdark),
      noticed_eq_withClocks]
    rfl

/-- **A cancel does what a stop does, and nothing to other runs.** Take any player that any acts
    have been done to. Once `stop` has been called it neither plays nor blinks. To `cancel` its run
    from outside is to `stop` it, for all that can be seen of the player after anything that is done
    later: all of it is the same but the clocks, and so are `isPlaying` and `isBlinking`. Once
    another run has been started, a `cancel` of this one or of any before it does nothing. While no
    chunks are taken, `advance` changes nothing but the phase of the blink, and not even that while
    nothing blinks. And to `stop` a player again does nothing. -/
theorem cancelling_is_exact (file : Bytes) (config : Config) (acts : List Act) :
    let p := acts.foldl act (.new file config)
    (p.stop.isPlaying = false ∧ p.stop.isBlinking = false)
    ∧ (∀ later : List Act,
      let cancelled := later.foldl act (p.cancel p.run)
      let stopped := later.foldl act p.stop
      cancelled = stopped.withClocks cancelled.chunkTicker cancelled.blinkTicker
      ∧ cancelled.isPlaying = stopped.isPlaying
      ∧ cancelled.isBlinking = stopped.isBlinking)
    ∧ (∀ baud waiting reset, ∀ later : List Act, ∀ run ≤ p.run,
        let q := later.foldl act (p.play baud waiting reset)
        q.cancel run = q)
    ∧ (p.isPlaying = false → ∀ times : List Nat,
        let q := times.foldl advance p
        q.stream = p.stream
        ∧ q.terminal.session = p.terminal.session
        ∧ q.terminal.pending = p.terminal.pending
        ∧ q.terminal.scrolls = p.terminal.scrolls
        ∧ q.terminal.screen.visible = p.terminal.screen.visible
        ∧ q.terminal.screen.onMask = p.terminal.screen.onMask
        ∧ q.terminal.screen.offMask = p.terminal.screen.offMask
        ∧ q.completed = p.completed
        ∧ (p.isBlinking = false →
            q.terminal.screen.shown = p.terminal.screen.shown
            ∧ q.terminal.screen.frame = p.terminal.screen.frame))
    ∧ p.stop.stop = p.stop := by
  intro p
  refine ⟨⟨Bool.and_false _, Bool.and_false _⟩, fun later => ?_,
    fun baud waiting reset later run hrun => ?_, fun hidle times => ?_, stop_stop p⟩
  · intro cancelled stopped
    -- both have noticed by then that the run is cancelled, so the same acts lead to the same player
    have hsame : cancelled.noticed = stopped.noticed :=
      noticed_foldl_act (noticed_cancel_run p) later
    refine ⟨eq_withClocks_of_noticed hsame, ?_, ?_⟩
    · rw [← isPlaying_noticed, hsame, isPlaying_noticed]
    · rw [← isBlinking_noticed, hsame, isBlinking_noticed]
  -- `play` takes the next number, and no later act takes a smaller one
  · refine cancel_of_lt ?_
    have hplay : (p.play baud waiting reset).run = p.run + 1 := run_stepChunk _
    have hlater := run_le_foldl_act (p.play baud waiting reset) later
    omega
  · intro q
    -- what stays is all that `settled` keeps of a terminal, which is all but the blink
    have hrests : p.Rests q := Rests.foldl_advance ⟨hidle, rfl, rfl, rfl⟩ times
    have hsettled := hrests.settled_eq
    have hsession := congrArg Terminal.session hsettled
    have hpending := congrArg Terminal.pending hsettled
    have hscrolls := congrArg Terminal.scrolls hsettled
    have hscreen := congrArg Terminal.screen hsettled
    have hvisible := congrArg Screen.visible hscreen
    have honMask := congrArg Screen.onMask hscreen
    have hoffMask := congrArg Screen.offMask hscreen
    refine ⟨hrests.stream_eq, hsession, hpending, hscrolls, hvisible, honMask, hoffMask,
      hrests.completed_eq, fun hdark => ?_⟩
    have hterminal : q.terminal = p.terminal := terminal_foldl_advance_of_still hidle hdark times
    rw [hterminal]
    exact ⟨rfl, rfl⟩

/-- A case of `cancelling_is_exact`: a run of two bytes, cancelled after the first, and one that is
    played after it. -/
theorem cancelling_of_two_bytes :
    let p := [Act.play (some 0) none true, .cancel 1].foldl act (.new [0x48, 0x69] .ordinary)
    let q := [Act.advance 10000000, .stop].foldl act (p.play none none false)
    p.isPlaying = false
    ∧ p.isBlinking = false
    ∧ 1 ≤ p.run
    ∧ q.cancel 1 = q
    ∧ ([10000000, 250000000].foldl advance p).stream = p.stream
    ∧ ([10000000, 250000000].foldl advance p).terminal.screen.shown
      = p.terminal.screen.shown := by
  intro p q
  obtain ⟨_, _, hstale, hrests, _⟩ := cancelling_is_exact [0x48, 0x69] .ordinary
    [.play (some 0) none true, .cancel 1]
  have hidle : p.isPlaying = false := by decide
  have hdark : p.isBlinking = false := by decide
  have hrun : 1 ≤ p.run := by decide
  obtain ⟨hstream, _, _, _, _, _, _, _, hstill⟩ := hrests hidle [10000000, 250000000]
  exact ⟨hidle, hdark, hrun, hstale none none false [.advance 10000000, .stop] 1 hrun, hstream,
    (hstill hdark).1⟩

end Player

end TextArt
