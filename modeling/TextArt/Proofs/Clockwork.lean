import TextArt.Proofs.Acts
import Mathlib.Logic.Function.Basic

namespace TextArt

/-!
# Clockworks — why no time that passes goes on forever

A running ticker of a player has some time left by its type, and a run is cancelled as soon
as there is a later one.  A clockwork is the same machine without such precautions.  Its
clocks are a flag and a number each, which may well be zero, and every run has a flag of its
own that somebody may raise.  Time passes in rounds, and nothing but the conduct of the
machine keeps it from going round forever.

* `Clockwork.round`, `Clockwork.advance` — one round, and rounds until one of them ends;
  where none ends there is no answer;
* `Clockwork.act` — all that can be done to a clockwork from outside;
* `Clockwork.Wound` — what is true of a clockwork between two acts, which every act preserves
  (`Clockwork.Wound.act`);
* `Clockwork.Ticking.round` — from there a round ends, or uses up some of the time;
* `Clockwork.player` — the player that a clockwork is: where it is wound, an act does to the
  one what it does to the other, and the player is wound too (`Player.Wound`);
* `Clockwork.wound_of_acts` — so after any acts a clockwork is wound, and any time that
  passes comes to an end.
-/

/-- What `stepChunk` does has nothing to do with the `blinkTicker`. -/
theorem Player.stepChunk_blinkTicker (p : Player) (blinkTicker : Ticker) :
    { p with blinkTicker }.stepChunk.2 = { p.stepChunk.2 with blinkTicker } := by
  unfold stepChunk
  dsimp only
  rw [finish_eq, finish_eq]
  split <;> rfl

/-- What the clocks of a player keep to between two acts, beyond what the type `Ticker` says: that a
    clock which runs has some time left. -/
structure Player.Wound (p : Player) : Prop where
  /-- The `blinkTicker` goes on as long as chunks are taken. -/
  blinks : p.chunkTicker.isRunning = true → p.blinkTicker.isRunning = true
  /-- The blink ends with a cancel only. -/
  cancelled_of_still : p.blinkTicker.isRunning = false → p.cancelled = true
  chunk_le : ∀ left pos, p.chunkTicker = .running left pos → left ≤ chunkPeriod
  blink_le : ∀ left pos, p.blinkTicker = .running left pos → left ≤ blinkPeriod
  chunk_pos : 1 ≤ p.chunk

/-- A player on plain clocks: two flags and two numbers in the place of each `Ticker`, and a flag
    for every run in the place of one token. -/
structure Clockwork where
  config : Config
  stream : ByteStream
  terminal : Terminal
  /-- The number of the current run. -/
  run : Nat
  /-- Whether the run of a number has been cancelled. -/
  cancelled : Nat → Bool
  baud : Nat
  /-- The bytes of a chunk. -/
  chunk : Nat
  /-- Chunks are taken. -/
  chunkActive : Bool
  /-- The blink goes on. -/
  blinkActive : Bool
  /-- The time until the next chunk, which means something only if `chunkActive`. -/
  untilChunk : Nat
  /-- The time until the next phase of the blink, which means something only if `blinkActive`. -/
  untilBlink : Nat
  waiting : Option Callback
  completed : List Nat

namespace Clockwork

/-- A clockwork at rest, with a `Terminal` for the art of a file. -/
def new (file : Bytes) (config : Config) : Clockwork :=
  let stream := ByteStream.ofFile file
  let columns := config.columnsFor (stream.record.bind Sauce.columns)
  { config, stream
    terminal := .new config columns config.rows columns config.rows
    run := 0
    cancelled := fun run => run = 0
    baud := ordinaryBaud
    chunk := chunkSize ordinaryBaud
    chunkActive := false
    blinkActive := false
    untilChunk := chunkPeriod
    untilBlink := blinkPeriod
    waiting := none
    completed := [] }

/-! ### Ticks -/

/-- Raise the flag of a run, whether or not it is the current one. -/
def cancel (m : Clockwork) (run : Nat) : Clockwork :=
  { m with cancelled := Function.update m.cancelled run true }

/-- End taking bytes, and call back whoever is `waiting` for it. -/
def finish (m : Clockwork) : Clockwork :=
  match m.waiting with
  | none => { m with chunkActive := false }
  | some callback =>
    let m :=
      { m with
        chunkActive := false
        waiting := none
        completed := callback.id :: m.completed }
    if callback.cancels then m.cancel m.run else m

/-- Take a chunk with `Terminal.read`; also say how many bytes it had. -/
def stepChunk (m : Clockwork) : Nat × Clockwork :=
  let { terminal, stream, consumed, .. } := m.terminal.read m.stream m.chunk
  let m := { m with terminal, stream }
  (consumed, if consumed = 0 then m.finish else m)

/-- Let the blink show its next phase. -/
def mergeBlink (m : Clockwork) : Clockwork :=
  { m with terminal := { m.terminal with screen := m.terminal.screen.merge } }

/-! ### The passing of time -/

/-- Stop both clocks, `chunkActive` and `blinkActive`. -/
def halt (m : Clockwork) : Clockwork :=
  { m with chunkActive := false, blinkActive := false }

/-- The time until a clock fires, if one is active. -/
def next? (m : Clockwork) : Option Nat :=
  match m.chunkActive, m.blinkActive with
  | true, true => some (min m.untilChunk m.untilBlink)
  | true, false => some m.untilChunk
  | false, true => some m.untilBlink
  | false, false => none

/-- Both clocks run down, the inactive ones too. -/
def wait (m : Clockwork) (time : Nat) : Clockwork :=
  { m with untilChunk := m.untilChunk - time, untilBlink := m.untilBlink - time }

/-- Take a chunk if `untilChunk` has run down. -/
def fireChunk (m : Clockwork) : Clockwork :=
  if m.chunkActive && m.untilChunk = 0 then { m with untilChunk := chunkPeriod }.stepChunk.2 else m

/-- Show the next phase if `untilBlink` has run down, unless the chunk has led to a cancel. -/
def fireBlink (m : Clockwork) : Clockwork :=
  if m.blinkActive && m.untilBlink = 0 && !m.cancelled m.run then
    { m with untilBlink := blinkPeriod }.mergeBlink
  else m

/-- One round with some time left: either the time ends in it, or some may be left for the next
    round. -/
def round (m : Clockwork) (time : Nat) : Clockwork ⊕ Clockwork × Nat :=
  if m.cancelled m.run then .inl m.halt
  else
    match m.next? with
    | none => .inl m
    | some next =>
      if time < next then .inl (m.wait time)
      else .inr ((m.wait next).fireChunk.fireBlink, time - next)

/-- Rounds until one of them ends.  This is no definition by recursion on anything: where no
    round ends the answer is `none`. -/
def advance (m : Clockwork) (time : Nat) : Option Clockwork :=
  match m.round time with
  | .inl ended => some ended
  | .inr (later, left) => later |>.advance left
partial_fixpoint

/-- The clockwork and the time left after `n` rounds, if none of them has ended. -/
def rounds (m : Clockwork) (time : Nat) : Nat → Option (Clockwork × Nat)
  | 0 => some (m, time)
  | n + 1 => (m.rounds time n).bind fun state => (state.1.round state.2).getRight?

/-! ### Runs -/

/-- Start a run from the beginning of the art, and take its first chunk at once. -/
def play (m : Clockwork) (baud : Option Nat) (waiting : Option Callback) (reset : Bool) :
    Clockwork :=
  let m := m.cancel m.run
  let baud := baud.getD ordinaryBaud
  let terminal := if reset then m.terminal.reset else m.terminal.resetPen
  let started :=
    { m with
      terminal := { terminal with screen := terminal.screen.restartBlink }
      stream := m.stream.seek 0
      run := m.run + 1
      cancelled := Function.update m.cancelled (m.run + 1) false
      baud
      chunk := chunkSize baud
      chunkActive := true
      blinkActive := true
      untilChunk := chunkPeriod
      untilBlink := blinkPeriod
      waiting }
  started.stepChunk.2

/-- Cancel the current run and `halt`, unless that has been done. -/
def stop (m : Clockwork) : Clockwork :=
  if !m.chunkActive && !m.blinkActive && m.cancelled m.run then m else (m.cancel m.run).halt

/-- Take up the art of another file. -/
def load (m : Clockwork) (file : Bytes) : Clockwork :=
  { m with chunkActive := false, waiting := none, stream := .ofFile file }

/-- Draw all of the art at once by `readToEnd`, without pace; also say how many bytes it had. -/
def renderAll (m : Clockwork) : Nat × Clockwork :=
  let m := (m.cancel m.run).halt
  let { terminal, stream, consumed, .. } := m.terminal.reset.readToEnd (m.stream.seek 0)
  (consumed, { m with terminal, stream })

/-- The picture with the shown phase of the blink. -/
def frame (m : Clockwork) : Raster × Clockwork :=
  let (picture, screen) := m.terminal.screen.frame
  (picture, { m with terminal := { m.terminal with screen } })

/-- What a clockwork becomes by a `Player.Act`. -/
def act (m : Clockwork) : Player.Act → Option Clockwork
  | .play baud waiting reset => some (m.play baud waiting reset)
  | .stop => some m.stop
  | .load file => some (m.load file)
  | .advance time => m.advance time
  | .renderAll => some m.renderAll.2
  | .stepChunk => some m.stepChunk.2
  | .mergeBlink => some m.mergeBlink
  | .frame => some m.frame.2
  | .snapshot => some m
  | .cancel run => some (m.cancel run)

/-! ### Wound clockworks -/

/-- What is true of a clockwork between two acts. -/
structure Wound (m : Clockwork) : Prop where
  /-- The blink goes on as long as chunks are taken. -/
  blinks : m.chunkActive = true → m.blinkActive = true
  /-- The blink ends with a cancel only. -/
  cancelled_of_still : m.blinkActive = false → m.cancelled m.run = true
  untilChunk_pos : m.chunkActive = true → 0 < m.untilChunk
  untilChunk_le : m.chunkActive = true → m.untilChunk ≤ chunkPeriod
  untilBlink_pos : m.blinkActive = true → 0 < m.untilBlink
  untilBlink_le : m.blinkActive = true → m.untilBlink ≤ blinkPeriod
  /-- All runs before the current one have been cancelled. -/
  earlier : ∀ run < m.run, m.cancelled run = true
  chunk_pos : 1 ≤ m.chunk

/-- What is true of a clockwork between two rounds. A chunk may lead to a cancel in the very moment
    in which `untilBlink` has run down; then it is `Wound` only when it has halted. -/
structure Ticking (m : Clockwork) : Prop where
  wound : m.cancelled m.run = false → m.Wound
  wound_halt : m.cancelled m.run = true → m.halt.Wound

variable {m : Clockwork}

theorem wound_new (file : Bytes) (config : Config) : (new file config).Wound where
  blinks h := nomatch h
  cancelled_of_still _ := rfl
  untilChunk_pos h := nomatch h
  untilChunk_le h := nomatch h
  untilBlink_pos h := nomatch h
  untilBlink_le h := nomatch h
  earlier _ h := nomatch h
  chunk_pos := chunkSize_pos _

/-- The flag of the current run is raised by its `cancel`. -/
theorem cancelled_cancel_self (m : Clockwork) (run : Nat) :
    (m.cancel run).cancelled run = true := by
  simp only [cancel, Function.update_self]

/-- A raised flag stays raised when `cancel` raises another one. -/
theorem cancelled_cancel {run : Nat} (h : m.cancelled run = true) (other : Nat) :
    (m.cancel other).cancelled run = true := by
  by_cases hrun : run = other
  · rw [hrun]
    exact m.cancelled_cancel_self other
  · exact (Function.update_of_ne hrun true m.cancelled).trans h

namespace Wound

theorem cancel (h : m.Wound) (run : Nat) : (m.cancel run).Wound :=
  { h with
    cancelled_of_still := fun hstill => cancelled_cancel (h.cancelled_of_still hstill) run
    earlier := fun other hother => cancelled_cancel (h.earlier other hother) run }

/-- A clockwork may `halt` when its run has been cancelled, whatever time the blink has left. -/
theorem halt_of {untilBlink : Nat} (h : Wound { m with untilBlink })
    (hcancelled : m.cancelled m.run = true) : m.halt.Wound where
  blinks hactive := nomatch hactive
  cancelled_of_still _ := hcancelled
  untilChunk_pos hactive := nomatch hactive
  untilChunk_le hactive := nomatch hactive
  untilBlink_pos hactive := nomatch hactive
  untilBlink_le hactive := nomatch hactive
  earlier := h.earlier
  chunk_pos := h.chunk_pos

theorem halt (h : m.Wound) (hcancelled : m.cancelled m.run = true) : m.halt.Wound :=
  @halt_of m m.untilBlink h hcancelled

theorem ticking (h : m.Wound) : m.Ticking :=
  ⟨fun _ => h, h.halt⟩

/-- The art and the terminal do not matter for being `Wound`. -/
theorem withPlace (h : m.Wound) (terminal : Terminal) (stream : ByteStream) :
    Wound { m with terminal, stream } :=
  { h with }

/-- No more chunks are taken, and nobody need be `waiting` for them: the clockwork stays `Wound`. -/
theorem stopChunks (h : m.Wound) (waiting : Option Callback) (completed : List Nat) :
    Wound { m with chunkActive := false, waiting, completed } :=
  { h with
    blinks := fun hactive => nomatch hactive
    untilChunk_pos := fun hactive => nomatch hactive
    untilChunk_le := fun hactive => nomatch hactive }

theorem finish (h : m.Wound) : m.finish.Wound := by
  unfold Clockwork.finish
  split
  · exact h.stopChunks m.waiting m.completed
  · next callback _ =>
    dsimp only
    split
    · exact (h.stopChunks none (callback.id :: m.completed)).cancel m.run
    · exact h.stopChunks none (callback.id :: m.completed)

theorem stepChunk (h : m.Wound) : m.stepChunk.2.Wound := by
  unfold Clockwork.stepChunk
  dsimp only
  split
  · exact (h.withPlace _ _).finish
  · exact h.withPlace _ _

theorem mergeBlink (h : m.Wound) : m.mergeBlink.Wound :=
  h.withPlace _ _

theorem frame (h : m.Wound) : m.frame.2.Wound :=
  h.withPlace _ _

theorem load (h : m.Wound) (file : Bytes) : (m.load file).Wound :=
  (h.stopChunks none m.completed).withPlace m.terminal (.ofFile file)

theorem stop (h : m.Wound) : m.stop.Wound := by
  unfold Clockwork.stop
  split
  · exact h
  · exact (h.cancel m.run).halt (m.cancelled_cancel_self m.run)

theorem renderAll (h : m.Wound) : m.renderAll.2.Wound :=
  ((h.cancel m.run).halt (m.cancelled_cancel_self m.run)).withPlace _ _

/-- With a new run by `play` the one before it is cancelled, as all others are already. -/
theorem play (h : m.Wound) (baud : Option Nat) (waiting : Option Callback) (reset : Bool) :
    (m.play baud waiting reset).Wound := by
  refine stepChunk ?_
  exact {
    blinks := fun _ => rfl
    cancelled_of_still := fun hstill => nomatch hstill
    untilChunk_pos := fun _ => chunkPeriod_pos
    untilChunk_le := fun _ => Nat.le_refl _
    untilBlink_pos := fun _ => blinkPeriod_pos
    untilBlink_le := fun _ => Nat.le_refl _
    earlier := fun run hrun => by
      -- the run before is cancelled by this very act, and those before it were so already
      have hcancelled : (m.cancel m.run).cancelled run = true := by
        rcases Nat.lt_or_eq_of_le (Nat.le_of_lt_succ hrun) with hearlier | hlast
        · exact cancelled_cancel (h.earlier run hearlier) m.run
        · rw [hlast]
          exact m.cancelled_cancel_self m.run
      exact (Function.update_of_ne (Nat.ne_of_lt hrun) false _).trans hcancelled
    chunk_pos := chunkSize_pos _ }

/-- While both clocks have some time left, they run down, which leaves the clockwork `Wound`. -/
theorem wait (h : m.Wound) {time : Nat} (hchunk : m.chunkActive = true → time < m.untilChunk)
    (hblink : m.blinkActive = true → time < m.untilBlink) : (m.wait time).Wound :=
  { h with
    untilChunk_pos := fun hactive => Nat.sub_pos_of_lt (hchunk hactive)
    untilChunk_le := fun hactive => Nat.le_trans (Nat.sub_le _ _) (h.untilChunk_le hactive)
    untilBlink_pos := fun hactive => Nat.sub_pos_of_lt (hblink hactive)
    untilBlink_le := fun hactive => Nat.le_trans (Nat.sub_le _ _) (h.untilBlink_le hactive) }

end Wound

/-! ### The player that a clockwork is -/

/-- The `Ticker` that is a flag and a number. Without any time left it does not run, whatever the
    flag says. -/
def clock (active : Bool) (left : Nat) : Ticker :=
  if h : active = true ∧ 0 < left then .running left h.2 else .stopped left

theorem clock_true {left : Nat} (pos : 0 < left) : clock true left = .running left pos :=
  dif_pos ⟨rfl, pos⟩

@[simp] theorem clock_false (left : Nat) : clock false left = .stopped left :=
  dif_neg fun h => Bool.false_ne_true h.1

@[simp] theorem clock_zero (active : Bool) : clock active 0 = .stopped 0 :=
  dif_neg fun h => Nat.lt_irrefl 0 h.2

@[simp] theorem stop_clock (active : Bool) (left : Nat) :
    (clock active left).stop = .stopped left := by
  unfold clock
  split <;> rfl

/-- A `clock` that is not due runs down. -/
theorem after_clock {active : Bool} {left time : Nat} (h : active = true → time < left)
    {period : Nat} (pos : 0 < period) :
    (clock active left).after time period pos = clock active (left - time) := by
  cases active with
  | false =>
    rw [clock_false, clock_false]
    rfl
  | true =>
    have hlt := h rfl
    rw [clock_true (Nat.lt_of_le_of_lt (Nat.zero_le time) hlt), clock_true (Nat.sub_pos_of_lt hlt)]
    exact dif_pos hlt

/-- A `clock` is due when it is active and has run down. -/
theorem isDue_clock {active : Bool} {left : Nat} (h : active = true → 0 < left) (time : Nat) :
    (clock active left).isDue time = (active && decide (left - time = 0)) := by
  cases active with
  | false =>
    rw [clock_false]
    rfl
  | true =>
    rw [clock_true (h rfl), Bool.true_and]
    show decide (left ≤ time) = _
    rw [decide_eq_decide, Nat.sub_eq_zero_iff_le]

theorem isRunning_clock {active : Bool} {left : Nat} (h : active = true → 0 < left) :
    (clock active left).isRunning = active := by
  cases active with
  | false => rfl
  | true =>
    rw [clock_true (h rfl)]
    rfl

theorem eq_of_clock_eq_running {active : Bool} {left left' : Nat} {pos : 0 < left'}
    (h : clock active left = .running left' pos) : active = true ∧ left' = left := by
  unfold clock at h
  split at h
  · next hactive => exact ⟨hactive.1, (Ticker.running.inj h).symm⟩
  · cases h

/-- The `Player` that a clockwork is, each of its tickers being the `clock` of a flag and a
    number. -/
def player (m : Clockwork) : Player where
  config := m.config
  stream := m.stream
  terminal := m.terminal
  run := m.run
  cancelled := m.cancelled m.run
  baud := m.baud
  chunk := m.chunk
  chunkTicker := clock m.chunkActive m.untilChunk
  blinkTicker := clock m.blinkActive m.untilBlink
  waiting := m.waiting
  completed := m.completed

theorem player_new (file : Bytes) (config : Config) :
    (new file config).player = .new file config := by
  simp [player, new, Player.new]

theorem player_halt (m : Clockwork) : m.halt.player = m.player.halt := by
  simp [player, halt, Player.halt]

/-- Only the flag of the current run matters to a player, so both do the same with a `cancel`. -/
theorem player_cancel (m : Clockwork) (run : Nat) :
    (m.cancel run).player = m.player.cancel run := by
  unfold Player.cancel
  by_cases hrun : run = m.run
  · have hplayer : run = m.player.run := hrun
    rw [if_pos hplayer, hrun]
    simp only [player, cancel, Function.update_self]
  · have hplayer : ¬ run = m.player.run := hrun
    rw [if_neg hplayer]
    simp only [player, cancel, Function.update_of_ne (Ne.symm hrun)]

theorem player_finish (m : Clockwork) : m.finish.player = m.player.finish := by
  unfold finish Player.finish
  have hwaiting : m.player.waiting = m.waiting := rfl
  rw [hwaiting]
  cases m.waiting with
  | none => simp [player]
  | some callback =>
    cases hcancels : callback.cancels with
    | true => simp [player, cancel, hcancels]
    | false => simp [player, hcancels]

theorem player_stepChunk (m : Clockwork) : m.stepChunk.2.player = m.player.stepChunk.2 := by
  unfold stepChunk Player.stepChunk
  dsimp only
  have hread : m.player.terminal.read m.player.stream m.player.chunk
      = m.terminal.read m.stream m.chunk := rfl
  rw [hread]
  split
  · exact player_finish _
  · rfl

theorem player_stop (m : Clockwork) : m.stop.player = m.player.stop := by
  unfold stop
  split
  · next hstopped =>
    -- nothing is left to stop
    simp only [Bool.and_eq_true, Bool.not_eq_true'] at hstopped
    obtain ⟨⟨hchunk, hblink⟩, hcancelled⟩ := hstopped
    simp [player, Player.stop, Player.halt, Ticker.stop, hchunk, hblink, hcancelled]
  · simp [player, halt, cancel, Player.stop, Player.halt]

theorem player_play (m : Clockwork) (baud : Option Nat) (waiting : Option Callback)
    (reset : Bool) : (m.play baud waiting reset).player = m.player.play baud waiting reset := by
  unfold play Player.play
  dsimp only
  rw [player_stepChunk]
  congr 2
  simp only [player, Player.started, Function.update_self, clock_true chunkPeriod_pos,
    clock_true blinkPeriod_pos]
  rfl

theorem player_load (m : Clockwork) (file : Bytes) :
    (m.load file).player = m.player.load file := by
  simp [player, load, Player.load]

theorem player_renderAll (m : Clockwork) : m.renderAll.2.player = m.player.renderAll.2 := by
  simp [player, renderAll, halt, cancel, Player.renderAll, Player.stop, Player.halt]

/-! ### Rounds -/

/-- What stays of a clockwork when `stepChunk` takes a chunk: all but the fields named here. -/
theorem stepChunk_eq (m : Clockwork) :
    ∃ terminal stream cancelled chunkActive waiting completed,
      m.stepChunk.2
        = { m with terminal, stream, cancelled, chunkActive, waiting, completed } := by
  unfold stepChunk finish
  dsimp only
  split
  · split
    · exact ⟨_, _, m.cancelled, false, m.waiting, m.completed, rfl⟩
    · next callback _ =>
      split
      · exact ⟨_, _, _, false, none, callback.id :: m.completed, rfl⟩
      · exact ⟨_, _, m.cancelled, false, none, callback.id :: m.completed, rfl⟩
  · exact ⟨_, _, m.cancelled, m.chunkActive, m.waiting, m.completed, rfl⟩

/-- What `stepChunk` does has nothing to do with `untilBlink`. -/
theorem stepChunk_untilBlink (m : Clockwork) (untilBlink : Nat) :
    { m with untilBlink }.stepChunk.2 = { m.stepChunk.2 with untilBlink } := by
  unfold stepChunk finish cancel
  dsimp only
  split
  · split
    · rfl
    · split <;> rfl
  · rfl

/-- `fireChunk` does not touch the clock of the blink, nor does it begin a run. -/
theorem fireChunk_frame (m : Clockwork) :
    m.fireChunk.run = m.run ∧ m.fireChunk.blinkActive = m.blinkActive
      ∧ m.fireChunk.untilBlink = m.untilBlink := by
  unfold fireChunk
  split
  · obtain ⟨_, _, _, _, _, _, hstep⟩ := { m with untilChunk := chunkPeriod }.stepChunk_eq
    rw [hstep]
    exact ⟨rfl, rfl, rfl⟩
  · exact ⟨rfl, rfl, rfl⟩

namespace Wound

/-- In a run that goes on some clock fires next, after some time, and `Ticker.soonest` finds the
    same one for the player. -/
theorem exists_next (h : m.Wound) (hlive : m.cancelled m.run = false) :
    ∃ next : { time : Nat // 0 < time },
      m.next? = some next.1
      ∧ m.player.chunkTicker.soonest m.player.blinkTicker = some next
      ∧ m.blinkActive = true
      ∧ (m.chunkActive = true → next.1 ≤ m.untilChunk) ∧ next.1 ≤ m.untilBlink := by
  -- the run is not cancelled, so the blink goes on, and at least its clock can fire
  have hblink : m.blinkActive = true := by
    by_contra hstill
    have hcancelled := h.cancelled_of_still (Bool.eq_false_iff.mpr hstill)
    exact Bool.false_ne_true (hlive.symm.trans hcancelled)
  have hposBlink := h.untilBlink_pos hblink
  unfold next? player
  rw [hblink, clock_true hposBlink]
  -- the time to the next event is the lesser of the two where both clocks run
  cases hchunk : m.chunkActive with
  | false =>
    rw [clock_false]
    have hnot : false = true → m.untilBlink ≤ m.untilChunk := fun hactive => nomatch hactive
    exact ⟨⟨m.untilBlink, hposBlink⟩, rfl, rfl, rfl, hnot, Nat.le_refl _⟩
  | true =>
    have hposChunk := h.untilChunk_pos hchunk
    have hpos : 0 < min m.untilChunk m.untilBlink := Nat.lt_min.mpr ⟨hposChunk, hposBlink⟩
    rw [clock_true hposChunk]
    exact ⟨⟨min m.untilChunk m.untilBlink, hpos⟩, rfl, rfl, rfl, fun _ => Nat.min_le_left _ _,
      Nat.min_le_right _ _⟩

/-- What `fireChunk` leaves is `Wound`, but for the clock of the blink, which may have run down. -/
theorem fireChunk (h : m.Wound) (time : Nat) {untilBlink : Nat} (hpos : 0 < untilBlink)
    (hle : untilBlink ≤ blinkPeriod) :
    Wound { (m.wait time).fireChunk with untilBlink } := by
  unfold Clockwork.fireChunk
  split
  -- a chunk is due, and its clock is set again before the chunk is taken
  · rw [← stepChunk_untilBlink]
    refine stepChunk ?_
    exact { h with
      untilChunk_pos := fun _ => chunkPeriod_pos
      untilChunk_le := fun _ => Nat.le_refl _
      untilBlink_pos := fun _ => hpos
      untilBlink_le := fun _ => hle }
  · next hnot =>
    -- no chunk is due, so one that is to come has some time left
    have hleft : m.chunkActive = true → m.untilChunk - time ≠ 0 := by
      intro hactive hzero
      have hdue : ((m.wait time).chunkActive && (m.wait time).untilChunk = 0) = true := by
        show (m.chunkActive && decide (m.untilChunk - time = 0)) = true
        rw [hactive, decide_eq_true hzero]
        rfl
      exact hnot hdue
    exact { h with
      untilChunk_pos := fun hactive => Nat.pos_of_ne_zero (hleft hactive)
      untilChunk_le := fun hactive => Nat.le_trans (Nat.sub_le _ _) (h.untilChunk_le hactive)
      untilBlink_pos := fun _ => hpos
      untilBlink_le := fun _ => hle }

/-- What is due leaves the clockwork `Ticking`: where the chunk leads to a cancel the clock of the
    blink is not set again. -/
theorem fire (h : m.Wound) (hblink : m.blinkActive = true) (time : Nat) :
    (m.wait time).fireChunk.fireBlink.Ticking := by
  obtain ⟨_, hactive, hleft⟩ := (m.wait time).fireChunk_frame
  have hwound : ∀ untilBlink, 0 < untilBlink → untilBlink ≤ blinkPeriod →
      Wound { (m.wait time).fireChunk with untilBlink } := fun _ => h.fireChunk time
  have hle : (m.wait time).fireChunk.untilBlink ≤ blinkPeriod := by
    rw [hleft]
    exact Nat.le_trans (Nat.sub_le _ _) (h.untilBlink_le hblink)
  replace hactive : (m.wait time).fireChunk.blinkActive = true := hactive.trans hblink
  -- only these three facts about the clockwork after its chunk are needed from here on
  generalize (m.wait time).fireChunk = chunked at hactive hwound hle
  have hagain := hwound blinkPeriod blinkPeriod_pos (Nat.le_refl _)
  unfold fireBlink
  split
  -- the phase has been shown, and its clock begins again
  · exact hagain.mergeBlink.ticking
  · next hnot =>
    -- the phase is not shown, either since time is left or since the run has been cancelled
    refine ⟨fun hlive => ?_, fun hcancelled => halt_of hagain hcancelled⟩
    have hpos : chunked.untilBlink ≠ 0 := by
      intro hzero
      exact hnot (by rw [hactive, hlive, decide_eq_true hzero]; rfl)
    exact hwound chunked.untilBlink (Nat.pos_of_ne_zero hpos) hle

end Wound

/-- While both clocks have some time left, a clockwork waits as its `player` does. -/
theorem player_wait {time : Nat} (hchunk : m.chunkActive = true → time < m.untilChunk)
    (hblink : m.blinkActive = true → time < m.untilBlink) :
    (m.wait time).player = m.player.wait time := by
  simp only [player, wait, Player.wait, after_clock hchunk, after_clock hblink]

/-- In `fireChunk` the chunk is taken before the clock of the blink is looked at, which a player
    sets anew before. -/
theorem player_fireChunk (h : m.Wound) (time : Nat) :
    (if m.player.chunkTicker.isDue time then (m.player.wait time).stepChunk.2
      else m.player.wait time)
      = { (m.wait time).fireChunk.player with
          blinkTicker := m.player.blinkTicker.after time blinkPeriod blinkPeriod_pos } := by
  have hdue : m.player.chunkTicker.isDue time
      = (m.chunkActive && decide (m.untilChunk - time = 0)) :=
    isDue_clock h.untilChunk_pos time
  rw [hdue, fireChunk]
  show (if (m.chunkActive && decide (m.untilChunk - time = 0)) = true
      then (m.player.wait time).stepChunk.2 else m.player.wait time)
    = { (if (m.chunkActive && decide (m.untilChunk - time = 0)) = true
          then { m.wait time with untilChunk := chunkPeriod }.stepChunk.2
          else m.wait time).player with
        blinkTicker := m.player.blinkTicker.after time blinkPeriod blinkPeriod_pos }
  split
  · next hnow =>
    -- the player has set both clocks anew, the clockwork that of the chunks
    obtain ⟨hactive, hzero⟩ := Bool.and_eq_true_iff.mp hnow
    have hdown : ¬ time < m.untilChunk := by
      have := of_decide_eq_true hzero
      omega
    have hwait : m.player.wait time
        = { { m.wait time with untilChunk := chunkPeriod }.player with
            blinkTicker := m.player.blinkTicker.after time blinkPeriod blinkPeriod_pos } := by
      have hset : (clock m.chunkActive m.untilChunk).after time chunkPeriod chunkPeriod_pos
          = clock m.chunkActive chunkPeriod := by
        rw [hactive, clock_true (h.untilChunk_pos hactive), clock_true chunkPeriod_pos]
        exact dif_neg hdown
      simp only [player, wait, Player.wait, hset]
    rw [hwait, Player.stepChunk_blinkTicker, player_stepChunk]
  · next hnot =>
    have hlater : m.chunkActive = true → time < m.untilChunk := by
      intro hactive
      have hleft : m.untilChunk - time ≠ 0 := by
        intro hzero
        exact hnot (by rw [hactive, decide_eq_true hzero]; rfl)
      omega
    simp only [player, wait, Player.wait, after_clock hlater]

/-- In `fireBlink` the phase is shown when its clock has run down, unless the run has been
    cancelled. -/
theorem player_fireBlink (hblink : m.blinkActive = true) :
    m.fireBlink.player
      = if m.untilBlink = 0 then
          if m.player.cancelled then m.player
          else { m.player with
            blinkTicker := .started blinkPeriod blinkPeriod_pos }.mergeBlink
        else m.player := by
  unfold fireBlink
  rw [hblink, Bool.true_and]
  by_cases hzero : m.untilBlink = 0
  · rw [if_pos hzero, decide_eq_true hzero, Bool.true_and]
    cases hcancelled : m.cancelled m.run with
    | true =>
      have hplayer : m.player.cancelled = true := hcancelled
      rw [if_pos hplayer]
      rfl
    | false =>
      have hplayer : ¬ m.player.cancelled = true := Bool.eq_false_iff.mp hcancelled
      rw [if_neg hplayer, Ticker.started, ← clock_true blinkPeriod_pos, Bool.not_false, if_pos rfl]
      rfl
  · rw [if_neg hzero, decide_eq_false hzero]
    rfl

/-- What is due in a clockwork, the chunk and then the blink, is what `Player.tick` does. -/
theorem player_fire (h : m.Wound) (hblink : m.blinkActive = true) (time : Nat) :
    (m.wait time).fireChunk.fireBlink.player = m.player.tick time := by
  obtain ⟨_, hactive, huntil⟩ := (m.wait time).fireChunk_frame
  have hleft : (m.wait time).fireChunk.untilBlink = m.untilBlink - time := huntil
  have hpos := h.untilBlink_pos hblink
  have hclock : m.player.blinkTicker = .running m.untilBlink hpos := by
    rw [← clock_true, ← hblink]
    rfl
  have hchunked : (m.wait time).fireChunk.player.blinkTicker
      = clock true (m.untilBlink - time) := by
    show clock (m.wait time).fireChunk.blinkActive (m.wait time).fireChunk.untilBlink = _
    rw [hactive, hleft, ← hblink]
    rfl
  rw [Player.tick_eq, player_fireChunk h, player_fireBlink (hactive.trans hblink), hleft, hclock]
  generalize (m.wait time).fireChunk.player = chunked at hchunked ⊢
  dsimp only
  rcases Nat.lt_or_ge time m.untilBlink with hlater | hnow
  · -- the phase is still to come
    have hsome : ¬ m.untilBlink - time = 0 := by omega
    have hdue : (Ticker.running m.untilBlink hpos).isDue time = false :=
      decide_eq_false (Nat.not_le.mpr hlater)
    have hafter : (Ticker.running m.untilBlink hpos).after time blinkPeriod blinkPeriod_pos
        = chunked.blinkTicker := by
      rw [hchunked, ← clock_true, after_clock fun _ => hlater]
    rw [if_neg hsome, hdue, if_neg Bool.false_ne_true, hafter]
  · -- the phase is due; after a cancel it is not shown, and its clock stays at the end
    have hnone : m.untilBlink - time = 0 := Nat.sub_eq_zero_of_le hnow
    have hdue : (Ticker.running m.untilBlink hpos).isDue time = true := decide_eq_true hnow
    have hafter : (Ticker.running m.untilBlink hpos).after time blinkPeriod blinkPeriod_pos
        = .started blinkPeriod blinkPeriod_pos := dif_neg (Nat.not_lt.mpr hnow)
    rw [hnone, clock_zero] at hchunked
    rw [if_pos hnone, hdue, if_pos rfl, hafter, ← hchunked]

/-! ### Time that passes -/

/-- **A round ends or uses up time.** A clockwork that is `Ticking` either ends with the next
    `round`, between two acts and where `Player.advance` leads; or the round takes some of the time,
    and its player passes the rest of it alike. -/
theorem Ticking.round (h : m.Ticking) (time : Nat) :
    (∃ ended, m.round time = .inl ended ∧ ended.Wound ∧ ended.player = m.player.advance time)
    ∨ ∃ later left, m.round time = .inr (later, left) ∧ left < time ∧ later.Ticking
        ∧ later.player.advance left = m.player.advance time := by
  unfold Clockwork.round
  cases hlive : m.cancelled m.run with
  -- a cancelled run ends with this round, whatever time is left
  | true =>
    have hplayer : m.player.cancelled = true := hlive
    rw [if_pos rfl, Player.advance_of_cancelled hplayer, ← player_halt]
    exact .inl ⟨m.halt, rfl, h.wound_halt hlive, rfl⟩
  | false =>
    have hplayer : m.player.cancelled = false := hlive
    have hwound := h.wound hlive
    obtain ⟨next, hnext, hsoonest, hblink, hchunk, hle⟩ := hwound.exists_next hlive
    rw [if_neg Bool.false_ne_true, hnext]
    dsimp only
    rcases Nat.lt_or_ge time next.1 with hlt | hge
    · -- no clock fires within the time
      have hchunkLater : m.chunkActive = true → time < m.untilChunk := fun hactive =>
        Nat.lt_of_lt_of_le hlt (hchunk hactive)
      have hblinkLater : m.blinkActive = true → time < m.untilBlink := fun _ =>
        Nat.lt_of_lt_of_le hlt hle
      rw [if_pos hlt, Player.advance_of_lt hplayer hsoonest hlt,
        ← player_wait hchunkLater hblinkLater]
      exact .inl ⟨m.wait time, rfl, hwound.wait hchunkLater hblinkLater, rfl⟩
    -- the clock that fires takes its time, which is not zero, off what is left
    · have hless : time - next.1 < time := by
        have := next.2
        omega
      rw [if_neg (Nat.not_lt.mpr hge), Player.advance_of_le hplayer hsoonest hge,
        ← player_fire hwound hblink]
      exact .inr ⟨_, _, rfl, hless, hwound.fire hblink next.1, rfl⟩

/-- The round after this one begins with a clockwork that is `Ticking`, and with less time. -/
theorem Ticking.getRight?_round (h : m.Ticking) (time : Nat) :
    ∀ state ∈ (m.round time).getRight?, state.1.Ticking ∧ state.2 < time := by
  intro state hstate
  obtain ⟨ended, hround, _⟩ | ⟨later, left, hround, hless, hticking, _⟩ := h.round time
  · rw [hround] at hstate
    exact nomatch hstate
  · rw [hround] at hstate
    cases hstate
    exact ⟨hticking, hless⟩

/-- After any number of `rounds` a clockwork is still `Ticking`, by induction on the number. -/
theorem Ticking.rounds (h : m.Ticking) (time n : Nat) :
    ∀ state ∈ m.rounds time n, state.1.Ticking := by
  induction n with
  | zero =>
    rintro state ⟨⟩
    exact h
  | succ n ih =>
    intro state hstate
    obtain ⟨before, hbefore, hround⟩ := Option.bind_eq_some_iff.mp hstate
    exact ((ih before hbefore).getRight?_round before.2 state hround).1

/-- Every one of the `rounds` that does not end takes some of the time. -/
theorem Ticking.rounds_lt (h : m.Ticking) (time n : Nat) :
    ∀ state ∈ m.rounds time (n + 1), ∃ before ∈ m.rounds time n, state.2 < before.2 := by
  intro state hstate
  obtain ⟨before, hbefore, hround⟩ := Option.bind_eq_some_iff.mp hstate
  have hticking := h.rounds time n before hbefore
  exact ⟨before, hbefore, (hticking.getRight?_round before.2 state hround).2⟩

/-- So the rounds of `advance` end, with a `Wound` clockwork. -/
theorem Ticking.advance (h : m.Ticking) (time : Nat) :
    ∃ ended, m.advance time = some ended ∧ ended.Wound
      ∧ ended.player = m.player.advance time := by
  -- the time is what gets less from round to round
  induction time using Nat.strongRecOn generalizing m with
  | _ time ih =>
    rw [Clockwork.advance]
    obtain ⟨ended, hround, hwound, hplayer⟩ | ⟨later, left, hround, hless, hticking, hplayer⟩ :=
      h.round time
    · rw [hround]
      exact ⟨ended, rfl, hwound, hplayer⟩
    · obtain ⟨ended, hadvance, hwound, hended⟩ := ih left hless hticking
      rw [hround]
      exact ⟨ended, hadvance, hwound, hended.trans hplayer⟩

/-- Every `Act` comes to an end and leaves the clockwork `Wound`; `Player.act` does to its player
    what it does. -/
theorem Wound.act (h : m.Wound) (a : Player.Act) :
    ∃ later, m.act a = some later ∧ later.Wound ∧ later.player = m.player.act a := by
  cases a with
  | play baud waiting reset =>
    exact ⟨_, rfl, h.play baud waiting reset, player_play m baud waiting reset⟩
  | stop => exact ⟨_, rfl, h.stop, player_stop m⟩
  | load file => exact ⟨_, rfl, h.load file, player_load m file⟩
  | advance time => exact h.ticking.advance time
  | renderAll => exact ⟨_, rfl, h.renderAll, player_renderAll m⟩
  | stepChunk => exact ⟨_, rfl, h.stepChunk, player_stepChunk m⟩
  | mergeBlink => exact ⟨_, rfl, h.mergeBlink, rfl⟩
  | frame => exact ⟨_, rfl, h.frame, rfl⟩
  | snapshot => exact ⟨_, rfl, h, rfl⟩
  | cancel run => exact ⟨_, rfl, h.cancel run, player_cancel m run⟩

/-- One act after another comes to an end as well, by induction on the acts. -/
theorem Wound.foldlM_act (h : m.Wound) (acts : List Player.Act) :
    ∃ later, acts.foldlM Clockwork.act m = some later ∧ later.Wound
      ∧ later.player = acts.foldl Player.act m.player := by
  induction acts generalizing m with
  | nil => exact ⟨m, rfl, h, rfl⟩
  | cons a acts ih =>
    obtain ⟨next, hact, hwound, hplayer⟩ := h.act a
    obtain ⟨later, hlater, hlast, hsame⟩ := ih hwound
    refine ⟨later, ?_, hlast, ?_⟩
    · rw [List.foldlM_cons, hact]
      exact hlater
    · rw [List.foldl_cons, ← hplayer]
      exact hsame

/-- The player of a `Wound` clockwork keeps to the same. -/
theorem Wound.wound_player (h : m.Wound) : m.player.Wound where
  blinks hrunning := by
    have hchunk : m.chunkActive = true := (isRunning_clock h.untilChunk_pos).symm.trans hrunning
    exact (isRunning_clock h.untilBlink_pos).trans (h.blinks hchunk)
  cancelled_of_still hstill :=
    h.cancelled_of_still ((isRunning_clock h.untilBlink_pos).symm.trans hstill)
  chunk_le left pos hrunning := by
    obtain ⟨hactive, hleft⟩ := eq_of_clock_eq_running hrunning
    rw [hleft]
    exact h.untilChunk_le hactive
  blink_le left pos hrunning := by
    obtain ⟨hactive, hleft⟩ := eq_of_clock_eq_running hrunning
    rw [hleft]
    exact h.untilBlink_le hactive
  chunk_pos := h.chunk_pos

/-- The flags of a `Wound` clockwork say which runs of its player have been cancelled. -/
theorem Wound.cancelled_eq (h : m.Wound) {run : Nat} (hrun : run ≤ m.run) :
    m.cancelled run = m.player.isCancelled run := by
  rcases Nat.lt_or_eq_of_le hrun with hearlier | hcurrent
  · have hne : run ≠ m.player.run := Nat.ne_of_lt hearlier
    rw [h.earlier run hearlier, Player.isCancelled, decide_eq_true hne]
    rfl
  · have heq : ¬ run ≠ m.player.run := not_not_intro hcurrent
    rw [hcurrent, Player.isCancelled, decide_eq_false (hcurrent ▸ heq)]
    rfl

/-- **Every act comes to an end.** Let any acts be done to a fresh clockwork, with any run cancelled
    at any time. It is `Wound` after that: chunks are taken only while the blink goes on, the blink
    stops only with a cancel, an active clock has some time left and not more than its period, all
    runs but the current one have been cancelled, and a chunk has a byte or more. It is the `player`
    to whom the same has been done by `Player.act`, of which all this is true as well. And however
    much time passes then, its `rounds` come to an end, as every round but the last takes some of
    the time. -/
theorem wound_of_acts (file : Bytes) (config : Config) (acts : List Player.Act) :
    ∃ m, acts.foldlM Clockwork.act (new file config) = some m
      ∧ m.Wound
      ∧ m.player = acts.foldl Player.act (.new file config)
      ∧ m.player.Wound
      ∧ (∀ run ≤ m.run, m.cancelled run = m.player.isCancelled run)
      ∧ ∀ time,
          (∃ later, m.advance time = some later ∧ later.player = m.player.advance time)
          ∧ ∀ n, ∀ state ∈ m.rounds time (n + 1), ∃ before ∈ m.rounds time n,
              state.2 < before.2 := by
  obtain ⟨m, hacts, hwound, hplayer⟩ := (wound_new file config).foldlM_act acts
  rw [player_new] at hplayer
  refine ⟨m, hacts, hwound, hplayer, hwound.wound_player, fun run hrun => hwound.cancelled_eq hrun,
    fun time => ?_⟩
  obtain ⟨later, hadvance, _, hlater⟩ := hwound.ticking.advance time
  exact ⟨⟨later, hadvance, hlater⟩, hwound.ticking.rounds_lt time⟩

end Clockwork

end TextArt
