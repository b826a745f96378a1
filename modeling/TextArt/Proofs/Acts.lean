import TextArt.Player

namespace TextArt

/-!
# Acts — what can be done to a player

* `Ticker.soonest_le`, `Ticker.isDue_eq_false` and their like — which of two clocks fires
  next, and when;
* `Player.Act`, `Player.act` — all that can be done to a player from outside, one thing
  after another;
* `Player.finish_eq` — what the end of a run changes;
* `Player.advance_of_lt`, `Player.advance_of_le` and their like — the ways in which time
  passes;
* `Player.advance_preserves` — what waiting, ticking and halting preserve, the passing of
  time preserves; `Player.advance_keeps` is the case in which it does not matter how much time
  has passed;
* `Player.advance_related` — the same of two players that are related.
-/

/-! ### Clocks -/

namespace Ticker

/-- `Ticker.after` does not stop a running clock: `isRunning` stays as it is. -/
@[simp] theorem isRunning_after (time period : Nat) (pos : 0 < period) (clock : Ticker) :
    (clock.after time period pos).isRunning = clock.isRunning := by
  cases clock with
  | stopped left => rfl
  | running left hleft =>
    unfold after
    dsimp only
    split <;> rfl

/-- Where the second of two clocks runs, one of them fires next, so `Ticker.soonest` finds a
    time. -/
theorem soonest_ne_none {clock clock' : Ticker} (h : clock'.isRunning = true) :
    clock.soonest clock' ≠ none := by
  cases clock' with
  | stopped left => exact absurd h Bool.false_ne_true
  | running left pos => cases clock <;> exact Option.some_ne_none _

/-- A clock that is `running left` is not passed over: `soonest` is at most `left`. -/
theorem soonest_le {left : Nat} {pos : 0 < left} {clock : Ticker}
    {next : { time : Nat // 0 < time }}
    (h : (running left pos).soonest clock = some next) : next.1 ≤ left := by
  cases clock with
  | stopped left' =>
    cases h
    exact Nat.le_refl _
  | running left' pos' =>
    cases h
    exact Nat.min_le_left _ _

theorem soonest_comm (clock clock' : Ticker) : clock.soonest clock' = clock'.soonest clock := by
  cases clock <;> cases clock' <;> simp [soonest, Nat.min_comm]

/-- Before the time that `Ticker.soonest` gives, the first of the two clocks is not due. -/
theorem isDue_eq_false {clock clock' : Ticker} {next : { time : Nat // 0 < time }}
    (h : clock.soonest clock' = some next) {time : Nat} (hlt : time < next.1) :
    clock.isDue time = false := by
  cases clock with
  | stopped left => rfl
  | running left pos => exact decide_eq_false (Nat.not_le.2 (Nat.lt_of_lt_of_le hlt (soonest_le h)))

end Ticker

namespace Player

/-! ### Acts -/

/-- Something done to a `Player`. -/
inductive Act where
  | play (baud : Option Nat) (waiting : Option Callback) (reset : Bool)
  | stop
  | load (file : Bytes)
  /-- Some nanoseconds pass: `Player.advance`. -/
  | advance (time : Nat)
  | renderAll
  | stepChunk
  | mergeBlink
  | frame
  | snapshot
  /-- The run of a number is cancelled: `Player.cancel`. -/
  | cancel (run : Nat)
  deriving DecidableEq, Repr

/-- What a player becomes by an `Act`. What it answers is left out, as nobody's answer changes
    it. -/
def act (p : Player) : Act → Player
  | .play baud waiting reset => p.play baud waiting reset
  | .stop => p.stop
  | .load file => p.load file
  | .advance time => p.advance time
  | .renderAll => p.renderAll.2
  | .stepChunk => p.stepChunk.2
  | .mergeBlink => p.mergeBlink
  | .frame => p.frame.2
  | .snapshot => p
  | .cancel run => p.cancel run

namespace Act

/-- The time that passes in an act, which is none but for `Act.advance`. -/
def time : Act → Nat
  | advance time => time
  | _ => 0

/-- The time that passes in several acts: the sum of their `Act.time`. -/
def duration : List Act → Nat
  | [] => 0
  | a :: acts => a.time + duration acts

/-- Whether an `Act` lets a run go on to its end: time passes, chunks are taken, the blink changes
    its phase, or the picture is looked at. -/
def letsPlay : Act → Bool
  | advance _ | stepChunk | mergeBlink | frame | snapshot => true
  | _ => false

end Act

/-! ### Chunks -/

/-- The `Reading` after the chunk that a player takes next. -/
def nextChunk (p : Player) : Reading :=
  p.terminal.read p.stream p.chunk

/-- What `finish` does at the end of a run: the `chunkTicker` stops; whoever waits is called back,
    waits no more, and may cancel the run. -/
theorem finish_eq (p : Player) :
    p.finish =
      { p with
        chunkTicker := p.chunkTicker.stop
        waiting := none
        completed := (p.waiting.map Callback.id).toList ++ p.completed
        cancelled := p.cancelled || p.waiting.any Callback.cancels } := by
  obtain ⟨config, stream, terminal, run, cancelled, baud, chunk, chunkTicker, blinkTicker,
    waiting, completed⟩ := p
  cases waiting with
  | none => simp [finish]
  | some callback => rfl

/-- After `stepChunk` the terminal is where `nextChunk` has left it. -/
@[simp] theorem terminal_stepChunk (p : Player) :
    p.stepChunk.2.terminal = p.nextChunk.terminal := by
  unfold stepChunk
  dsimp only
  rw [finish_eq]
  split <;> rfl

/-! ### The passing of time -/

/-- Let some time pass in which neither `chunkTicker` nor `blinkTicker` fires. -/
def wait (p : Player) (time : Nat) : Player :=
  { p with
    chunkTicker := p.chunkTicker.after time chunkPeriod chunkPeriod_pos
    blinkTicker := p.blinkTicker.after time blinkPeriod blinkPeriod_pos }

/-- A `tick` is a wait, then the chunk and then the phase that are due. -/
theorem tick_eq (p : Player) (time : Nat) :
    p.tick time =
      let chunked :=
        if p.chunkTicker.isDue time then (p.wait time).stepChunk.2 else p.wait time
      if p.blinkTicker.isDue time then
        if chunked.cancelled then { chunked with blinkTicker := .stopped 0 }
        else chunked.mergeBlink
      else chunked := rfl

/-- The player after some time and the chunk that is due then, if `chunkTicker` is. -/
def chunked (p : Player) (time : Nat) : Player :=
  if p.chunkTicker.isDue time then (p.wait time).stepChunk.2 else p.wait time

/-- A `tick` is a `chunked` player, in which only the blink is still to be looked after. -/
theorem tick_eq_chunked (p : Player) (time : Nat) :
    p.tick time =
      if p.blinkTicker.isDue time then
        if (p.chunked time).cancelled then { p.chunked time with blinkTicker := .stopped 0 }
        else (p.chunked time).mergeBlink
      else p.chunked time := rfl

variable {p : Player} {time : Nat}

theorem advance_of_cancelled (h : p.cancelled = true) : p.advance time = p.halt := by
  rw [advance, if_pos h]

theorem advance_of_none (h : p.cancelled = false)
    (hnext : p.chunkTicker.soonest p.blinkTicker = none) : p.advance time = p := by
  rw [advance, if_neg (Bool.eq_false_iff.1 h), hnext]

theorem advance_of_lt (h : p.cancelled = false) {next : { time : Nat // 0 < time }}
    (hnext : p.chunkTicker.soonest p.blinkTicker = some next) (hlt : time < next.1) :
    p.advance time = p.wait time := by
  rw [advance, if_neg (Bool.eq_false_iff.1 h), hnext]
  exact if_pos hlt

theorem advance_of_le (h : p.cancelled = false) {next : { time : Nat // 0 < time }}
    (hnext : p.chunkTicker.soonest p.blinkTicker = some next) (hle : next.1 ≤ time) :
    p.advance time = (p.tick next.1).advance (time - next.1) := by
  rw [advance, if_neg (Bool.eq_false_iff.1 h), hnext]
  exact if_neg (Nat.not_lt.2 hle)

/-- **Time passes in waits and ticks.** Whatever is true of a player some time after a moment, and
    stays so when it waits, has a `tick`, halts or rests, is true of it after an `advance` by any
    more time. -/
theorem advance_preserves (holds : Nat → Player → Prop)
    (hhalt : ∀ elapsed p time, holds elapsed p → p.cancelled = true →
      holds (elapsed + time) p.halt)
    (hrest : ∀ elapsed p time, holds elapsed p → p.cancelled = false →
      p.chunkTicker.soonest p.blinkTicker = none → holds (elapsed + time) p)
    (hwait : ∀ elapsed p time next, holds elapsed p → p.cancelled = false →
      p.chunkTicker.soonest p.blinkTicker = some next → time < next.1 →
      holds (elapsed + time) (p.wait time))
    (htick : ∀ elapsed p next, holds elapsed p → p.cancelled = false →
      p.chunkTicker.soonest p.blinkTicker = some next → holds (elapsed + next.1) (p.tick next.1))
    {elapsed : Nat} (h : holds elapsed p) (time : Nat) :
    holds (elapsed + time) (p.advance time) := by
  -- every tick uses up some of the time
  induction time using Nat.strongRecOn generalizing elapsed p with
  | _ time ih =>
    cases hcancelled : p.cancelled with
    | true =>
      rw [advance_of_cancelled hcancelled]
      exact hhalt elapsed p time h hcancelled
    | false =>
      cases hnext : p.chunkTicker.soonest p.blinkTicker with
      | none =>
        rw [advance_of_none hcancelled hnext]
        exact hrest elapsed p time h hcancelled hnext
      | some next =>
        rcases Nat.lt_or_ge time next.1 with hlt | hle
        · rw [advance_of_lt hcancelled hnext hlt]
          exact hwait elapsed p time next h hcancelled hnext hlt
        · -- after the tick, the rest of the time
          have hticked := htick elapsed p next h hcancelled hnext
          have hless : time - next.1 < time := by
            have := next.2
            omega
          have hafter := ih (time - next.1) hless hticked
          rw [advance_of_le hcancelled hnext hle]
          rwa [Nat.add_assoc, Nat.add_sub_cancel' hle] at hafter

/-- Two players whose clocks agree go the same ways in `advance`, so they stay `related` if they do
    when both of them halt, wait or have a `tick`. -/
theorem advance_related {related : Player → Player → Prop}
    (hclocks : ∀ p q, related p q → p.cancelled = q.cancelled ∧ p.chunkTicker = q.chunkTicker
      ∧ p.blinkTicker = q.blinkTicker)
    (hhalt : ∀ p q, related p q → related p.halt q.halt)
    (hwait : ∀ p q time, related p q → related (p.wait time) (q.wait time))
    (htick : ∀ p q time, related p q → related (p.tick time) (q.tick time))
    {q : Player} (h : related p q) (time : Nat) : related (p.advance time) (q.advance time) := by
  -- every tick uses up some of the time
  induction time using Nat.strongRecOn generalizing p q with
  | _ time ih =>
    obtain ⟨hsame, hchunk, hblink⟩ := hclocks p q h
    cases hcancelled : p.cancelled with
    | true =>
      rw [advance_of_cancelled hcancelled, advance_of_cancelled (hsame ▸ hcancelled)]
      exact hhalt p q h
    | false =>
      have hlive : q.cancelled = false := hsame ▸ hcancelled
      have hsoonest : q.chunkTicker.soonest q.blinkTicker
          = p.chunkTicker.soonest p.blinkTicker := by
        rw [hchunk, hblink]
      cases hnext : p.chunkTicker.soonest p.blinkTicker with
      | none =>
        rw [advance_of_none hcancelled hnext, advance_of_none hlive (hsoonest.trans hnext)]
        exact h
      | some next =>
        rcases Nat.lt_or_ge time next.1 with hlt | hle
        · rw [advance_of_lt hcancelled hnext hlt, advance_of_lt hlive (hsoonest.trans hnext) hlt]
          exact hwait p q time h
        · have hless : time - next.1 < time := by
            have := next.2
            omega
          rw [advance_of_le hcancelled hnext hle, advance_of_le hlive (hsoonest.trans hnext) hle]
          exact ih (time - next.1) hless (htick p q next.1 h)

/-- What waits, chunks, phases and the stopping of clocks preserve, `advance` preserves. -/
theorem advance_keeps {holds : Player → Prop} (hhalt : ∀ q : Player, holds q → holds q.halt)
    (hwait : ∀ (q : Player) time, holds q → holds (q.wait time))
    (hchunk : ∀ q : Player, holds q → holds q.stepChunk.2)
    (hblink : ∀ q : Player, holds q → holds q.mergeBlink)
    (hstill : ∀ q : Player, holds q → holds { q with blinkTicker := .stopped 0 })
    (h : holds p) (time : Nat) : holds (p.advance time) := by
  refine @advance_preserves p (fun _ q => holds q) (fun _ q _ h _ => hhalt q h)
    (fun _ _ _ h _ _ => h) (fun _ q time _ h _ _ _ => hwait q time h) ?_ 0 h time
  intro _ q next h _ _
  have hchunked : holds (q.chunked next.1) := by
    unfold chunked
    split
    · exact hchunk _ (hwait q next.1 h)
    · exact hwait q next.1 h
  rw [tick_eq_chunked]
  split
  · split
    · exact hstill _ hchunked
    · exact hblink _ hchunked
  · exact hchunked

end Player

end TextArt
