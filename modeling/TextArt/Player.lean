import TextArt.Picture
import TextArt.Terminal

namespace TextArt

/-!
# Players — art drawn at the pace of a modem

A player lets a terminal take its bytes in chunks, one every ten milliseconds, while
the blink changes its phase every quarter of a second.  Time passes only when the
player is told so, and is counted in nanoseconds.

* `Ticker` — a clock that is stopped or has some time left until it fires;
* `Player.play`, `Player.stop`, `Player.load` — runs through the art; every run has a
  number, by which it can be cancelled;
* `Player.advance` — let time pass: the tickers fire in order, the chunk before the
  blink where both are due, until the time is used up;
* `Player.stepChunk` — one chunk; the first one that finds nothing left ends the run
  and calls back whoever waits for that.
-/

/-- The nanoseconds between two chunks of `chunkSize` bytes. -/
def chunkPeriod : Nat := 10 * 1000000

theorem chunkPeriod_pos : 0 < chunkPeriod := by decide

/-- The nanoseconds between two phases of the blink, which is twenty-five times `chunkPeriod`. -/
def blinkPeriod : Nat := 250 * 1000000

theorem blinkPeriod_pos : 0 < blinkPeriod := by decide

/-- The rate of a run that is given none, in bits per second; see `Player.started`. -/
def ordinaryBaud : Nat := 115200

/-- The bytes of a chunk at a rate: eight bits a byte and a hundred chunks a second, as
    `chunkPeriod` says, but always at least one byte. -/
def chunkSize (baud : Nat) : Nat :=
  max 1 (baud / 8 / 100)

theorem chunkSize_pos (baud : Nat) : 0 < chunkSize baud := by
  unfold chunkSize
  omega

/-! ### Tickers -/

/-- A clock that is `stopped` or will fire after some time.  A stopped clock runs down like any
    other, but it does not fire. -/
inductive Ticker where
  | stopped (left : Nat)
  | running (left : Nat) (pos : 0 < left)
  deriving DecidableEq

namespace Ticker

/-- A clock just started, which is `running` for a whole `period`. -/
def started (period : Nat) (pos : 0 < period) : Ticker :=
  running period pos

/-- Whether a clock is `running`. -/
def isRunning : Ticker → Bool
  | stopped _ => false
  | running .. => true

/-- A clock that does not fire any more, `stopped` with the time that it had left. -/
def stop : Ticker → Ticker
  | stopped left => stopped left
  | running left _ => stopped left

@[simp] theorem stop_stop (clock : Ticker) : clock.stop.stop = clock.stop := by
  cases clock <;> rfl

@[simp] theorem isRunning_stop (clock : Ticker) : clock.stop.isRunning = false := by
  cases clock <;> rfl

/-- Whether a clock fires within some `time`, which a `stopped` one does not. -/
def isDue (time : Nat) : Ticker → Bool
  | stopped _ => false
  | running left _ => left ≤ time

/-- A clock after some `time` in which it fires at most once; when it fires it starts anew, with all
    of its `period`. -/
def after (time period : Nat) (pos : 0 < period) : Ticker → Ticker
  | stopped left => stopped (left - time)
  | running left _ =>
    if h : time < left then running (left - time) (Nat.sub_pos_of_lt h) else running period pos

/-- The time until one of two clocks fires, if one of them is `running`. -/
def soonest : Ticker → Ticker → Option { time : Nat // 0 < time }
  | stopped _, stopped _ => none
  | stopped _, running left pos => some ⟨left, pos⟩
  | running left pos, stopped _ => some ⟨left, pos⟩
  | running left pos, running left' pos' => some ⟨min left left', by omega⟩

end Ticker

/-! ### Players -/

/-- Someone who waits for the end of a run, at which `finish` calls back.  Some of them cancel the
    run they are told the end of. -/
structure Callback where
  id : Nat
  cancels : Bool := false
  deriving DecidableEq, Repr

/-- Art in a `stream`, the `terminal` that draws it, and the pace. -/
structure Player where
  config : Config
  stream : ByteStream
  terminal : Terminal
  /-- The number of the current run, by which `cancel` knows it; there is none before the first. -/
  run : Nat
  /-- Whether the current run has been cancelled, which `advance` notices. -/
  cancelled : Bool
  /-- The rate of the current run in bits per second, from which `chunk` comes. -/
  baud : Nat
  /-- The bytes of a chunk, which are `chunkSize` at the rate `baud`. -/
  chunk : Nat
  chunkTicker : Ticker
  blinkTicker : Ticker
  /-- Who waits for the end of the current run; `finish` calls back. -/
  waiting : Option Callback
  /-- The callbacks that `finish` has made, the latest first. -/
  completed : List Nat

namespace Player

/-- A player at rest, with a screen of `Config.columnsFor` columns for the art of a file. -/
def new (file : Bytes) (config : Config) : Player :=
  let stream := ByteStream.ofFile file
  let columns := config.columnsFor (stream.record.bind Sauce.columns)
  { config, stream
    terminal := .new config columns config.rows columns config.rows
    run := 0
    cancelled := true
    baud := ordinaryBaud
    chunk := chunkSize ordinaryBaud
    chunkTicker := .stopped chunkPeriod
    blinkTicker := .stopped blinkPeriod
    waiting := none
    completed := [] }

/-- Whether bytes are still being taken: the `chunkTicker` runs, and the run is not `cancelled`. -/
def isPlaying (p : Player) : Bool :=
  p.chunkTicker.isRunning && !p.cancelled

/-- Whether the blink goes on: the `blinkTicker` runs, and the run is not `cancelled`. -/
def isBlinking (p : Player) : Bool :=
  p.blinkTicker.isRunning && !p.cancelled

/-- Whether the `run` of a number has been `cancelled`; starting a run cancels those before it. -/
def isCancelled (p : Player) (run : Nat) : Bool :=
  run ≠ p.run || p.cancelled

/-- Cancel the run of a number, which does nothing to any other `run`. -/
def cancel (p : Player) (run : Nat) : Player :=
  if run = p.run then { p with cancelled := true } else p

/-- Stop both tickers, by `Ticker.stop`. -/
def halt (p : Player) : Player :=
  { p with chunkTicker := p.chunkTicker.stop, blinkTicker := p.blinkTicker.stop }

/-- Cancel the current run and `halt`. -/
def stop (p : Player) : Player :=
  { p.halt with cancelled := true }

@[simp] theorem halt_halt (p : Player) : p.halt.halt = p.halt := by
  simp [halt]

@[simp] theorem stop_stop (p : Player) : p.stop.stop = p.stop := by
  simp [stop, halt]

/-! ### One tick -/

/-- End taking bytes, by `Ticker.stop`, and call back whoever is `waiting` for it. -/
def finish (p : Player) : Player :=
  match p.waiting with
  | none => { p with chunkTicker := p.chunkTicker.stop }
  | some callback =>
    { p with
      chunkTicker := p.chunkTicker.stop
      waiting := none
      completed := callback.id :: p.completed
      cancelled := p.cancelled || callback.cancels }

/-- Take a chunk with `Terminal.read`, and `finish` if there was nothing to take; also say how many
    bytes it had. -/
def stepChunk (p : Player) : Nat × Player :=
  let { terminal, stream, consumed, .. } := p.terminal.read p.stream p.chunk
  let p := { p with terminal, stream }
  (consumed, if consumed = 0 then p.finish else p)

/-- Let the blink show its next phase, by `Screen.merge`. -/
def mergeBlink (p : Player) : Player :=
  { p with terminal := { p.terminal with screen := p.terminal.screen.merge } }

/-- Let the tickers fire that are due after some `time` in which none fires twice.  Whoever is
    called back by `stepChunk` may cancel the run; then the phase that is due at the same moment is
    not shown, and its clock stays at the end of its time. -/
def tick (p : Player) (time : Nat) : Player :=
  -- both clocks are looked at before either is set anew
  let chunkDue := p.chunkTicker.isDue time
  let blinkDue := p.blinkTicker.isDue time
  let p :=
    { p with
      chunkTicker := p.chunkTicker.after time chunkPeriod chunkPeriod_pos
      blinkTicker := p.blinkTicker.after time blinkPeriod blinkPeriod_pos }
  let p := if chunkDue then p.stepChunk.2 else p
  if blinkDue then
    -- the callback of the chunk may have cancelled the run in this very tick
    if p.cancelled then { p with blinkTicker := .stopped 0 } else p.mergeBlink
  else p

/-- Let `time` pass, one `tick` after the other.  A cancelled run stops its tickers at the next
    tick. -/
def advance (p : Player) (time : Nat) : Player :=
  if p.cancelled then p.halt
  else match p.chunkTicker.soonest p.blinkTicker with
    | none => p
    | some ⟨next, _⟩ =>
      if time < next then
        { p with
          chunkTicker := p.chunkTicker.after time chunkPeriod chunkPeriod_pos
          blinkTicker := p.blinkTicker.after time blinkPeriod blinkPeriod_pos }
      else (p.tick next).advance (time - next)
termination_by time

/-! ### Runs -/

/-- A run that is started, from the beginning of the art if `reset` says so, before its first
    chunk. -/
def started (p : Player) (baud : Option Nat) (waiting : Option Callback) (reset : Bool) :
    Player :=
  let baud := baud.getD ordinaryBaud
  let terminal := if reset then p.terminal.reset else p.terminal.resetPen
  { p with
    terminal := { terminal with screen := terminal.screen.restartBlink }
    -- every run takes the art from its beginning, with a reset or without
    stream := p.stream.seek 0
    run := p.run + 1
    cancelled := false
    baud
    chunk := chunkSize baud
    chunkTicker := .started chunkPeriod chunkPeriod_pos
    blinkTicker := .started blinkPeriod blinkPeriod_pos
    waiting }

/-- Start a run, as `started` does, and take its first chunk at once. -/
def play (p : Player) (baud : Option Nat) (waiting : Option Callback) (reset : Bool) : Player :=
  (p.started baud waiting reset).stepChunk.2

/-- Take up the art of another file.  No more bytes are taken until the next `play`, and nobody is
    `waiting` any more; the screen stays as it is. -/
def load (p : Player) (file : Bytes) : Player :=
  { p with chunkTicker := p.chunkTicker.stop, waiting := none, stream := .ofFile file }

/-- Draw all of the art at once, by `Terminal.readToEnd`, without pace; also say how many bytes it
    had. -/
def renderAll (p : Player) : Nat × Player :=
  let p := p.stop
  let { terminal, stream, consumed, .. } := p.terminal.reset.readToEnd (p.stream.seek 0)
  (consumed, { p with terminal, stream })

/-! ### What is to be seen -/

/-- The picture with the shown phase of the blink, by `Screen.frame`. -/
def frame (p : Player) : Raster × Player :=
  let (picture, screen) := p.terminal.screen.frame
  (picture, { p with terminal := { p.terminal with screen } })

/-- The picture without blinking, of what is `visible`. -/
def snapshot (p : Player) : Picture :=
  .ofRaster p.terminal.screen.visible p.config.doubleDensity

/-- A run that was cancelled stays as it is when `cancel` is repeated. -/
@[simp] theorem cancel_cancel (p : Player) (run : Nat) :
    (p.cancel run).cancel run = p.cancel run := by
  by_cases h : run = p.run <;> simp [cancel, h]

end Player

end TextArt
