import TextArt.Proofs.Acts
import TextArt.Proofs.Retouches

namespace TextArt

/-!
# Replay — a paced run ends with the still picture

A run takes a chunk at once and one every ten milliseconds, and every chunk takes a byte
or more.  So after ten milliseconds for every byte nothing can be left, and the chunk
that finds nothing ends the run.  The blink goes on all the time, but it does not reach
the picture.

* `Place.Takes.settled` — bytes lead to the same place whatever the blink shows;
* `Player.Replays` — how far a run has come: the bytes that it has taken keep up with the
  time, or it has ended;
* `Player.Replays.stepChunk`, `Player.Replays.tick`, `Player.Replays.advance`,
  `Player.Replays.act` — nothing that lets the run go on breaks this;
* `Player.Replays.isOver` — so a run ends; and where it ends there is the picture that drawing
  all at once makes.
-/

/-! ### The blink does not matter -/

namespace Screen

variable (s : Screen)

@[simp] theorem restartBlink_merge : s.merge.restartBlink = s.restartBlink := rfl

@[simp] theorem restartBlink_frame : s.frame.2.restartBlink = s.restartBlink := by
  unfold frame
  split <;> rfl

end Screen

namespace Terminal

/-- The `Terminal` with the blink started anew by `restartBlink`. -/
def settled (t : Terminal) : Terminal :=
  { t with screen := t.screen.restartBlink }

variable (t : Terminal)

/-- To `feed` a byte does the same whatever the blink shows. -/
theorem feed_settled (b : UInt8) (next : Option UInt8) :
    t.settled.feed b next = (t.feed b next).settled :=
  t.feed_retouch .restart b next

end Terminal

namespace Place

/-- The `Place` with the blink started anew. -/
def settled (p : Place) : Place :=
  { p with terminal := p.terminal.settled }

theorem next_settled (p : Place) : p.settled.next = p.next.settled := by
  obtain ⟨t, ⟨art, rest, record, hsuffix⟩⟩ := p
  cases rest with
  | nil => rfl
  | cons b rest =>
    show Place.mk (t.settled.feed b rest.head?) _ = Place.mk (t.feed b rest.head?).settled _
    rw [Terminal.feed_settled]
    rfl

/-- Bytes lead to the same place whatever the blink shows, so `Takes` goes over to `settled`
    places. -/
theorem Takes.settled {p q : Place} {n : Nat} (h : Takes n p q) :
    Takes n p.settled q.settled := by
  induction h with
  | refl p => exact .refl _
  | head hne _ ih =>
    refine .head hne ?_
    rw [next_settled]
    exact ih

end Place

/-! ### Taking a chunk -/

namespace Player

variable {p : Player}

/-- Where nothing is left, `stepChunk` ends the run as `finish` does. -/
theorem stepChunk_of_rest_eq_nil (h : p.stream.rest = []) : p.stepChunk.2 = p.finish := by
  have hlength := p.terminal.length_rest_read p.stream p.chunk
  have hzero : (p.terminal.read p.stream p.chunk).consumed = 0 := by
    rw [h, List.length_nil] at hlength
    omega
  have hplace := p.terminal.place_read_of_consumed_eq_zero p.stream hzero
  have hterminal : (p.terminal.read p.stream p.chunk).terminal = p.terminal :=
    congrArg Place.terminal hplace
  have hstream : (p.terminal.read p.stream p.chunk).stream = p.stream :=
    congrArg Place.stream hplace
  unfold stepChunk
  dsimp only
  rw [if_pos hzero, hterminal, hstream]

/-- Where something is left, `stepChunk` takes a byte or more and nothing else happens. -/
theorem stepChunk_of_rest_ne_nil (hchunk : 1 ≤ p.chunk) (h : p.stream.rest ≠ []) :
    ∃ k terminal stream, 1 ≤ k ∧ p.stepChunk.2 = { p with terminal, stream }
      ∧ Place.Takes k ⟨p.terminal, p.stream⟩ ⟨terminal, stream⟩ := by
  have hsome : (p.terminal.read p.stream p.chunk).consumed ≠ 0 := by
    rw [Ne, p.terminal.consumed_read_eq_zero_iff p.stream hchunk]
    exact h
  refine ⟨_, _, _, Nat.one_le_iff_ne_zero.2 hsome, ?_, p.terminal.takes_read p.stream p.chunk⟩
  unfold stepChunk
  dsimp only
  rw [if_neg hsome]

/-! ### The course of a run -/

/-- Where a player is, whatever the blink shows. -/
def place (p : Player) : Place :=
  Place.settled ⟨p.terminal, p.stream⟩

/-- A run that goes on some time after its beginning: the next chunk comes before the time `limit`
    is over, and nobody has been called back. -/
structure GoesOn (waiting : Option Callback) (elapsed limit : Nat) (p : Player) : Prop where
  due : ∃ left pos, p.chunkTicker = .running left pos ∧ elapsed + left ≤ limit
  waiting_eq : p.waiting = waiting
  completed_eq : p.completed = []

/-- A run that is over: all bytes are taken, and who was `waiting` for that has been called back. -/
structure IsOver (waiting : Option Callback) (p : Player) : Prop where
  chunkTicker_eq : p.chunkTicker.isRunning = false
  rest_eq : p.stream.rest = []
  waiting_eq : p.waiting = none
  completed_eq : p.completed = waiting.toList.map Callback.id

/-- How far a run has come that began at the place `start` some time ago. Ten milliseconds for every
    byte that it has taken, and for those that are still `owed`, are not over before the next
    chunk. -/
structure Replays (start : Place) (waiting : Option Callback) (elapsed owed : Nat)
    (p : Player) : Prop where
  chunk_pos : 1 ≤ p.chunk
  uncancelled : p.cancelled = false
  blinks : p.blinkTicker.isRunning = true
  course : ∃ taken, Place.Takes taken start p.place
    ∧ (p.GoesOn waiting elapsed (chunkPeriod * (taken + owed)) ∨ p.IsOver waiting)

namespace Replays

variable {start : Place} {waiting : Option Callback} {elapsed owed : Nat}

/-- More bytes may be `owed` than are. -/
theorem owe (h : p.Replays start waiting elapsed 0) (owed : Nat) :
    p.Replays start waiting elapsed owed := by
  obtain ⟨taken, htakes, hgoes | hover⟩ := h.course
  · obtain ⟨left, pos, hticker, hlimit⟩ := hgoes.due
    have hmore : chunkPeriod * (taken + 0) ≤ chunkPeriod * (taken + owed) :=
      Nat.mul_le_mul_left _ (Nat.add_le_add_left (Nat.zero_le _) _)
    exact ⟨h.chunk_pos, h.uncancelled, h.blinks, taken, htakes,
      .inl ⟨⟨left, pos, hticker, hlimit.trans hmore⟩, hgoes.waiting_eq, hgoes.completed_eq⟩⟩
  · exact ⟨h.chunk_pos, h.uncancelled, h.blinks, taken, htakes, .inr hover⟩

/-- A chunk that finds nothing ends the run, which then `IsOver`. -/
theorem finish (h : p.Replays start waiting elapsed owed)
    (hwaiting : ∀ callback ∈ waiting, callback.cancels = false) (hrest : p.stream.rest = []) :
    p.finish.Replays start waiting elapsed 0 := by
  obtain ⟨taken, htakes, hgoes | hover⟩ := h.course
  · -- the first chunk that finds nothing calls back
    unfold Player.finish
    rw [hgoes.waiting_eq]
    cases waiting with
    | none =>
      exact ⟨h.chunk_pos, h.uncancelled, h.blinks, taken, htakes,
        .inr ⟨Ticker.isRunning_stop _, hrest, rfl, hgoes.completed_eq⟩⟩
    | some callback =>
      have hcancelled : (p.cancelled || callback.cancels) = false := by
        rw [h.uncancelled, hwaiting callback rfl]
        rfl
      exact ⟨h.chunk_pos, hcancelled, h.blinks, taken, htakes,
        .inr ⟨Ticker.isRunning_stop _, hrest, rfl,
          congrArg (callback.id :: ·) hgoes.completed_eq⟩⟩
  · -- the later ones find nobody who waits
    unfold Player.finish
    rw [hover.waiting_eq]
    exact ⟨h.chunk_pos, h.uncancelled, h.blinks, taken, htakes,
      .inr ⟨Ticker.isRunning_stop _, hrest, rfl, hover.completed_eq⟩⟩

/-- A chunk pays for a byte that is `owed`, as it takes one or more. -/
theorem stepChunk (h : p.Replays start waiting elapsed 1)
    (hwaiting : ∀ callback ∈ waiting, callback.cancels = false) :
    p.stepChunk.2.Replays start waiting elapsed 0 := by
  by_cases hrest : p.stream.rest = []
  · rw [stepChunk_of_rest_eq_nil hrest]
    exact h.finish hwaiting hrest
  · obtain ⟨k, terminal, stream, hk, hstep, hchunk⟩ :=
      stepChunk_of_rest_ne_nil h.chunk_pos hrest
    obtain ⟨taken, htakes, hgoes | hover⟩ := h.course
    · -- one byte or more has been taken, which pays for the one that is owed
      obtain ⟨left, pos, hticker, hlimit⟩ := hgoes.due
      have hpaid : chunkPeriod * (taken + 1) ≤ chunkPeriod * (taken + k + 0) :=
        Nat.mul_le_mul_left _ (Nat.add_le_add_left hk _)
      rw [hstep]
      exact ⟨h.chunk_pos, h.uncancelled, h.blinks, taken + k, htakes.trans hchunk.settled,
        .inl ⟨⟨left, pos, hticker, hlimit.trans hpaid⟩, hgoes.waiting_eq, hgoes.completed_eq⟩⟩
    · exact absurd hover.rest_eq hrest

/-- What only changes what the blink shows, so that `restartBlink` undoes it, does not matter. -/
theorem of_restartBlink (h : p.Replays start waiting elapsed owed) {s : Screen}
    (hs : s.restartBlink = p.terminal.screen.restartBlink) :
    Replays start waiting elapsed owed
      { p with terminal := { p.terminal with screen := s } } := by
  obtain ⟨taken, htakes, hcourse⟩ := h.course
  have hplace : place { p with terminal := { p.terminal with screen := s } } = p.place := by
    show Place.mk { p.terminal with screen := s.restartBlink } p.stream = _
    rw [hs]
    rfl
  refine ⟨h.chunk_pos, h.uncancelled, h.blinks, taken, hplace ▸ htakes, ?_⟩
  rcases hcourse with hgoes | hover
  · exact .inl ⟨hgoes.due, hgoes.waiting_eq, hgoes.completed_eq⟩
  · exact .inr ⟨hover.chunkTicker_eq, hover.rest_eq, hover.waiting_eq, hover.completed_eq⟩

theorem mergeBlink (h : p.Replays start waiting elapsed owed) :
    p.mergeBlink.Replays start waiting elapsed owed :=
  h.of_restartBlink (Screen.restartBlink_merge _)

theorem frame (h : p.Replays start waiting elapsed owed) :
    p.frame.2.Replays start waiting elapsed owed :=
  h.of_restartBlink (Screen.restartBlink_frame _)

/-- While no clock fires twice, a byte is `owed` after a `wait` only if a chunk is due. -/
theorem wait (h : p.Replays start waiting elapsed 0) {time : Nat}
    {next : { time : Nat // 0 < time }}
    (hnext : p.chunkTicker.soonest p.blinkTicker = some next) (hle : time ≤ next.1) :
    (p.wait time).Replays start waiting (elapsed + time)
      (if p.chunkTicker.isDue time then 1 else 0) := by
  have hblinks : (p.wait time).blinkTicker.isRunning = true :=
    (Ticker.isRunning_after ..).trans h.blinks
  obtain ⟨taken, htakes, hgoes | hover⟩ := h.course
  · obtain ⟨left, pos, hticker, hlimit⟩ := hgoes.due
    refine ⟨h.chunk_pos, h.uncancelled, hblinks, taken, htakes,
      .inl ⟨?_, hgoes.waiting_eq, hgoes.completed_eq⟩⟩
    show ∃ left pos, p.chunkTicker.after time chunkPeriod _ = .running left pos ∧ _
    rw [hticker] at hnext ⊢
    have hleft := Ticker.soonest_le hnext
    rcases Nat.lt_or_ge time left with hlt | hge
    · -- the chunk is still to come, at the same moment as before
      refine ⟨left - time, Nat.sub_pos_of_lt hlt, dif_pos hlt, ?_⟩
      rw [if_neg (by simpa [Ticker.isDue] using hlt)]
      omega
    · -- the chunk is due now, and another one a period later
      refine ⟨chunkPeriod, chunkPeriod_pos, dif_neg (Nat.not_lt.2 hge), ?_⟩
      have hsame : time = left := Nat.le_antisymm (hle.trans hleft) hge
      rw [if_pos (by simpa [Ticker.isDue] using hge), hsame, Nat.mul_succ]
      exact Nat.add_le_add_right hlimit chunkPeriod
  · refine ⟨h.chunk_pos, h.uncancelled, hblinks, taken, htakes,
      .inr ⟨?_, hover.rest_eq, hover.waiting_eq, hover.completed_eq⟩⟩
    exact (Ticker.isRunning_after ..).trans hover.chunkTicker_eq

/-- A `tick` takes the chunk that is due, which pays for the byte that is owed. -/
theorem tick (h : p.Replays start waiting elapsed 0)
    (hwaiting : ∀ callback ∈ waiting, callback.cancels = false)
    {next : { time : Nat // 0 < time }}
    (hnext : p.chunkTicker.soonest p.blinkTicker = some next) :
    (p.tick next.1).Replays start waiting (elapsed + next.1) 0 := by
  have hwait := h.wait hnext (Nat.le_refl _)
  -- the chunk comes before the blink, which does not matter to it
  have hchunked : Replays start waiting (elapsed + next.1) 0
      (if p.chunkTicker.isDue next.1 then (p.wait next.1).stepChunk.2 else p.wait next.1) := by
    split at hwait
    · next hdue =>
      rw [if_pos hdue]
      exact hwait.stepChunk hwaiting
    · next hdue =>
      rw [if_neg hdue]
      exact hwait
  rw [tick_eq]
  dsimp only
  generalize (if p.chunkTicker.isDue next.1 then (p.wait next.1).stepChunk.2
    else p.wait next.1) = chunked at hchunked ⊢
  rw [if_neg (Bool.eq_false_iff.1 hchunked.uncancelled)]
  split
  · exact hchunked.mergeBlink
  · exact hchunked

/-- An `advance` by any time keeps a run on its course: what `wait` owes, the chunk of a `tick`
    pays. -/
theorem advance (h : p.Replays start waiting elapsed 0)
    (hwaiting : ∀ callback ∈ waiting, callback.cancels = false) (time : Nat) :
    (p.advance time).Replays start waiting (elapsed + time) 0 := by
  refine advance_preserves (fun elapsed p => p.Replays start waiting elapsed 0)
    ?_ ?_ ?_ ?_ h time
  · intro elapsed p time h hcancelled
    exact absurd (h.uncancelled.symm.trans hcancelled) Bool.false_ne_true
  · intro elapsed p time h _ hnone
    exact absurd hnone (Ticker.soonest_ne_none h.blinks)
  · intro elapsed p time next h _ hnext hlt
    have hwait := h.wait hnext (Nat.le_of_lt hlt)
    rwa [Ticker.isDue_eq_false hnext hlt, if_neg Bool.false_ne_true] at hwait
  · intro elapsed p next h _ hnext
    exact h.tick hwaiting hnext

/-- Whatever lets a run go on, as `letsPlay` says, keeps it on its course. -/
theorem act (h : p.Replays start waiting elapsed 0)
    (hwaiting : ∀ callback ∈ waiting, callback.cancels = false) {a : Act}
    (ha : a.letsPlay = true) :
    (p.act a).Replays start waiting (elapsed + a.time) 0 := by
  cases a with
  | advance time => exact h.advance hwaiting time
  | stepChunk => exact (h.owe 1).stepChunk hwaiting
  | mergeBlink => exact h.mergeBlink
  | frame => exact h.frame
  | snapshot => exact h
  | play | stop | load | renderAll | cancel => cases ha

/-- One act after another keeps a run on its course, by induction on the acts. -/
theorem foldl_act (h : p.Replays start waiting elapsed 0)
    (hwaiting : ∀ callback ∈ waiting, callback.cancels = false) {acts : List Act}
    (hacts : ∀ a ∈ acts, a.letsPlay = true) :
    (acts.foldl Player.act p).Replays start waiting (elapsed + Act.duration acts) 0 := by
  induction acts generalizing elapsed p with
  | nil => exact h
  | cons a acts ih =>
    have hfirst := h.act hwaiting (hacts a List.mem_cons_self)
    rw [Act.duration, ← Nat.add_assoc, List.foldl_cons]
    exact ih hfirst fun b hb => hacts b (List.mem_cons_of_mem a hb)

/-- When a `chunkPeriod` of ten milliseconds has passed for every byte, the run is over. -/
theorem isOver (h : p.Replays start waiting elapsed 0)
    (htime : chunkPeriod * start.stream.rest.length ≤ elapsed) : p.IsOver waiting := by
  obtain ⟨taken, htakes, hgoes | hover⟩ := h.course
  · -- no more bytes can have been taken than there are, but some time is left until the chunk
    obtain ⟨left, pos, _, hlimit⟩ := hgoes.due
    have htaken : chunkPeriod * (taken + 0) ≤ chunkPeriod * start.stream.rest.length :=
      Nat.mul_le_mul_left _ (Nat.le_of_add_right_le htakes.add_length_le)
    omega
  · exact hover

end Replays

/-- A run that is started by `play` takes its first chunk at once. -/
theorem replays_play (hcompleted : p.completed = []) (baud : Option Nat)
    (waiting : Option Callback) (hwaiting : ∀ callback ∈ waiting, callback.cancels = false) :
    (p.play baud waiting true).Replays (Place.settled ⟨p.terminal.reset, p.stream.seek 0⟩)
      waiting 0 0 := by
  refine Replays.stepChunk ?_ hwaiting
  refine ⟨chunkSize_pos _, rfl, rfl, 0, .refl _, .inl ⟨?_, rfl, hcompleted⟩⟩
  exact ⟨chunkPeriod, chunkPeriod_pos, rfl, by rw [Nat.zero_add, Nat.zero_add, Nat.mul_one]⟩

/-- **A paced run ends with the still picture.** Start a run by `play` on a fresh player at any
    rate, and let it go on by acts that `letsPlay` allows: in any order, let time pass, take chunks,
    let the blink change its phase, and look at the picture. Once a `chunkPeriod` of ten
    milliseconds has passed for every byte of the art, the run is over and the blink goes on; who
    waited has been called back, once; and all but the blink is as a fresh player leaves it on which
    `renderAll` draws the art at once. -/
theorem replay_eq_renderAll (file : Bytes) (config : Config) (baud : Option Nat)
    (waiting : Option Callback) (hwaiting : ∀ callback ∈ waiting, callback.cancels = false)
    (acts : List Act) (hacts : ∀ a ∈ acts, a.letsPlay = true)
    (htime : chunkPeriod * (ByteStream.ofFile file).length ≤ Act.duration acts) :
    let paced := acts.foldl act ((Player.new file config).play baud waiting true)
    let still := (Player.new file config).renderAll.2
    paced.isPlaying = false
    ∧ paced.isBlinking = true
    ∧ paced.stream.atEnd = true
    ∧ paced.completed = waiting.toList.map Callback.id
    ∧ paced.terminal.session = still.terminal.session
    ∧ paced.terminal.pending = still.terminal.pending
    ∧ paced.terminal.scrolls = still.terminal.scrolls
    ∧ paced.terminal.screen.visible = still.terminal.screen.visible
    ∧ paced.terminal.screen.onMask = still.terminal.screen.onMask
    ∧ paced.terminal.screen.offMask = still.terminal.screen.offMask := by
  intro paced still
  have hpaced := (replays_play (p := .new file config) rfl baud waiting hwaiting).foldl_act
    hwaiting hacts
  rw [Nat.zero_add] at hpaced
  have hover : paced.IsOver waiting := hpaced.isOver htime
  -- both ways lead from the beginning of the art to its end
  obtain ⟨taken, htakes, _⟩ := hpaced.course
  have hstill := (Terminal.takes_readToEnd (Player.new file config).terminal.reset
    ((Player.new file config).stream.seek 0)).settled
  obtain ⟨hplace, _⟩ := htakes.end_unique hstill hover.rest_eq (Terminal.rest_readToEnd ..)
  have hterminal : paced.terminal.settled = still.terminal.settled :=
    congrArg Place.terminal hplace
  refine ⟨?_, ?_, ?_, hover.completed_eq, ?_⟩
  · rw [isPlaying, hover.chunkTicker_eq]
    rfl
  · rw [isBlinking, hpaced.blinks, hpaced.uncancelled]
    rfl
  · rw [ByteStream.atEnd, hover.rest_eq]
    rfl
  · have hscreen : paced.terminal.screen.restartBlink = still.terminal.screen.restartBlink :=
      congrArg Terminal.screen hterminal
    have hsession := congrArg Terminal.session hterminal
    have hpending := congrArg Terminal.pending hterminal
    have hscrolls := congrArg Terminal.scrolls hterminal
    have hvisible := congrArg Screen.visible hscreen
    have honMask := congrArg Screen.onMask hscreen
    have hoffMask := congrArg Screen.offMask hscreen
    exact ⟨hsession, hpending, hscrolls, hvisible, honMask, hoffMask⟩

/-- A case of `replay_eq_renderAll`: two bytes at the slowest rate, with all that may be done in
    between. -/
theorem replay_of_two_bytes :
    let file : Bytes := [0x48, 0x69]
    let waiting : Option Callback := some { id := 7 }
    let acts : List Act :=
      [.advance 4000000, .frame, .mergeBlink, .advance 6000000, .snapshot, .stepChunk,
        .advance 10000000]
    (∀ callback ∈ waiting, callback.cancels = false)
    ∧ (∀ a ∈ acts, a.letsPlay = true)
    ∧ chunkPeriod * (ByteStream.ofFile file).length ≤ Act.duration acts
    ∧ (acts.foldl act ((Player.new file .ordinary).play (some 0) waiting true)).completed
      = [7] := by
  intro file waiting acts
  have hwaiting : ∀ callback ∈ waiting, callback.cancels = false := by decide
  have hacts : ∀ a ∈ acts, a.letsPlay = true := by decide
  have htime : chunkPeriod * (ByteStream.ofFile file).length ≤ Act.duration acts := by
    decide
  obtain ⟨_, _, _, hcompleted, _⟩ :=
    replay_eq_renderAll file .ordinary (some 0) waiting hwaiting acts hacts htime
  exact ⟨hwaiting, hacts, htime, hcompleted⟩

end Player

end TextArt
