import TextArt.Proofs.Cancelling
import TextArt.Proofs.Forms
import TextArt.Proofs.SavedCursor

namespace TextArt

/-!
# Restarts — a player that is started anew has forgotten all but one place

Two players may have done quite different things before.  Once both draw the same art from the
beginning, on a terminal that is reset, they do the same, now and whatever is done to both of
them later; only the saved place of the cursor is not forgotten.

* `Player.Act.Matches` — the same is done to two players, runs being counted from a restart of
  each;
* `Player.Alike` — since their restarts two players have done the same;
* `Player.Alike.stepChunk`, `Player.Alike.tick`, `Player.Alike.advance`, `Player.Alike.act` —
  nothing that is done to both breaks this;
* `Player.agrees_reset` — two players with the same configuration, the same number of columns
  and the same art are at places that agree, once they are reset;
* `Player.restart_forgets` — so they are alike after a restart.
-/

namespace Player

variable {differ : Prop} {P Q p q : Player}

namespace Act

/-- The same is done to two players, of which one has started `m` runs before and the other one
    `n`.  A run that is cancelled has been started equally long after those by both, or is one of
    those. -/
inductive Matches (m n : Nat) : Act → Act → Prop where
  | same {a : Act} (h : ∀ run, a ≠ .cancel run) : Matches m n a a
  | later (k : Nat) : Matches m n (.cancel (m + k + 1)) (.cancel (n + k + 1))
  | earlier {run run' : Nat} (h : run ≤ m) (h' : run' ≤ n) :
    Matches m n (.cancel run) (.cancel run')

end Act

/-- Since they were `P` and `Q`, two players have been started anew and have done the same. -/
structure Alike (differ : Prop) (P Q p q : Player) : Prop where
  place : Place.Agrees differ ⟨p.terminal, p.stream⟩ ⟨q.terminal, q.stream⟩
  cancelled_eq : p.cancelled = q.cancelled
  chunk_eq : p.chunk = q.chunk
  chunkTicker_eq : p.chunkTicker = q.chunkTicker
  blinkTicker_eq : p.blinkTicker = q.blinkTicker
  waiting_eq : p.waiting = q.waiting
  runs : ∃ k, p.run = P.run + k + 1 ∧ q.run = Q.run + k + 1
  called : ∃ called, p.completed = called ++ P.completed ∧ q.completed = called ++ Q.completed

namespace Alike

theorem isPlaying_eq (h : Alike differ P Q p q) : p.isPlaying = q.isPlaying := by
  rw [isPlaying, isPlaying, h.chunkTicker_eq, h.cancelled_eq]

theorem position_eq (h : Alike differ P Q p q) : p.stream.position = q.stream.position := by
  have hart : p.stream.art = q.stream.art := h.place.art_eq
  have hrest : p.stream.rest = q.stream.rest := h.place.rest_eq
  rw [ByteStream.position, ByteStream.position, hart, hrest]

/-- Where the saved places may not `differ`, nothing of the terminals does. -/
theorem terminal_eq (h : Alike False P Q p q) : p.terminal = q.terminal :=
  Terminal.eq_of_unsaved_eq h.place.unsaved_eq (h.place.saved.resolve_right And.left)

theorem isBlinking_eq (h : Alike differ P Q p q) : p.isBlinking = q.isBlinking := by
  rw [isBlinking, isBlinking, h.blinkTicker_eq, h.cancelled_eq]

/-! ### One tick -/

theorem halt (h : Alike differ P Q p q) : Alike differ P Q p.halt q.halt :=
  { h with
    chunkTicker_eq := congrArg Ticker.stop h.chunkTicker_eq
    blinkTicker_eq := congrArg Ticker.stop h.blinkTicker_eq }

theorem wait (h : Alike differ P Q p q) (time : Nat) :
    Alike differ P Q (p.wait time) (q.wait time) :=
  { h with
    chunkTicker_eq := congrArg (Ticker.after time chunkPeriod chunkPeriod_pos) h.chunkTicker_eq
    blinkTicker_eq := congrArg (Ticker.after time blinkPeriod blinkPeriod_pos) h.blinkTicker_eq }

theorem finish (h : Alike differ P Q p q) : Alike differ P Q p.finish q.finish := by
  obtain ⟨called, hcalled, hcalled'⟩ := h.called
  rw [finish_eq, finish_eq, h.waiting_eq]
  refine { h with
    cancelled_eq := ?_
    chunkTicker_eq := congrArg Ticker.stop h.chunkTicker_eq
    waiting_eq := rfl
    called := ⟨(q.waiting.map Callback.id).toList ++ called, ?_, ?_⟩ }
  · exact congrArg (· || q.waiting.any Callback.cancels) h.cancelled_eq
  · rw [hcalled, List.append_assoc]
  · rw [hcalled', List.append_assoc]

theorem stepChunk (h : Alike differ P Q p q) : Alike differ P Q p.stepChunk.2 q.stepChunk.2 := by
  -- places that agree read alike, and count as many bytes
  have hread : p.nextChunk.Agrees differ q.nextChunk := by
    rw [nextChunk, nextChunk, h.chunk_eq]
    exact Reading.Agrees.read h.place q.chunk
  have htaken : Alike differ P Q
      { p with terminal := p.nextChunk.terminal, stream := p.nextChunk.stream }
      { q with terminal := q.nextChunk.terminal, stream := q.nextChunk.stream } :=
    { h with place := hread.place }
  -- whether the run is over depends on the count alone, which is the same for both
  have hstep : ∀ p : Player, p.stepChunk.2 =
      if p.nextChunk.consumed = 0 then
        Player.finish { p with terminal := p.nextChunk.terminal, stream := p.nextChunk.stream }
      else { p with terminal := p.nextChunk.terminal, stream := p.nextChunk.stream } :=
    fun _ => rfl
  rw [hstep, hstep, hread.consumed_eq]
  split
  · exact htaken.finish
  · exact htaken

theorem onScreen (h : Alike differ P Q p q) (change : Screen → Screen) :
    Alike differ P Q { p with terminal := { p.terminal with screen := change p.terminal.screen } }
      { q with terminal := { q.terminal with screen := change q.terminal.screen } } :=
  { h with place := h.place.onScreen change }

theorem tick (h : Alike differ P Q p q) (time : Nat) :
    Alike differ P Q (p.tick time) (q.tick time) := by
  have hchunked : Alike differ P Q (p.chunked time) (q.chunked time) := by
    unfold chunked
    rw [h.chunkTicker_eq]
    split
    · exact (h.wait time).stepChunk
    · exact h.wait time
  rw [tick_eq_chunked, tick_eq_chunked, h.blinkTicker_eq, hchunked.cancelled_eq]
  split
  · split
    · exact { hchunked with blinkTicker_eq := rfl }
    · exact hchunked.onScreen Screen.merge
  · exact hchunked

/-- Time passes in the same ticks for two players that are `Alike`. -/
theorem advance (h : Alike differ P Q p q) (time : Nat) :
    Alike differ P Q (p.advance time) (q.advance time) := by
  exact advance_related
    (fun _ _ h => ⟨h.cancelled_eq, h.chunkTicker_eq, h.blinkTicker_eq⟩) (fun _ _ h => h.halt)
    (fun _ _ time h => h.wait time) (fun _ _ time h => h.tick time) h time

/-! ### Acts -/

/-- To start two players at places of which `Place.Agrees` is true makes them alike, or keeps them
    so. -/
theorem started {baud : Option Nat} {waiting : Option Callback} {reset : Bool}
    (hplace : Place.Agrees differ
      ⟨(p.started baud waiting reset).terminal, (p.started baud waiting reset).stream⟩
      ⟨(q.started baud waiting reset).terminal, (q.started baud waiting reset).stream⟩)
    (hruns : ∃ k, p.run = P.run + k ∧ q.run = Q.run + k)
    (hcalled : ∃ called, p.completed = called ++ P.completed
      ∧ q.completed = called ++ Q.completed) :
    Alike differ P Q (p.started baud waiting reset) (q.started baud waiting reset) where
  place := hplace
  cancelled_eq := rfl
  chunk_eq := rfl
  chunkTicker_eq := rfl
  blinkTicker_eq := rfl
  waiting_eq := rfl
  runs := by
    obtain ⟨k, hp, hq⟩ := hruns
    exact ⟨k, congrArg Nat.succ hp, congrArg Nat.succ hq⟩
  called := hcalled

theorem play (h : Alike differ P Q p q) (baud : Option Nat) (waiting : Option Callback)
    (reset : Bool) : Alike differ P Q (p.play baud waiting reset) (q.play baud waiting reset) := by
  have hruns : ∃ k, p.run = P.run + k ∧ q.run = Q.run + k := by
    obtain ⟨k, hp, hq⟩ := h.runs
    exact ⟨k + 1, hp, hq⟩
  refine stepChunk (started ?_ hruns h.called)
  cases reset with
  | true =>
    have hreset := h.place.restart Terminal.reset (fun _ => rfl) (fun _ => rfl) fun _ => rfl
    exact hreset.onScreen Screen.restartBlink
  | false =>
    have hreset := h.place.restart Terminal.resetPen (fun _ => rfl) (fun _ => rfl) fun _ => rfl
    exact hreset.onScreen Screen.restartBlink

theorem stop (h : Alike differ P Q p q) : Alike differ P Q p.stop q.stop :=
  { h.halt with cancelled_eq := rfl }

theorem renderAll (h : Alike differ P Q p q) : Alike differ P Q p.renderAll.2 q.renderAll.2 :=
  { h.stop with
    place :=
      (h.place.restart Terminal.reset (fun _ => rfl) (fun _ => rfl) fun _ => rfl).readToEnd }

/-- A run that is cancelled is the current one of both players, or of neither, so they stay
    `Alike`. -/
theorem cancel (h : Alike differ P Q p q) {run run' : Nat}
    (hrun : (run = p.run ∧ run' = q.run) ∨ (run ≠ p.run ∧ run' ≠ q.run)) :
    Alike differ P Q (p.cancel run) (q.cancel run') := by
  unfold Player.cancel
  obtain ⟨hp, hq⟩ | ⟨hp, hq⟩ := hrun
  · rw [if_pos hp, if_pos hq]
    exact { h with cancelled_eq := rfl }
  · rw [if_neg hp, if_neg hq]
    exact h

/-- Other art is taken up with the sequence that is open, so by `SavesFirst` it has to save a place
    first as it goes on with that sequence, and as it is taken from its beginning later. -/
theorem load (h : Alike differ P Q p q) {file : Bytes}
    (hfile : differ → SavesFirst none (ByteStream.ofFile file).art
      ∧ SavesFirst p.terminal.pending (ByteStream.ofFile file).art) :
    Alike differ P Q (p.load file) (q.load file) :=
  { h with
    place :=
      { h.place with
        art_eq := rfl
        rest_eq := rfl
        saved := h.place.saved.imp_right fun hfirst =>
          ⟨hfirst.1, (hfile hfirst.1).2, (hfile hfirst.1).1⟩ }
    chunkTicker_eq := congrArg Ticker.stop h.chunkTicker_eq
    waiting_eq := rfl }

/-- Acts of which `Act.Matches` is true, done to two players that are alike, leave them so. -/
theorem act (h : Alike differ P Q p q) {a a' : Act} (ha : a.Matches P.run Q.run a')
    (hload : ∀ file, a = .load file → differ → SavesFirst none (ByteStream.ofFile file).art
      ∧ SavesFirst p.terminal.pending (ByteStream.ofFile file).art) :
    Alike differ P Q (p.act a) (q.act a') := by
  -- the current runs are as many after those at the start for both, so a number names both or none
  obtain ⟨current, hp, hq⟩ := h.runs
  cases ha with
  | later k => exact h.cancel (by omega)
  | earlier hrun hrun' => exact h.cancel (by omega)
  | same hother =>
    cases a with
    | play baud waiting reset => exact h.play baud waiting reset
    | advance time => exact h.advance time
    | stepChunk => exact h.stepChunk
    | renderAll => exact h.renderAll
    | load file => exact h.load (hload file rfl)
    | stop => exact h.stop
    | mergeBlink => exact h.onScreen Screen.merge
    | frame => exact h.onScreen fun s => s.frame.2
    | snapshot => exact h
    | cancel run => exact absurd rfl (hother run)

end Alike

/-- All art that is loaded in several acts is art that `SavesFirst`. -/
def LoadsSaveFirst (p : Player) : List Act → Prop
  | [] => True
  | a :: acts =>
    (∀ file, a = .load file → SavesFirst none (ByteStream.ofFile file).art
      ∧ SavesFirst p.terminal.pending (ByteStream.ofFile file).art)
    ∧ (p.act a).LoadsSaveFirst acts

theorem Alike.foldl_act (h : Alike differ P Q p q) {acts acts' : List Act}
    (hacts : List.Forall₂ (Act.Matches P.run Q.run) acts acts')
    (hloads : differ → p.LoadsSaveFirst acts) :
    Alike differ P Q (acts.foldl Player.act p) (acts'.foldl Player.act q) := by
  induction hacts generalizing p q with
  | nil => exact h
  | cons ha _ ih =>
    exact ih (h.act ha fun file hfile hdiffer => (hloads hdiffer).1 file hfile)
      fun hdiffer => (hloads hdiffer).2

/-! ### After anything else -/

section

variable {config : Config} {file file' : Bytes} {before before' : List Act}

/-- Two players with the same configuration, the same number of columns and the same art are at
    places of which `Place.Agrees` is true, once both have done a `reset`. -/
theorem agrees_reset
    (hp : p = before.foldl act (.new file config)) (hq : q = before'.foldl act (.new file' config))
    (hcolumns : p.terminal.screen.columns = q.terminal.screen.columns)
    (hart : p.stream.art = q.stream.art)
    (hsaved : p.terminal.session.saved = q.terminal.session.saved
      ∨ differ ∧ SavesFirst none p.stream.art) :
    Place.Agrees differ ⟨p.terminal.reset, p.stream.seek 0⟩
      ⟨q.terminal.reset, q.stream.seek 0⟩ := by
  have hpform : p.terminal.SameForm (new file config).terminal := by
    rw [hp]
    exact sameForm_foldl_act _ _
  have hqform : q.terminal.SameForm (new file' config).terminal := by
    rw [hq]
    exact sameForm_foldl_act _ _
  -- the number of columns is the one thing that depends on the file
  have hnew : (new file config).terminal = (new file' config).terminal := by
    have hsame : (new file config).terminal.screen.columns
        = (new file' config).terminal.screen.columns :=
      hpform.screen.columns_eq.symm.trans (hcolumns.trans hqform.screen.columns_eq)
    exact congrArg (fun columns => Terminal.new config columns config.rows columns config.rows)
      hsame
  have heven : ∀ file, (new file config).terminal.screen.Even := fun _ => Screen.even_new ..
  refine ⟨?_, hart, hart, hsaved.imp_right fun hfirst => ⟨hfirst.1, hfirst.2, hfirst.2⟩⟩
  show p.terminal.reset.unsaved = q.terminal.reset.unsaved
  rw [hpform.reset_eq (heven file), hqform.reset_eq (heven file'), hnew]
  rfl

/-- To `play` such art from the beginning makes the two alike. -/
theorem alike_play
    (hp : p = before.foldl act (.new file config)) (hq : q = before'.foldl act (.new file' config))
    (hcolumns : p.terminal.screen.columns = q.terminal.screen.columns)
    (hart : p.stream.art = q.stream.art)
    (hsaved : p.terminal.session.saved = q.terminal.session.saved
      ∨ differ ∧ SavesFirst none p.stream.art)
    (baud : Option Nat) (waiting : Option Callback) :
    Alike differ p q (p.play baud waiting true) (q.play baud waiting true) := by
  have hplace := (agrees_reset hp hq hcolumns hart hsaved).onScreen Screen.restartBlink
  exact (Alike.started hplace ⟨0, rfl, rfl⟩ ⟨[], rfl, rfl⟩).stepChunk

end

/-- **A restart forgets all but the saved place of the cursor.** Let any two players have the same
    configuration and come from whatever has been done to them to art of the same bytes, on screens
    of as many columns. If the saved places are the same, then `renderAll` leaves the same terminal,
    with its session, its screen and its blink; and if both `play` with a reset, and matching acts
    are done to both of them later, they always have the same terminal, are at the same place of
    their art, play and blink if the other one does, and have called back the same since. If the art
    is such that it `SavesFirst`, and so never goes back to a saved place before it has saved one,
    the same holds of all but the saved place, whatever places were saved before; art that is loaded
    later has to be like that too, by `LoadsSaveFirst`. -/
theorem restart_forgets (config : Config) (file file' : Bytes) (before before' : List Act) :
    let p := before.foldl act (.new file config)
    let q := before'.foldl act (.new file' config)
    p.terminal.screen.columns = q.terminal.screen.columns → p.stream.art = q.stream.art →
    (p.terminal.session.saved = q.terminal.session.saved →
      p.renderAll.2.terminal = q.renderAll.2.terminal
      ∧ ∀ baud waiting, ∀ acts acts' : List Act,
        List.Forall₂ (Act.Matches p.run q.run) acts acts' →
        let p' := acts.foldl act (p.play baud waiting true)
        let q' := acts'.foldl act (q.play baud waiting true)
        p'.terminal = q'.terminal
        ∧ p'.stream.art = q'.stream.art
        ∧ p'.stream.position = q'.stream.position
        ∧ p'.isPlaying = q'.isPlaying
        ∧ p'.isBlinking = q'.isBlinking
        ∧ ∃ called, p'.completed = called ++ p.completed
          ∧ q'.completed = called ++ q.completed)
    ∧ (SavesFirst none p.stream.art →
      p.renderAll.2.terminal.unsaved = q.renderAll.2.terminal.unsaved
      ∧ ∀ baud waiting, ∀ acts acts' : List Act,
        List.Forall₂ (Act.Matches p.run q.run) acts acts' →
        (p.play baud waiting true).LoadsSaveFirst acts →
        let p' := acts.foldl act (p.play baud waiting true)
        let q' := acts'.foldl act (q.play baud waiting true)
        p'.terminal.unsaved = q'.terminal.unsaved
        ∧ p'.stream.art = q'.stream.art
        ∧ p'.stream.position = q'.stream.position
        ∧ p'.isPlaying = q'.isPlaying
        ∧ p'.isBlinking = q'.isBlinking
        ∧ ∃ called, p'.completed = called ++ p.completed
          ∧ q'.completed = called ++ q.completed) := by
  intro p q hcolumns hart
  refine ⟨fun hsaved => ⟨?_, fun baud waiting acts acts' hacts => ?_⟩,
    fun hfirst => ⟨?_, fun baud waiting acts acts' hacts hloads => ?_⟩⟩
  -- with the same place saved nothing may differ, and `Agrees` is equality
  · have hreset : Place.Agrees False ⟨p.terminal.reset, p.stream.seek 0⟩
        ⟨q.terminal.reset, q.stream.seek 0⟩ := agrees_reset rfl rfl hcolumns hart (.inl hsaved)
    exact Terminal.eq_of_unsaved_eq hreset.readToEnd.unsaved_eq
      (hreset.readToEnd.saved.resolve_right And.left)
  · have hplay : Alike False p q (p.play baud waiting true) (q.play baud waiting true) :=
      alike_play rfl rfl hcolumns hart (.inl hsaved) baud waiting
    have h := hplay.foldl_act hacts False.elim
    exact ⟨h.terminal_eq, h.place.art_eq, h.position_eq, h.isPlaying_eq, h.isBlinking_eq, h.called⟩
  -- the saved places may differ, but the art saves one before it asks for it
  · have hreset : Place.Agrees True ⟨p.terminal.reset, p.stream.seek 0⟩
        ⟨q.terminal.reset, q.stream.seek 0⟩ :=
      agrees_reset rfl rfl hcolumns hart (.inr ⟨trivial, hfirst⟩)
    exact hreset.readToEnd.unsaved_eq
  · have hplay : Alike True p q (p.play baud waiting true) (q.play baud waiting true) :=
      alike_play rfl rfl hcolumns hart (.inr ⟨trivial, hfirst⟩) baud waiting
    have h := hplay.foldl_act hacts fun _ => hloads
    exact ⟨h.place.unsaved_eq, h.place.art_eq, h.position_eq, h.isPlaying_eq, h.isBlinking_eq,
      h.called⟩

/-- A case of `restart_forgets` with art that saves a place and goes back to it: played once, played
    twice but not to its end, and not played at all. -/
theorem restart_of_saved_place :
    let file : Bytes := [0x1B, 0x5B, 0x73, 0x41, 0x1B, 0x5B, 0x75]
    let once := [Act.play none none true].foldl act (.new file .ordinary)
    let twice := [Act.play none none false, .play (some 0) none false, .stepChunk, .cancel 2].foldl
      act (.new file .ordinary)
    let never := [].foldl act (.new file .ordinary)
    once.terminal.session.saved = twice.terminal.session.saved
    ∧ once.terminal.session.saved ≠ never.terminal.session.saved
    ∧ SavesFirst none once.stream.art
    ∧ once.renderAll.2.terminal = twice.renderAll.2.terminal
    ∧ ([Act.cancel 2, .stepChunk].foldl act (once.play none none true)).terminal
      = ([Act.cancel 3, .stepChunk].foldl act (twice.play none none true)).terminal
    ∧ once.renderAll.2.terminal.unsaved = never.renderAll.2.terminal.unsaved := by
  dsimp only
  have hacts : ∀ m n, m = 1 → n = 2 →
      List.Forall₂ (Act.Matches m n) [.cancel 2, .stepChunk] [.cancel 3, .stepChunk] := by
    rintro m n rfl rfl
    exact .cons (.later 0) (.cons (.same fun _ => Act.noConfusion) .nil)
  have honce := restart_forgets .ordinary [0x1B, 0x5B, 0x73, 0x41, 0x1B, 0x5B, 0x75]
    [0x1B, 0x5B, 0x73, 0x41, 0x1B, 0x5B, 0x75] [.play none none true]
  obtain ⟨hsame, _⟩ := honce
    [.play none none false, .play (some 0) none false, .stepChunk, .cancel 2] (by decide)
    (by decide)
  obtain ⟨hdrawn, hplayed⟩ := hsame (by decide)
  obtain ⟨_, hother⟩ := honce [] (by decide) (by decide)
  have hlater := hplayed none none _ _ (hacts _ _ (by decide) (by decide))
  exact ⟨by decide, by decide, by decide, hdrawn, hlater.1, (hother (by decide)).1⟩

end Player

end TextArt
