import TextArt.Terminal
import Mathlib.Logic.Function.Iterate

namespace TextArt

/-!
# Scripts — a terminal with a list of edits in place of its picture

What a byte makes of the cursor, the pen and the open sequence does not depend on what
is on the screen.  A script is that part of a terminal, together with a list of the
edits that the bytes have asked for.

* `Edit` — what can happen to the cells of a screen, `Edit.onScreen` saying what it
  does to the pixels;
* `Script.feed`, `Script.step` — a byte, without any pixels;
* `Terminal.after` — the terminal that a script is about, its edits made on the screen;
* `Terminal.feed_after` — feeding that terminal is feeding the script, and then making
  the edits;
* `Reading.terminal_iterate_step` — the same for any number of bytes of a stream.
-/

/-- What can happen to the cells of a `Screen`. -/
inductive Edit where
  /-- A character is drawn in a cell with a `pen`. -/
  | glyph (column row : Nat) (code : UInt8) (pen : Pen)
  /-- The cells of a `row` from a `column` on are emptied. -/
  | eraseRest (column row : Nat)
  /-- All cells are emptied. -/
  | eraseAll
  /-- All cells move one row up, and the last row is emptied. -/
  | scroll
  deriving DecidableEq, Repr

/-- An `Edit` that draws a character draws it with a pen of the kind `P`. -/
def Edit.DrawsWith (P : Pen → Prop) : Edit → Prop
  | glyph _ _ _ pen => P pen
  | _ => True

namespace Screen

/-- Draw a character in a cell, and change the masks there as its `Look` asks for. -/
def write (s : Screen) (font : Font) (code : UInt8) (look : Look) (column row : Nat) : Screen :=
  let drawn := s.draw column row (font.paint code look.ink look.paper)
  match look.masks with
  | .keep => drawn
  | .clear => drawn.stopBlink column row
  | .blink onPaper off =>
    drawn.drawBlink column row (font.paint code look.ink onPaper) (font.paint code off off)

end Screen

/-- Make an `Edit` on a screen. -/
def Edit.onScreen (font : Font) (palette : Palette) (icecolors : Bool) :
    Edit → Screen → Screen
  | glyph column row code pen, s => s.write font code (pen.look palette icecolors) column row
  | eraseRest column row, s => s.clearToEndOfRow column row
  | eraseAll, s => s.clearAll
  | scroll, s => s.scroll

/-- A `Terminal` without its picture: in the place of the screen it has the `edits` that would be
    made on it. -/
structure Script where
  /-- The clear-screen escape is obeyed. -/
  honorsClear : Bool
  session : Session
  /-- The bytes of an open escape sequence, the latest one first. -/
  pending : Option Bytes
  /-- How often the screen has scrolled. -/
  scrolls : Nat
  /-- Every `Edit` so far, the latest one first. -/
  edits : List Edit
  deriving DecidableEq

namespace Script

/-- The script of a session that has not begun. -/
def fresh (columns rows : Nat) (honorsClear : Bool) : Script where
  honorsClear := honorsClear
  session := .new columns rows
  pending := none
  scrolls := 0
  edits := []

/-! ### Drawing -/

/-- Go to the first column of the next row, with an `Edit.scroll` if there is no next row. -/
def newLine (c : Script) : Script :=
  let session := c.session
  if session.atLastRow then
    { c with
      session := { session with cursor := { session.cursor with x := 1 } }
      scrolls := c.scrolls + 1
      edits := .scroll :: c.edits }
  else
    { c with session := { session with cursor := ⟨1, session.cursor.y + 1⟩ } }

/-- Draw a character in the cell of the cursor, as an `Edit.glyph`. -/
def drawCell (c : Script) (code : UInt8) : Script :=
  let cursor := c.session.cursor
  { c with edits := .glyph (cursor.x - 1) (cursor.y - 1) code c.session.pen :: c.edits }

/-- Go one column on, from the last column to the next line by `newLine`. -/
def advance (c : Script) : Script :=
  if c.session.atLastColumn then c.newLine
  else
    { c with
      session := { c.session with
        cursor := { c.session.cursor with x := c.session.cursor.x + 1 } } }

/-- Draw a character by `drawCell` and go on. -/
def draw (c : Script) (code : UInt8) : Script :=
  (c.drawCell code).advance

/-! ### Obeying commands -/

/-- Change the `session`. -/
def changeSession (c : Script) (change : Session → Session) : Script :=
  { c with session := change c.session }

/-- Obey a `Command`. -/
def execute (c : Script) : Command → Script
  | .up n => c.changeSession (·.up n)
  | .down n => c.changeSession (·.down n)
  | .forward n =>
    let c := if c.session.atLastColumn then c.newLine else c
    c.changeSession (·.forward n)
  | .backward n => c.changeSession (·.backward n)
  | .position row column => c.changeSession (·.moveTo (column.getD 1) row)
  | .eraseDisplay mode =>
    if c.honorsClear && mode = 2 then
      { c with session := c.session.moveTo 1 1, edits := .eraseAll :: c.edits }
    else c
  | .eraseLine =>
    let cursor := c.session.cursor
    { c with edits := .eraseRest (cursor.x - 1) (cursor.y - 1) :: c.edits }
  | .rendition values =>
    c.changeSession fun s => { s with pen := values.foldl Pen.apply s.pen }
  | .saveCursor => c.changeSession Session.save
  | .restoreCursor => c.changeSession Session.restore
  | .freeColor paper color =>
    c.changeSession fun s =>
      if paper then { s with pen := { s.pen with freeBackground := some color } }
      else { s with pen := { s.pen with freeForeground := some color } }

/-! ### Taking bytes -/

/-- Add a byte to the open sequence, and `execute` the sequence if the byte ends it. -/
def accumulate (c : Script) (sequence : Bytes) (b : UInt8) : Script :=
  if Terminal.isLetter b then
    let c := { c with pending := none }
    match Command.parse? (b :: sequence).reverse with
    | some command => c.execute command
    | none => c
  else { c with pending := some (b :: sequence) }

/-- What a byte does when `next` comes after it. -/
def feed (c : Script) (b : UInt8) (next : Option UInt8) : Script :=
  match c.pending with
  | some sequence => c.accumulate sequence b
  | none =>
    if b = Terminal.lineFeed then c.newLine
    else if b = Terminal.carriageReturn then
      if next = some Terminal.lineFeed then c.newLine else c
    else if b = ByteStream.endMark then c
    else if b = Terminal.escape ∧ next = some Terminal.bracket then { c with pending := some [] }
    else c.draw b

/-- Whether a byte takes the one after it along. -/
def skipsNext (c : Script) (b : UInt8) (next : Option UInt8) : Bool :=
  c.pending.isNone && b = Terminal.carriageReturn && next = some Terminal.lineFeed

/-- Take a byte of a text by `feed`; with the script goes what is left of the text. -/
def step : Script × Bytes → Script × Bytes
  | (c, []) => (c, [])
  | (c, b :: rest) =>
    (c.feed b rest.head?, if c.skipsNext b rest.head? then rest.tail else rest)

/-- The script after `n` bytes of a text. -/
def afterBytes (c : Script) (n : Nat) (text : Bytes) : Script :=
  (step^[n] (c, text)).1

end Script

/-! ### Making the edits -/

namespace Terminal

/-- A terminal in its first state, with a screen as large as its session. -/
def fresh (font : Font) (palette : Palette) (icecolors honorsClear : Bool)
    (columns rows : Nat) : Terminal where
  font := font
  palette := palette
  icecolors := icecolors
  honorsClear := honorsClear
  session := .new columns rows
  pending := none
  scrolls := 0
  screen := .new columns rows font.width font.height (palette.color 0)

/-- A terminal is set up by `Terminal.new` in its `fresh` state. -/
theorem new_eq_fresh (config : Config) (columns rows : Nat) :
    Terminal.new config columns rows columns rows
      = fresh (Font.preset config.font config.bits) (Palette.ofBits config.bits)
          config.icecolors config.honorsClear columns rows := rfl

/-- The `Script` of a terminal, before any edit. -/
def script (t : Terminal) : Script where
  honorsClear := t.honorsClear
  session := t.session
  pending := t.pending
  scrolls := t.scrolls
  edits := []

/-- The `edits` of a script made on the screen of a terminal, which is otherwise as the script
    says. -/
def after (t : Terminal) (c : Script) : Terminal :=
  { t with
    honorsClear := c.honorsClear
    session := c.session
    pending := c.pending
    scrolls := c.scrolls
    screen := c.edits.foldr (Edit.onScreen t.font t.palette t.icecolors) t.screen }

variable (t : Terminal) (c : Script)

@[simp] theorem after_script : t.after t.script = t := rfl

@[simp] theorem pending_after : (t.after c).pending = c.pending := rfl

theorem newLine_after : (t.after c).newLine = t.after c.newLine := by
  rw [newLine_eq]
  unfold Script.newLine
  dsimp only
  by_cases h : c.session.atLastRow
  · have ht : (t.after c).session.atLastRow := h
    rw [if_pos ht, if_pos h]
    rfl
  · have ht : ¬ (t.after c).session.atLastRow := h
    rw [if_neg ht, if_neg h]
    rfl

/-- A character drawn on a screen is one `Screen.write`. -/
theorem drawCell_eq_write (code : UInt8) :
    t.drawCell code
      = { t with
          screen := t.screen.write t.font code (t.session.pen.look t.palette t.icecolors)
            (t.session.cursor.x - 1) (t.session.cursor.y - 1) } := by
  unfold drawCell Screen.write
  dsimp only
  cases (t.session.pen.look t.palette t.icecolors).masks <;> rfl

theorem drawCell_after (code : UInt8) :
    (t.after c).drawCell code = t.after (c.drawCell code) := by
  rw [drawCell_eq_write]
  rfl

theorem advance_after : (t.after c).advance = t.after c.advance := by
  rw [advance_eq]
  unfold Script.advance
  by_cases h : c.session.atLastColumn
  · have ht : (t.after c).session.atLastColumn := h
    rw [if_pos ht, if_pos h]
    exact newLine_after t c
  · have ht : ¬ (t.after c).session.atLastColumn := h
    rw [if_neg ht, if_neg h]
    rfl

theorem draw_after (code : UInt8) : (t.after c).draw code = t.after (c.draw code) := by
  rw [draw_eq, drawCell_after, advance_after, Script.draw]

theorem moveCursor_after (move : Session → Session) :
    (t.after c).moveCursor move = t.after (c.changeSession move) := rfl

/-- Obeying a `Command` is noting down its edits and making them. -/
theorem execute_after (command : Command) :
    (t.after c).execute command = t.after (c.execute command) := by
  -- only the first three look at the terminal before they act
  cases command with
  | forward n =>
    rw [execute_forward]
    unfold Script.execute
    dsimp only
    by_cases h : c.session.atLastColumn
    · have ht : (t.after c).session.atLastColumn := h
      rw [if_pos ht, if_pos h, newLine_after, moveCursor_after]
    · have ht : ¬ (t.after c).session.atLastColumn := h
      rw [if_neg ht, if_neg h, moveCursor_after]
  | eraseDisplay mode =>
    rw [execute_eraseDisplay]
    unfold Script.execute
    dsimp only
    by_cases h : (c.honorsClear && mode = 2) = true
    · have ht : ((t.after c).honorsClear && mode = 2) = true := h
      rw [if_pos ht, if_pos h]
      rfl
    · have ht : ¬ ((t.after c).honorsClear && mode = 2) = true := h
      rw [if_neg ht, if_neg h]
  | freeColor paper color => cases paper <;> rfl
  | up n => rfl
  | down n => rfl
  | backward n => rfl
  | position row column => rfl
  | eraseLine => rfl
  | rendition values => rfl
  | saveCursor => rfl
  | restoreCursor => rfl

theorem accumulate_after (sequence : Bytes) (b : UInt8) :
    (t.after c).accumulate sequence b = t.after (c.accumulate sequence b) := by
  rw [accumulate_eq]
  unfold Script.accumulate
  by_cases h : isLetter b
  · rw [if_pos h, if_pos h]
    cases Command.parse? (b :: sequence).reverse with
    | some command => exact execute_after t { c with pending := none } command
    | none => rfl
  · rw [if_neg h, if_neg h]
    rfl

/-- To `feed` a byte is noting down its edits and making them. -/
theorem feed_after (b : UInt8) (next : Option UInt8) :
    (t.after c).feed b next = t.after (c.feed b next) := by
  rw [feed_eq, pending_after]
  unfold Script.feed
  cases c.pending with
  | some sequence => exact accumulate_after t c sequence b
  | none =>
    dsimp only
    -- the bytes that are not drawn, in the order in which they are told apart
    by_cases hline : b = lineFeed
    · rw [if_pos hline, if_pos hline, newLine_after]
    rw [if_neg hline, if_neg hline]
    by_cases hreturn : b = carriageReturn
    · rw [if_pos hreturn, if_pos hreturn]
      by_cases hnext : next = some lineFeed
      · rw [if_pos hnext, if_pos hnext, newLine_after]
      · rw [if_neg hnext, if_neg hnext]
    rw [if_neg hreturn, if_neg hreturn]
    by_cases hmark : b = ByteStream.endMark
    · rw [if_pos hmark, if_pos hmark]
    rw [if_neg hmark, if_neg hmark]
    by_cases hopen : b = escape ∧ next = some bracket
    · rw [if_pos hopen, if_pos hopen]
      rfl
    · rw [if_neg hopen, if_neg hopen, draw_after]

/-- A terminal takes a byte as its `script` does. -/
theorem feed_eq_after (b : UInt8) (next : Option UInt8) :
    t.feed b next = t.after (t.script.feed b next) :=
  feed_after t t.script b next

/-- A terminal and its script agree on `skipsNext`: they take the same byte along. -/
theorem skipsNext_after (b : UInt8) (next : Option UInt8) :
    (t.after c).skipsNext b next = c.skipsNext b next := rfl

end Terminal

/-! ### Whole streams -/

namespace Reading

/-- A reading whose terminal is `after` a script stays so, step by step. -/
theorem iterate_step_after {r : Reading} {t : Terminal} {c : Script}
    (h : r.terminal = t.after c) (n : Nat) :
    (step^[n] r).terminal = t.after (Script.step^[n] (c, r.stream.rest)).1
      ∧ (step^[n] r).stream.rest = (Script.step^[n] (c, r.stream.rest)).2 := by
  induction n generalizing r c with
  | zero => exact ⟨h, rfl⟩
  | succ n ih =>
    rw [Function.iterate_succ_apply, Function.iterate_succ_apply]
    cases hr : r.stream.rest with
    | nil =>
      -- at the end neither of the two moves
      rw [step_of_nil hr, show Script.step (c, []) = (c, []) from rfl, ← hr]
      exact ih h
    | cons b rest =>
      have hterminal : r.step.terminal = t.after (c.feed b rest.head?) := by
        rw [terminal_step hr, h, Terminal.feed_after]
      have hrest := rest_step hr
      rw [h, Terminal.skipsNext_after] at hrest
      have hstep : Script.step (c, b :: rest)
          = (c.feed b rest.head?, r.step.stream.rest) := by
        rw [hrest]
        rfl
      rw [hstep]
      exact ih hterminal

/-- After `n` bytes the terminal shows the edits that its `script` has noted down; this is what
    brings the theorems about scripts to terminals. -/
theorem terminal_iterate_step (t : Terminal) (s : ByteStream) (n : Nat) :
    (step^[n] { terminal := t, stream := s }).terminal
      = t.after (t.script.afterBytes n s.rest) :=
  (iterate_step_after (t.after_script.symm) n).1

end Reading

end TextArt
