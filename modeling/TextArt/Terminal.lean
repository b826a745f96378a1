import TextArt.ByteStream
import TextArt.Command
import TextArt.Font
import TextArt.Screen
import TextArt.Session

namespace TextArt

/-!
# Terminals — bytes drawn on a screen

A terminal takes art byte by byte.  Most bytes are characters that are drawn at the
cursor; an escape followed by a bracket opens a sequence that ends with the next
letter and is then obeyed, if it asks for something.

* `Terminal.feed` — what one byte does, knowing the byte after it;
* `Terminal.skipsNext` — when that byte is taken along: a carriage return takes the
  line feed after it;
* `Terminal.execute` — what a command does;
* `Reading` — a terminal on its way through a stream; `Reading.step` takes a byte,
  `Reading.run` takes some number of them but ends with a scroll;
* `Terminal.read`, `Terminal.readToEnd` — some bytes of a stream, and all of them.

What may scroll the screen says whether it does, as `Terminal.feedScrolling` of a byte, and the
terminal also counts its scrolls; by `Terminal.scrolls_feed` the two agree.  Where only the terminal
matters that is left, the same is called `Terminal.feed`, and so on.
-/

namespace Pen

/-- What one rendition number does to a pen.  Numbers without a meaning leave `p` as it is. -/
def apply (p : Pen) (value : Int) : Pen :=
  if value = 0 then initial
  else if value = 1 then { p with bold := true, freeForeground := none }
  else if value = 5 then { p with blink := true }
  else if value = 7 then { p with inverse := true }
  else if value = 22 then { p with bold := false }
  else if value = 25 then { p with blink := false }
  else if value = 27 then { p with inverse := false }
  else if 30 ≤ value ∧ value ≤ 37 then
    { p with foreground := (value - 30).toNat, freeForeground := none }
  else if 40 ≤ value ∧ value ≤ 47 then
    { p with background := (value - 40).toNat, freeBackground := none }
  else p

/-- The palette indices `foreground` and `background` are in the dim half of the palette. -/
def Dim (p : Pen) : Prop :=
  p.foreground ≤ 7 ∧ p.background ≤ 7

theorem dim_initial : initial.Dim := ⟨by decide, by decide⟩

/-- No rendition number leaves the half in which `Dim` pens are. -/
theorem dim_apply {p : Pen} (h : p.Dim) (value : Int) : (p.apply value).Dim := by
  obtain ⟨hf, hb⟩ := h
  unfold apply
  repeat' split
  all_goals first
    | exact dim_initial
    | exact ⟨hf, hb⟩
    | exact ⟨by dsimp only; omega, hb⟩
    | exact ⟨hf, by dsimp only; omega⟩

end Pen

/-- A `screen`, the `session` that draws on it, and what the two need to know. -/
structure Terminal where
  font : Font
  palette : Palette
  /-- Blinking is shown as a bright background, as in `Config.icecolors`. -/
  icecolors : Bool
  /-- The clear-screen escape is obeyed, as in `Config.honorsClear`. -/
  honorsClear : Bool
  session : Session
  /-- The bytes of an open escape sequence, the latest one first; `none` where none is open. -/
  pending : Option Bytes
  /-- How often the `screen` has scrolled. -/
  scrolls : Nat
  screen : Screen

namespace Terminal

/-- A terminal for a session of `columns` times `rows` cells on a screen of `screenColumns` times
    `screenRows`. -/
def new (config : Config) (columns rows screenColumns screenRows : Nat) : Terminal :=
  let font := Font.preset config.font config.bits
  let palette := Palette.ofBits config.bits
  { font, palette
    icecolors := config.icecolors
    honorsClear := config.honorsClear
    session := .new columns rows
    pending := none
    scrolls := 0
    screen := .new screenColumns screenRows font.width font.height (palette.color 0) }

/-! ### Starting over -/

/-- Forget an open escape sequence, so that nothing is `pending`. -/
def resetEscape (t : Terminal) : Terminal :=
  { t with pending := none }

/-- Take up `Pen.initial` again and forget an open escape sequence. -/
def resetPen (t : Terminal) : Terminal :=
  { t with session := { t.session with pen := {} }, pending := none }

/-- Begin anew on an empty screen, by `Screen.reset`; only the place that is `saved` stays. -/
def reset (t : Terminal) : Terminal :=
  { t with
    screen := t.screen.reset
    session := t.session.reset
    pending := none
    scrolls := 0 }

/-! ### Drawing -/

/-- Go to the first column of the next row, by `Screen.scroll` if there is no next row; also say
    whether the screen scrolled. -/
def newLineScrolling (t : Terminal) : Bool × Terminal :=
  let session := t.session
  if session.atLastRow then
    (true,
      { t with
        session := { session with cursor := { session.cursor with x := 1 } }
        scrolls := t.scrolls + 1
        screen := t.screen.scroll })
  else
    (false, { t with session := { session with cursor := ⟨1, session.cursor.y + 1⟩ } })

/-- The terminal that `newLineScrolling` leaves. -/
def newLine (t : Terminal) : Terminal :=
  t.newLineScrolling.2

theorem newLine_eq (t : Terminal) :
    t.newLine =
      if t.session.atLastRow then
        { t with
          session := { t.session with cursor := { t.session.cursor with x := 1 } }
          scrolls := t.scrolls + 1
          screen := t.screen.scroll }
      else { t with session := { t.session with cursor := ⟨1, t.session.cursor.y + 1⟩ } } := by
  unfold newLine newLineScrolling
  dsimp only
  split <;> rfl

/-- `newLineScrolling` reports by how much the count of scrolls grows. -/
theorem scrolls_newLine (t : Terminal) :
    t.newLine.scrolls = t.scrolls + t.newLineScrolling.1.toNat := by
  unfold newLine newLineScrolling
  dsimp only
  split <;> rfl

/-- Draw a character in the cell of the `cursor`, with the looks that `Pen.look` gives it. -/
def drawCell (t : Terminal) (code : UInt8) : Terminal :=
  let look := t.session.pen.look t.palette t.icecolors
  let column := t.session.cursor.x - 1
  let row := t.session.cursor.y - 1
  let bitmap := t.font.paint code look.ink look.paper
  match look.masks with
  -- what blinked in the cell before is left on the masks
  | .keep => { t with screen := t.screen.draw column row bitmap }
  | .clear => { t with screen := (t.screen.draw column row bitmap).stopBlink column row }
  | .blink onPaper off =>
    let onLook := t.font.paint code look.ink onPaper
    let offLook := t.font.paint code off off
    { t with screen := (t.screen.draw column row bitmap).drawBlink column row onLook offLook }

/-- Go one column on, from the last column to the next line with `newLineScrolling`; also say
    whether the screen scrolled. -/
def advanceScrolling (t : Terminal) : Bool × Terminal :=
  if t.session.atLastColumn then t.newLineScrolling
  else
    (false,
      { t with
        session := { t.session with
          cursor := { t.session.cursor with x := t.session.cursor.x + 1 } } })

/-- The terminal that `advanceScrolling` leaves. -/
def advance (t : Terminal) : Terminal :=
  t.advanceScrolling.2

theorem advance_eq (t : Terminal) :
    t.advance =
      if t.session.atLastColumn then t.newLine
      else
        { t with
          session := { t.session with
            cursor := { t.session.cursor with x := t.session.cursor.x + 1 } } } := by
  unfold advance advanceScrolling
  split <;> rfl

/-- Draw a character with `drawCell` and go on with `advanceScrolling`; also say whether the screen
    scrolled. -/
def drawScrolling (t : Terminal) (code : UInt8) : Bool × Terminal :=
  (t.drawCell code).advanceScrolling

/-- The terminal that `drawScrolling` leaves. -/
def draw (t : Terminal) (code : UInt8) : Terminal :=
  (t.drawScrolling code).2

theorem draw_eq (t : Terminal) (code : UInt8) : t.draw code = (t.drawCell code).advance := rfl

theorem scrolls_drawCell (t : Terminal) (code : UInt8) : (t.drawCell code).scrolls = t.scrolls := by
  unfold drawCell
  dsimp only
  split <;> rfl

/-- `drawScrolling` reports by how much the count of scrolls grows. -/
theorem scrolls_draw (t : Terminal) (code : UInt8) :
    (t.draw code).scrolls = t.scrolls + (t.drawScrolling code).1.toNat := by
  rw [← t.scrolls_drawCell code]
  unfold draw drawScrolling advanceScrolling
  split
  · exact (t.drawCell code).scrolls_newLine
  · rfl

/-! ### Obeying commands -/

/-- Change the `pen` of the session. -/
def setPen (t : Terminal) (pen : Pen) : Terminal :=
  { t with session := { t.session with pen } }

/-- Change the `session`. -/
def moveCursor (t : Terminal) (move : Session → Session) : Terminal :=
  { t with session := move t.session }

/-- Obey a command; also say whether the screen scrolled.  A move `forward` from the last column
    starts in the next line. -/
def executeScrolling (t : Terminal) : Command → Bool × Terminal
  | .up n => (false, t.moveCursor (·.up n))
  | .down n => (false, t.moveCursor (·.down n))
  | .forward n =>
    -- in the last column the move starts in the next line, as the next character would
    let (scrolled, t) := if t.session.atLastColumn then t.newLineScrolling else (false, t)
    (scrolled, t.moveCursor (·.forward n))
  | .backward n => (false, t.moveCursor (·.backward n))
  | .position row column => (false, t.moveCursor (·.moveTo (column.getD 1) row))
  | .eraseDisplay mode =>
    -- any other mode is passed over, and the cursor stays where it is
    if t.honorsClear && mode = 2 then
      (false, { t with session := t.session.moveTo 1 1, screen := t.screen.clearAll })
    else (false, t)
  | .eraseLine =>
    let cursor := t.session.cursor
    (false, { t with screen := t.screen.clearToEndOfRow (cursor.x - 1) (cursor.y - 1) })
  | .rendition values => (false, t.setPen (values.foldl Pen.apply t.session.pen))
  | .saveCursor => (false, t.moveCursor Session.save)
  | .restoreCursor => (false, t.moveCursor Session.restore)
  | .freeColor paper color =>
    if paper then (false, t.setPen { t.session.pen with freeBackground := some color })
    else (false, t.setPen { t.session.pen with freeForeground := some color })

/-- The terminal that `executeScrolling` leaves. -/
def execute (t : Terminal) (command : Command) : Terminal :=
  (t.executeScrolling command).2

theorem execute_forward (t : Terminal) (n : Int) :
    t.execute (.forward n)
      = (if t.session.atLastColumn then t.newLine else t).moveCursor (·.forward n) := by
  unfold execute executeScrolling
  dsimp only
  split <;> rfl

theorem execute_eraseDisplay (t : Terminal) (mode : Int) :
    t.execute (.eraseDisplay mode) =
      if t.honorsClear && mode = 2 then
        { t with session := t.session.moveTo 1 1, screen := t.screen.clearAll }
      else t := by
  unfold execute executeScrolling
  dsimp only
  split <;> rfl

theorem execute_freeColor (t : Terminal) (paper : Bool) (color : Color) :
    t.execute (.freeColor paper color) =
      if paper then t.setPen { t.session.pen with freeBackground := some color }
      else t.setPen { t.session.pen with freeForeground := some color } := by
  cases paper <;> rfl

/-- `executeScrolling` reports by how much the count of scrolls grows, which is nothing for all
    commands but `forward`. -/
theorem scrolls_execute (t : Terminal) (command : Command) :
    (t.execute command).scrolls = t.scrolls + (t.executeScrolling command).1.toNat := by
  cases command with
  | forward n =>
    unfold execute executeScrolling
    dsimp only
    split
    · exact t.scrolls_newLine
    · rfl
  | eraseDisplay mode =>
    unfold execute executeScrolling
    dsimp only
    split <;> rfl
  | freeColor paper color => cases paper <;> rfl
  | _ => rfl

/-! ### Taking bytes -/

/-- The byte of a line feed, on which `feedScrolling` goes to the next line. -/
def lineFeed : UInt8 := 0x0A

/-- The byte of a carriage return, which does nothing but for a `lineFeed` after it. -/
def carriageReturn : UInt8 := 0x0D

/-- The byte of an escape, which opens a sequence if a `bracket` follows. -/
def escape : UInt8 := 0x1B

/-- The byte of the bracket that opens a sequence after an `escape`. -/
def bracket : UInt8 := 0x5B

/-- Whether a byte is a letter, which ends a sequence in `accumulateScrolling`. -/
def isLetter (b : UInt8) : Bool :=
  (0x41 ≤ b.toNat && b.toNat ≤ 0x5A) || (0x61 ≤ b.toNat && b.toNat ≤ 0x7A)

/-- Add a byte to the open `sequence`, and obey what `Command.parse?` makes of it if the byte ends
    it; also say whether the screen scrolled. -/
def accumulateScrolling (t : Terminal) (sequence : Bytes) (b : UInt8) : Bool × Terminal :=
  if isLetter b then
    -- the sequence is closed before it is obeyed, so a command finds none open
    let t := t.resetEscape
    match Command.parse? (b :: sequence).reverse with
    | some command => t.executeScrolling command
    | none => (false, t)
  else (false, { t with pending := some (b :: sequence) })

/-- The terminal that `accumulateScrolling` leaves. -/
def accumulate (t : Terminal) (sequence : Bytes) (b : UInt8) : Terminal :=
  (t.accumulateScrolling sequence b).2

theorem accumulate_eq (t : Terminal) (sequence : Bytes) (b : UInt8) :
    t.accumulate sequence b =
      if isLetter b then
        match Command.parse? (b :: sequence).reverse with
        | some command => t.resetEscape.execute command
        | none => t.resetEscape
      else { t with pending := some (b :: sequence) } := by
  unfold accumulate accumulateScrolling
  split
  · dsimp only
    cases Command.parse? (b :: sequence).reverse <;> rfl
  · rfl

/-- What a byte does when `next` comes after it, and whether the screen scrolls.  An escape that no
    bracket follows is drawn like a character. -/
def feedScrolling (t : Terminal) (b : UInt8) (next : Option UInt8) : Bool × Terminal :=
  match t.pending with
  | some sequence => t.accumulateScrolling sequence b
  | none =>
    if b = lineFeed then t.newLineScrolling
    else if b = carriageReturn then
      if next = some lineFeed then t.newLineScrolling else (false, t)
    else if b = ByteStream.endMark then (false, t)
    else if b = escape ∧ next = some bracket then (false, { t with pending := some [] })
    else t.drawScrolling b

/-- The terminal that `feedScrolling` leaves. -/
def feed (t : Terminal) (b : UInt8) (next : Option UInt8) : Terminal :=
  (t.feedScrolling b next).2

theorem feed_eq (t : Terminal) (b : UInt8) (next : Option UInt8) :
    t.feed b next =
      match t.pending with
      | some sequence => t.accumulate sequence b
      | none =>
        if b = lineFeed then t.newLine
        else if b = carriageReturn then if next = some lineFeed then t.newLine else t
        else if b = ByteStream.endMark then t
        else if b = escape ∧ next = some bracket then { t with pending := some [] }
        else t.draw b := by
  unfold feed feedScrolling
  cases t.pending with
  | some sequence => rfl
  | none =>
    dsimp only
    repeat' split
    all_goals rfl

/-- `feedScrolling` reports by how much the count of scrolls grows: a byte scrolls the screen once
    or not at all. -/
theorem scrolls_feed (t : Terminal) (b : UInt8) (next : Option UInt8) :
    (t.feed b next).scrolls = t.scrolls + (t.feedScrolling b next).1.toNat := by
  unfold feed feedScrolling
  cases t.pending with
  | some sequence =>
    dsimp only
    unfold accumulateScrolling
    split
    · dsimp only
      cases Command.parse? (b :: sequence).reverse with
      | some command => exact t.resetEscape.scrolls_execute command
      | none => rfl
    · rfl
  | none =>
    -- only line ends and characters may scroll
    dsimp only
    repeat' split
    all_goals first
      | exact t.scrolls_newLine
      | exact t.scrolls_draw b
      | rfl

/-- Whether a byte scrolls, as `feedScrolling` reports, can be told by the count `scrolls`. -/
theorem feedScrolling_fst (t : Terminal) (b : UInt8) (next : Option UInt8) :
    (t.feedScrolling b next).1 = decide (t.scrolls < (t.feed b next).scrolls) := by
  rw [scrolls_feed]
  cases (t.feedScrolling b next).1 <;> simp

/-- Whether a byte takes the one after it along, as a `carriageReturn` does with a `lineFeed` and an
    `escape` with a `bracket`. -/
def skipsNext (t : Terminal) (b : UInt8) (next : Option UInt8) : Bool :=
  t.pending.isNone && b = carriageReturn && next = some lineFeed

end Terminal

/-- A `terminal` on its way through a `stream`. -/
structure Reading where
  terminal : Terminal
  stream : ByteStream
  /-- The bytes taken so far, where one that `skipsNext` counts as one with the byte it takes
      along. -/
  consumed : Nat := 0
  /-- Whether the last byte made the screen scroll, as `feedScrolling` reported. -/
  scrolled : Bool := false

namespace Reading

/-- Take a byte, with `feedScrolling`, and the one after it if it `skipsNext`. -/
def step (r : Reading) : Reading :=
  match h : r.stream.rest with
  | [] => r
  | b :: rest =>
    let skips := r.terminal.skipsNext b rest.head?
    let (scrolled, terminal) := r.terminal.feedScrolling b rest.head?
    { terminal
      stream := r.stream.toRest (if skips then rest.tail else rest) (by
        rw [h]
        split
        · exact (List.tail_suffix _).trans (List.suffix_cons _ _)
        · exact List.suffix_cons _ _)
      consumed := r.consumed + 1
      scrolled }

/-- Take up to some number of bytes by `step`, but none after one that `scrolled`. -/
def run : Nat → Reading → Reading
  | 0, r => r
  | n + 1, r => if r.scrolled || r.stream.atEnd then r else run n r.step

/-- At the end of the stream there is no byte for a `step` to take. -/
theorem step_of_nil {r : Reading} (h : r.stream.rest = []) : r.step = r := by
  unfold step
  split
  · rfl
  · next hr => simp [h] at hr

/-- A byte is fed, by `feed`, with the byte after it in view. -/
theorem terminal_step {r : Reading} {b : UInt8} {rest : Bytes} (h : r.stream.rest = b :: rest) :
    r.step.terminal = r.terminal.feed b rest.head? := by
  unfold step
  split
  · next hr => simp [h] at hr
  · next hr =>
    rw [h, List.cons.injEq] at hr
    rw [hr.1, hr.2]
    rfl

/-- A byte that is taken reports whether it scrolls, as `feedScrolling` says. -/
theorem scrolled_step {r : Reading} {b : UInt8} {rest : Bytes} (h : r.stream.rest = b :: rest) :
    r.step.scrolled = (r.terminal.feedScrolling b rest.head?).1 := by
  unfold step
  split
  · next hr => simp [h] at hr
  · next hr =>
    rw [h, List.cons.injEq] at hr
    rw [hr.1, hr.2]

/-- After a `step` a byte is gone, and the one after it too if the byte `skipsNext`. -/
theorem rest_step {r : Reading} {b : UInt8} {rest : Bytes} (h : r.stream.rest = b :: rest) :
    r.step.stream.rest = if r.terminal.skipsNext b rest.head? then rest.tail else rest := by
  unfold step
  split
  · next hr => simp [h] at hr
  · next hr =>
    rw [h, List.cons.injEq] at hr
    rw [hr.1, hr.2]
    rfl

/-- A `step` shortens what is left. -/
theorem length_rest_step {r : Reading} (h : r.stream.rest ≠ []) :
    r.step.stream.rest.length < r.stream.rest.length := by
  obtain ⟨b, rest, hr⟩ := List.exists_cons_of_ne_nil h
  rw [rest_step hr, hr]
  split
  · rw [List.length_tail, List.length_cons]
    omega
  · exact Nat.lt_succ_self _

/-- Where bytes are left, a `step` counts one in `consumed`. -/
theorem consumed_step {r : Reading} (h : r.stream.rest ≠ []) :
    r.step.consumed = r.consumed + 1 := by
  unfold step
  split
  · next hr => exact absurd hr h
  · rfl

/-- What is left shortens by at least the bytes that are `consumed`. -/
theorem length_rest_run (n : Nat) (r : Reading) :
    (run n r).stream.rest.length + (run n r).consumed ≤ r.stream.rest.length + r.consumed := by
  induction n generalizing r with
  | zero => exact Nat.le_refl _
  | succ n ih =>
    unfold run
    split
    · exact Nat.le_refl _
    · next hr =>
      have hne : r.stream.rest ≠ [] := by
        intro hnil
        simp [ByteStream.atEnd, hnil] at hr
      have hlength := length_rest_step hne
      have hconsumed := consumed_step hne
      have := ih r.step
      omega

end Reading

namespace Terminal

/-- Take up to `max` bytes of a stream, ending early with one that scrolls. -/
def read (t : Terminal) (s : ByteStream) (max : Nat) : Reading :=
  Reading.run max { terminal := t, stream := s }

/-- What is left of a stream shortens by at least the bytes that `read` counts. -/
theorem length_rest_read (t : Terminal) (s : ByteStream) (max : Nat) :
    (t.read s max).stream.rest.length + (t.read s max).consumed ≤ s.rest.length :=
  Reading.length_rest_run max { terminal := t, stream := s }

/-- The largest number of bytes that `read` can be asked for. -/
def unlimited : Nat := UInt64.size - 1

/-- Read without a limit, again after every scroll, until nothing is read; `taken` bytes
    have been read before. -/
def readOn (t : Terminal) (s : ByteStream) (taken : Nat) : Reading :=
  let r := t.read s unlimited
  if _hr : r.consumed = 0 then { r with consumed := taken }
  else readOn r.terminal r.stream (taken + r.consumed)
termination_by s.rest.length
decreasing_by
  have hread := t.length_rest_read s unlimited
  have hsome : (t.read s unlimited).consumed ≠ 0 := _hr
  omega

/-- Take all that is left of a stream: a `read` of `unlimited` bytes. -/
def readToEnd (t : Terminal) (s : ByteStream) : Reading :=
  t.readOn s 0

end Terminal

end TextArt
