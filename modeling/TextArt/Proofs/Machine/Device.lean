import TextArt.Proofs.Machine.Escapes
import TextArt.Proofs.Machine.Glyphs
import TextArt.Proofs.Machine.Session
import TextArt.Proofs.Machine.Surface

namespace TextArt

/-!
# Devices — the terminals of a machine

A terminal with the numbers of a machine.  Its cursor counts from one and its surface from zero, so
a cursor that has left the screen would be a failure at once; so would be a colour outside the
palette, or a cell of which there are no pixels.

* `Terminal.Sound` — session and screen are of one size, the cursors are on the screen, the pen is
  dim, and the screen is made for the font; `Terminal.Sound.cell_inside` — a character is drawn on
  pixels that there are;
* `Machine.Device` — a terminal as a machine keeps it; how it counts its scrolls is a parameter,
  since that count alone has no bound but the number of bytes;
* `Machine.Runs` — a computation has a result, which is the device of a sound terminal;
  `Machine.Reports` says the same of one that also reports whether it scrolls;
* `Machine.draw_reports`, `Machine.execute_reports`, `Machine.accumulate_reports` — what a byte may
  ask for is done to a sound terminal without a failure, and leaves it sound;
* `Machine.new_runs` — a new device is that of a new terminal, which is sound.
-/

/-! ### Sound terminals -/

namespace Terminal

/-- A terminal of a size, with its cursors on the screen and a `Dim` pen. -/
structure Sound (columns rows : Nat) (t : Terminal) : Prop where
  session : t.session.columns = columns ∧ t.session.rows = rows
  screen : t.screen.columns = columns ∧ t.screen.rows = rows
  cell : t.screen.cellWidth = t.font.width ∧ t.screen.cellHeight = t.font.height
  inBounds : t.session.InBounds
  dim : t.session.pen.Dim
  roomy : t.screen.Roomy
  small : Machine.Glyphs.Small t.font

namespace Sound

variable {columns rows : Nat} {t u : Terminal}

/-- The cursor of a `Sound` terminal is in a cell of the screen. -/
theorem cursor_lt (h : t.Sound columns rows) :
    t.session.cursor.x - 1 < t.screen.columns ∧ t.session.cursor.y - 1 < t.screen.rows := by
  obtain ⟨⟨hx, hxlast, hy, hylast⟩, -⟩ := h.inBounds
  rw [h.session.1] at hxlast
  rw [h.session.2] at hylast
  rw [h.screen.1, h.screen.2]
  omega

/-- The cell of the cursor of a `Sound` terminal lies on the rasters as a whole. -/
theorem cell_inside (h : t.Sound columns rows) :
    (t.session.cursor.x - 1) * t.screen.cellWidth + t.screen.cellWidth ≤ t.screen.visible.width
      ∧ (t.session.cursor.y - 1) * t.screen.cellHeight + t.screen.cellHeight
        ≤ t.screen.visible.height :=
  h.roomy.cell_inside h.cursor_lt.1 h.cursor_lt.2

theorem columns_le (h : t.Sound columns rows) : t.session.columns ≤ maxColumns :=
  h.session.1.trans h.screen.1.symm ▸ h.roomy.columns

theorem rows_le (h : t.Sound columns rows) : t.session.rows ≤ maxRows :=
  h.session.2.trans h.screen.2.symm ▸ h.roomy.rows

/-- What is drawn does not matter for being `Sound`, and neither does where the cursor goes on the
    screen. -/
theorem change (h : t.Sound columns rows)
    (hsession : u.session.columns = t.session.columns ∧ u.session.rows = t.session.rows)
    (hinBounds : u.session.InBounds) (hdim : u.session.pen.Dim)
    (hscreen : u.screen.SameForm t.screen) (hfont : u.font = t.font) : u.Sound columns rows where
  session := ⟨hsession.1.trans h.session.1, hsession.2.trans h.session.2⟩
  screen := ⟨hscreen.columns_eq.trans h.screen.1, hscreen.rows_eq.trans h.screen.2⟩
  cell := by rw [hscreen.cellWidth_eq, hscreen.cellHeight_eq, hfont]; exact h.cell
  inBounds := hinBounds
  dim := hdim
  roomy := h.roomy.of_sameForm hscreen
  small := hfont ▸ h.small

/-- A `Session` of the same size may take the place of the session. -/
theorem withSession (h : t.Sound columns rows) {s : Session}
    (hsize : s.columns = t.session.columns ∧ s.rows = t.session.rows) (hinBounds : s.InBounds)
    (hdim : s.pen.Dim) : ({ t with session := s } : Terminal).Sound columns rows :=
  h.change hsize hinBounds hdim (.refl _) rfl

/-- A `Screen` of the same form may take the place of the screen. -/
theorem withScreen (h : t.Sound columns rows) {s : Screen} (hform : s.SameForm t.screen) :
    ({ t with screen := s } : Terminal).Sound columns rows :=
  h.change ⟨rfl, rfl⟩ h.inBounds h.dim hform rfl

/-- An open sequence does not matter for being `Sound`. -/
theorem withPending (h : t.Sound columns rows) (pending : Option Bytes) :
    ({ t with pending } : Terminal).Sound columns rows :=
  h.change ⟨rfl, rfl⟩ h.inBounds h.dim (.refl _) rfl

end Sound

/-- The cells of a `Font.preset` are `Small`. -/
theorem small_preset (name : String) (bits : Bits) :
    Machine.Glyphs.Small (Font.preset name bits) :=
  ⟨(Font.width_preset name bits).2, (Font.height_preset name bits).2⟩

/-- A new terminal is `Sound`, if it is of a size that there is. -/
theorem sound_new (config : Config) {columns rows : Nat} (hcolumns : 1 ≤ columns)
    (hcolumnsLe : columns ≤ maxColumns) (hrows : 1 ≤ rows) (hrowsLe : rows ≤ maxRows) :
    (new config columns rows columns rows).Sound columns rows := by
  have hsmall : Machine.Glyphs.Small (Font.preset config.font config.bits) :=
    small_preset config.font config.bits
  exact
    { session := ⟨Nat.max_eq_right hcolumns, Nat.max_eq_right hrows⟩
      screen := ⟨rfl, rfl⟩
      cell := ⟨rfl, rfl⟩
      inBounds := Session.inBounds_new columns rows
      dim := Pen.dim_initial
      roomy := .new hcolumnsLe hrowsLe hsmall.width hsmall.height _
      small := hsmall }

end Terminal

namespace Machine

/-! ### Devices -/

/-- A `Terminal` as a machine keeps it. -/
structure Device where
  glyphs : Glyphs
  palette : Palette
  icecolors : Bool
  honorsClear : Bool
  session : Session
  pending : Option Bytes
  scrolls : Nat
  surface : Surface

/-- The device of a `Terminal`. -/
def Device.of (t : Terminal) : Device where
  glyphs := .of t.font
  palette := t.palette
  icecolors := t.icecolors
  honorsClear := t.honorsClear
  session := t.session
  pending := t.pending
  scrolls := t.scrolls
  surface := .of t.screen

namespace Device

variable (t : Terminal)

@[simp] theorem glyphs_of : (of t).glyphs = .of t.font := rfl

@[simp] theorem palette_of : (of t).palette = t.palette := rfl

@[simp] theorem icecolors_of : (of t).icecolors = t.icecolors := rfl

@[simp] theorem honorsClear_of : (of t).honorsClear = t.honorsClear := rfl

@[simp] theorem session_of : (of t).session = t.session := rfl

@[simp] theorem pending_of : (of t).pending = t.pending := rfl

@[simp] theorem scrolls_of : (of t).scrolls = t.scrolls := rfl

@[simp] theorem surface_of : (of t).surface = .of t.screen := rfl

end Device

/-- A new `Device`. -/
def newDevice (config : Config) (columns rows : Nat) : Option Device := do
  let glyphs ← Glyphs.preset config.font config.bits
  let palette := Palette.ofBits config.bits
  let background ← color palette 0
  let surface ← Surface.new columns rows glyphs.width glyphs.height background
  pure
    { glyphs, palette
      icecolors := config.icecolors
      honorsClear := config.honorsClear
      session := .new columns rows
      pending := none
      scrolls := 0
      surface }

/-- Begin anew on an empty `surface`. -/
def resetDevice (d : Device) : Option Device := do
  let surface ← d.surface.clearAll
  pure { d with surface, session := d.session.reset, pending := none, scrolls := 0 }

/-- Do a `MaskChange` to the masks of a cell. -/
def mask (d : Device) (code : UInt8) (ink : Color) (column row : Nat) (surface : Surface) :
    MaskChange → Option Surface
  | .keep => pure surface
  | .clear => surface.stopBlink column row
  | .blink onPaper off => do
    let onLook ← d.glyphs.paint code ink onPaper
    let offLook ← d.glyphs.paint code off off
    surface.drawBlink column row onLook offLook

/-- Draw a character in the cell of the cursor, by its `look`. -/
def drawCell (d : Device) (code : UInt8) : Option Device := do
  let colors ← look d.session.pen d.palette d.icecolors
  let column ← minus d.session.cursor.x 1
  let row ← minus d.session.cursor.y 1
  let bitmap ← d.glyphs.paint code colors.ink colors.paper
  let surface ← d.surface.draw column row bitmap
  let surface ← mask d code colors.ink column row surface colors.masks
  pure { d with surface }

/-- Change the `session` by a `move` that may fail. -/
def moveCursor (d : Device) (move : Session → Option Session) : Option Device := do
  let session ← move d.session
  pure { d with session }

/-- Change the `pen`. -/
def setPen (d : Device) (pen : Pen) : Device :=
  { d with session := { d.session with pen } }

/-- A computation that never scrolls, with the report `false`. -/
def still (x : Option Device) : Option (Bool × Device) :=
  x.map fun d => (false, d)

section Counting

variable (count : Nat → Option Nat)

/-- Go to the first column of the next row, scrolling if there is no next row; also say whether the
    `surface` scrolled. -/
def newLine (d : Device) : Option (Bool × Device) :=
  let session := d.session
  if session.atLastRow then do
    let surface ← d.surface.scroll
    let scrolls ← count d.scrolls
    let session := { session with cursor := { session.cursor with x := 1 } }
    pure (true, { d with session, scrolls, surface })
  else do
    let y ← word (session.cursor.y + 1)
    pure (false, { d with session := { session with cursor := ⟨1, y⟩ } })

/-- Go one column on, from the last column to the next line by `newLine`; also say whether the
    `surface` scrolled. -/
def advance (d : Device) : Option (Bool × Device) :=
  if d.session.atLastColumn then newLine count d
  else do
    let x ← word (d.session.cursor.x + 1)
    pure (false, { d with session := { d.session with cursor := { d.session.cursor with x } } })

/-- Draw a character by `drawCell` and go on; also say whether the `surface` scrolled. -/
def draw (d : Device) (code : UInt8) : Option (Bool × Device) := do
  let d ← drawCell d code
  advance count d

/-- Obey a `Command`; also say whether the `surface` scrolled. -/
def execute (d : Device) : Command → Option (Bool × Device)
  | .up n => still (moveCursor d (up · n))
  | .down n => still (moveCursor d (down · n))
  | .forward n => do
    let (scrolled, d) ← if d.session.atLastColumn then newLine count d else pure (false, d)
    let d ← moveCursor d (forward · n)
    pure (scrolled, d)
  | .backward n => still (moveCursor d (backward · n))
  | .position row column => still (moveCursor d (moveTo · (column.getD 1) row))
  | .eraseDisplay mode =>
    if d.honorsClear && mode = 2 then do
      let session ← moveTo d.session 1 1
      let surface ← d.surface.clearAll
      pure (false, { d with session, surface })
    else pure (false, d)
  | .eraseLine => do
    let column ← minus d.session.cursor.x 1
    let row ← minus d.session.cursor.y 1
    let surface ← d.surface.clearToEndOfRow column row
    pure (false, { d with surface })
  | .rendition values => do
    let pen ← values.foldlM apply d.session.pen
    pure (false, setPen d pen)
  | .saveCursor => still (moveCursor d (pure ·.save))
  | .restoreCursor => still (moveCursor d (pure ·.restore))
  | .freeColor paper color =>
    if paper then pure (false, setPen d { d.session.pen with freeBackground := some color })
    else pure (false, setPen d { d.session.pen with freeForeground := some color })

/-- Add a byte to the open sequence, and `execute` the sequence if the byte ends it; also say
    whether the `surface` scrolled. -/
def accumulate (d : Device) (sequence : Bytes) (b : UInt8) : Option (Bool × Device) :=
  if Terminal.isLetter b then do
    let d := { d with pending := none }
    match ← parse (b :: sequence).reverse with
    | some command => execute count d command
    | none => pure (false, d)
  else pure (false, { d with pending := some (b :: sequence) })

end Counting

/-! ### Computations that go through -/

/-- A computation has a result, which is the device of a `Sound` terminal with at most `limit`
    scrolls. -/
structure Runs (columns rows limit : Nat) (x : Option Device) (t : Terminal) : Prop where
  eq : x = some (.of t)
  sound : t.Sound columns rows
  scrolls : t.scrolls ≤ limit

section Running

variable {columns rows limit : Nat} {t u : Terminal} {x : Option Device}

/-- The same for a computation that reports whether it scrolls: it reports what the operation `y`
    on a terminal does, and leaves the device of the terminal that `y` leaves. -/
structure Reports (columns rows limit : Nat) (x : Option (Bool × Device)) (y : Bool × Terminal) :
    Prop where
  eq : x = some (y.1, .of y.2)
  sound : y.2.Sound columns rows
  scrolls : y.2.scrolls ≤ limit

/-- What never scrolls is `still` and says so, and then has a scroll to spare in `Reports`. -/
theorem Runs.reports (h : Runs columns rows limit x t) :
    Reports columns rows (limit + 1) (still x) (false, t) where
  eq := by
    rw [h.eq]
    rfl
  sound := h.sound
  scrolls := Nat.le_succ_of_le h.scrolls

/-- A `newDevice` is that of a new terminal. -/
theorem new_runs (config : Config) (hcolumns : 1 ≤ columns) (hcolumnsLe : columns ≤ maxColumns)
    (hrows : 1 ≤ rows) (hrowsLe : rows ≤ maxRows) :
    Runs columns rows 0 (newDevice config columns rows)
      (.new config columns rows columns rows) := by
  refine ⟨?_, Terminal.sound_new config hcolumns hcolumnsLe hrows hrowsLe, Nat.le_refl 0⟩
  have hsmall := Terminal.small_preset config.font config.bits
  have hsides : (Glyphs.of (Font.preset config.font config.bits)).width
      = (Font.preset config.font config.bits).width
      ∧ (Glyphs.of (Font.preset config.font config.bits)).height
        = (Font.preset config.font config.bits).height := ⟨rfl, rfl⟩
  simp only [newDevice, Glyphs.preset_eq, color_eq _ (Nat.zero_le 15), hsides.1, hsides.2,
    Option.bind_eq_bind, Option.bind_some]
  rw [Surface.new_of hcolumnsLe hrowsLe hsmall.width hsmall.height]
  rfl

theorem reset_runs (h : t.Sound columns rows) :
    Runs columns rows 0 (resetDevice (.of t)) t.reset where
  eq := by
    rw [resetDevice, Device.surface_of, Surface.clearAll_of h.roomy]
    rfl
  sound := h.change ⟨rfl, rfl⟩ (Session.inBounds_reset h.inBounds) Pen.dim_initial
    (Screen.sameForm_reset _) rfl
  scrolls := Nat.le_refl 0

/-! ### Drawing -/

section Cells

variable {column row : Nat}

theorem mask_of (h : t.Sound columns rows) {s : Screen} (hs : s.SameForm t.screen)
    (hcolumn : column < t.screen.columns) (hrow : row < t.screen.rows) (code : UInt8)
    (ink : Color) (change : MaskChange) :
    mask (.of t) code ink column row (.of s) change
      = some (.of (match change with
        | .keep => s
        | .clear => s.stopBlink column row
        | .blink onPaper off =>
          s.drawBlink column row (t.font.paint code ink onPaper) (t.font.paint code off off))) := by
  -- the screen that is drawn on has the form of that of the terminal, so its cells are in place
  have hroomy := h.roomy.of_sameForm hs
  rw [← hs.columns_eq] at hcolumn
  rw [← hs.rows_eq] at hrow
  cases change with
  | keep => rfl
  | clear => exact Surface.stopBlink_of hroomy hcolumn hrow
  | blink onPaper off =>
    rw [mask, Device.glyphs_of, Glyphs.paint_of h.small, Glyphs.paint_of h.small]
    exact Surface.drawBlink_of hroomy hcolumn hrow _ _

/-- A character is drawn by `drawCell` in a cell of the screen. -/
theorem drawCell_runs (h : t.Sound columns rows) (code : UInt8) :
    Runs columns rows t.scrolls (drawCell (.of t) code) (t.drawCell code) := by
  obtain ⟨⟨hx, -, hy, -⟩, -⟩ := h.inBounds
  obtain ⟨hcolumn, hrow⟩ := h.cursor_lt
  -- the masks are changed on a screen that has been drawn on
  have hform : ∀ bitmap : Array Color, (t.screen.draw (t.session.cursor.x - 1)
      (t.session.cursor.y - 1) bitmap).SameForm t.screen := fun bitmap =>
    ⟨rfl, rfl, rfl, rfl, rfl, ⟨Raster.width_put .., Raster.height_put ..⟩, .refl _, .refl _⟩
  rw [Terminal.drawCell_eq_write]
  refine ⟨?_, h.withScreen (Screen.sameForm_write ..), Nat.le_refl _⟩
  simp only [drawCell, Device.session_of, Device.palette_of, Device.icecolors_of,
    Device.glyphs_of, Device.surface_of, look_eq h.dim, minus_eq hx, minus_eq hy,
    Glyphs.paint_of h.small, Option.bind_eq_bind, Option.bind_some]
  rw [Surface.draw_of h.roomy hcolumn hrow, Option.bind_some,
    mask_of h (hform _) hcolumn hrow]
  rfl

end Cells

section Counted

variable {count : Nat → Option Nat} (hcount : count t.scrolls = some (t.scrolls + 1))

include hcount

theorem newLine_reports (h : t.Sound columns rows) :
    Reports columns rows (t.scrolls + 1) (newLine count (.of t)) t.newLineScrolling := by
  have hsmall : maxRows + 1 < UInt64.size := by decide
  -- a scroll is counted once; otherwise the cursor moves by one, which a word can count
  have hrows := h.rows_le
  unfold newLine Terminal.newLineScrolling
  dsimp only [Device.session_of]
  split
  · rw [Device.surface_of, Surface.scroll_of h.roomy.representable, Device.scrolls_of, hcount]
    exact ⟨rfl, h.change ⟨rfl, rfl⟩ h.inBounds.toFirstColumn h.dim (Screen.sameForm_scroll _) rfl,
      Nat.le_refl _⟩
  · next hlast =>
    rw [Session.atLastRow_iff, Nat.not_le] at hlast
    rw [word_eq (by omega)]
    exact ⟨rfl, h.withSession ⟨rfl, rfl⟩ (h.inBounds.toNextRow hlast) h.dim, Nat.le_succ _⟩

theorem advance_reports (h : t.Sound columns rows) :
    Reports columns rows (t.scrolls + 1) (advance count (.of t)) t.advanceScrolling := by
  have hsmall : maxColumns + 1 < UInt64.size := by decide
  have hcolumns := h.columns_le
  unfold advance Terminal.advanceScrolling
  rw [Device.session_of]
  split
  · exact newLine_reports hcount h
  · next hlast =>
    rw [Session.atLastColumn_iff, Nat.not_le] at hlast
    rw [word_eq (by omega)]
    exact ⟨rfl, h.withSession ⟨rfl, rfl⟩ (h.inBounds.toNextColumn hlast) h.dim, Nat.le_succ _⟩

theorem draw_reports (h : t.Sound columns rows) (code : UInt8) :
    Reports columns rows (t.scrolls + 1) (draw count (.of t) code) (t.drawScrolling code) := by
  have hdrawn := drawCell_runs h code
  rw [← t.scrolls_drawCell code] at hcount ⊢
  rw [draw, hdrawn.eq]
  exact advance_reports hcount hdrawn.sound

/-! ### Obeying commands -/

omit hcount in
theorem moveCursor_runs (h : t.Sound columns rows) (move : Session → Option Session)
    (moved : Session → Session) (hmove : move t.session = some (moved t.session))
    (hsize : (moved t.session).columns = t.session.columns
      ∧ (moved t.session).rows = t.session.rows)
    (hpen : (moved t.session).pen = t.session.pen) (hinBounds : (moved t.session).InBounds) :
    Runs columns rows t.scrolls (moveCursor (.of t) move) (t.moveCursor moved) where
  eq := by
    rw [moveCursor, Device.session_of, hmove]
    rfl
  sound := h.withSession hsize hinBounds (hpen ▸ h.dim)
  scrolls := Nat.le_refl _

omit hcount in
/-- Rendition numbers leave a `Dim` pen dim, by induction on them. -/
theorem dim_foldl_apply {p : Pen} (h : p.Dim) (values : List Int) :
    (values.foldl Pen.apply p).Dim := by
  induction values generalizing p with
  | nil => exact h
  | cons value values ih => exact ih (Pen.dim_apply h value)

omit hcount in
theorem foldlM_apply (p : Pen) (values : List Int) :
    values.foldlM apply p = some (values.foldl Pen.apply p) := by
  have happly : apply = fun p value => some (p.apply value) := by
    funext p value
    exact apply_eq p value
  rw [happly]
  exact List.foldlM_pure

/-- **A sound terminal obeys every command**, and `execute` tells whether it scrolls. No count that
    a `Command` brings along is too large, or of the wrong sign. The cases are those of the
    command. -/
theorem execute_reports (h : t.Sound columns rows) (command : Command) :
    Reports columns rows (t.scrolls + 1) (execute count (.of t) command)
      (t.executeScrolling command) := by
  have hcolumns := h.columns_le
  have hrows := h.rows_le
  cases command with
  | up n =>
    exact (moveCursor_runs h (up · n) (·.up n) (up_eq h.inBounds hrows n) ⟨rfl, rfl⟩ rfl
      (Session.inBounds_up h.inBounds n)).reports
  | down n =>
    exact (moveCursor_runs h (down · n) (·.down n) (down_eq h.inBounds hrows n) ⟨rfl, rfl⟩ rfl
      (Session.inBounds_down h.inBounds n)).reports
  | forward n =>
    -- the cursor goes right from where it is, or from the line that a full one is followed by
    have hmoved : ∀ {u : Terminal}, u.Sound columns rows → Runs columns rows u.scrolls
        (moveCursor (.of u) (forward · n)) (u.moveCursor (·.forward n)) := fun hu =>
      moveCursor_runs hu (forward · n) (·.forward n) (forward_eq hu.inBounds hu.columns_le n)
        ⟨rfl, rfl⟩ rfl (Session.inBounds_forward hu.inBounds n)
    unfold execute Terminal.executeScrolling
    dsimp only
    by_cases hlast : t.session.atLastColumn = true
    · have hdevice : (Device.of t).session.atLastColumn = true := hlast
      have hline := newLine_reports hcount h
      have hnext := hmoved hline.sound
      rw [if_pos hdevice, if_pos hlast, hline.eq, Option.bind_eq_bind, Option.bind_some]
      dsimp only
      rw [hnext.eq]
      exact ⟨rfl, hnext.sound, Nat.le_trans hnext.scrolls hline.scrolls⟩
    · have hdevice : ¬ (Device.of t).session.atLastColumn = true := hlast
      rw [if_neg hdevice, if_neg hlast, pure_bind]
      dsimp only
      rw [(hmoved h).eq]
      exact ⟨rfl, (hmoved h).sound, Nat.le_succ_of_le (hmoved h).scrolls⟩
  | backward n =>
    exact (moveCursor_runs h (backward · n) (·.backward n) (backward_eq h.inBounds hcolumns n)
      ⟨rfl, rfl⟩ rfl (Session.inBounds_backward h.inBounds n)).reports
  | position row column =>
    exact (moveCursor_runs h (moveTo · (column.getD 1) row) (·.moveTo (column.getD 1) row)
      (moveTo_eq hcolumns hrows _ row) ⟨rfl, rfl⟩ rfl
      (Session.inBounds_moveTo h.inBounds _ row)).reports
  | eraseDisplay mode =>
    unfold execute Terminal.executeScrolling
    dsimp only
    by_cases hclear : (t.honorsClear && mode = 2) = true
    · have hdevice : ((Device.of t).honorsClear && mode = 2) = true := hclear
      rw [if_pos hdevice, if_pos hclear, Device.session_of, moveTo_eq hcolumns hrows,
        Device.surface_of, Surface.clearAll_of h.roomy]
      exact ⟨rfl, h.change ⟨rfl, rfl⟩ (Session.inBounds_moveTo h.inBounds 1 1) h.dim
        (Screen.sameForm_clearArea ..) rfl, Nat.le_succ _⟩
    · have hdevice : ¬ ((Device.of t).honorsClear && mode = 2) = true := hclear
      rw [if_neg hdevice, if_neg hclear]
      exact ⟨rfl, h, Nat.le_succ _⟩
  | eraseLine =>
    obtain ⟨⟨hx, -, hy, -⟩, -⟩ := h.inBounds
    obtain ⟨hcolumn, hrow⟩ := h.cursor_lt
    refine ⟨?_, h.withScreen (Screen.sameForm_clearArea ..), Nat.le_succ _⟩
    simp only [execute, Device.session_of, Device.surface_of, minus_eq hx, minus_eq hy,
      Surface.clearToEndOfRow_of h.roomy hcolumn hrow, Option.bind_eq_bind, Option.bind_some]
    rfl
  | rendition values =>
    refine ⟨?_, h.withSession ⟨rfl, rfl⟩ h.inBounds (dim_foldl_apply h.dim values), Nat.le_succ _⟩
    simp only [execute, Device.session_of, foldlM_apply, Option.bind_eq_bind, Option.bind_some]
    rfl
  | saveCursor =>
    exact (moveCursor_runs h (pure ·.save) Session.save rfl ⟨rfl, rfl⟩ rfl
      (Session.inBounds_save h.inBounds)).reports
  | restoreCursor =>
    exact (moveCursor_runs h (pure ·.restore) Session.restore rfl ⟨rfl, rfl⟩ rfl
      (Session.inBounds_restore h.inBounds)).reports
  | freeColor paper color =>
    cases paper
    all_goals exact ⟨rfl, h.withSession ⟨rfl, rfl⟩ h.inBounds h.dim, Nat.le_succ _⟩

/-- Whatever has been gathered of a sequence, `accumulate` takes one more byte. -/
theorem accumulate_reports (h : t.Sound columns rows) (sequence : Bytes) (b : UInt8) :
    Reports columns rows (t.scrolls + 1) (accumulate count (.of t) sequence b)
      (t.accumulateScrolling sequence b) := by
  unfold accumulate Terminal.accumulateScrolling
  split
  · rw [parse_eq]
    cases Command.parse? (b :: sequence).reverse with
    | none => exact ⟨rfl, h.withPending none, Nat.le_succ _⟩
    | some command =>
      have hcount : count t.resetEscape.scrolls = some (t.resetEscape.scrolls + 1) := hcount
      exact execute_reports hcount (h.withPending none) command
  · exact ⟨rfl, h.withPending _, Nat.le_succ _⟩

end Counted

end Running

end Machine

end TextArt
