import TextArt.Proofs.Cells
import TextArt.Proofs.Demands

namespace TextArt

/-!
# Pages — a screen that scrolls, and one so tall that it need not

A text that moves within lines and from a line to the next one fills a page from top to
bottom.  A screen that is too short for the page scrolls and shows its last rows; a taller
one holds all of it.

* `Command.FollowsPage` — a command leaves the line only for the next one;
* `Grid.IsViewOf` — a grid shows the last rows of another one, which drawing, erasing and
  scrolling preserve;
* `Script.IsViewOf` — a script on the short screen shows what another one draws on the tall
  screen, which every demand preserves (`Script.IsViewOf.meet`);
* `Reading.scrolled_eq_page` — so the pictures of the two terminals are the same rows of
  cells.
-/

/-- A command leaves the line of the cursor only for the next line.  `honorsClear` says
    whether the clear-screen escape is obeyed. -/
def Command.FollowsPage (honorsClear : Bool) : Command → Prop
  | forward _ | backward _ | eraseLine | rendition _ | freeColor _ _ => True
  | eraseDisplay mode => (honorsClear && mode = 2) = false
  | up _ | down _ | position _ _ | saveCursor | restoreCursor => False

instance (honorsClear : Bool) : DecidablePred (Command.FollowsPage honorsClear)
  | .forward _ | .backward _ | .eraseLine | .rendition _ | .freeColor _ _ => isTrue trivial
  | .eraseDisplay mode => instDecidableEqBool (honorsClear && mode = 2) false
  | .up _ | .down _ | .position _ _ | .saveCursor | .restoreCursor => isFalse id

/-! ### Grids -/

namespace Grid

variable {α : Type}

/-- A grid shows the rows of another one from `offset` on, below which the other one is
    empty.  A grid without rows is drawn in its first row all the same. -/
structure IsViewOf (empty : α) (offset : Nat) (g k : Grid α) : Prop where
  cell : ∀ column row, row < g.rows → g.cell column row = k.cell column (row + offset)
  below : ∀ column row, max 1 g.rows + offset ≤ row → k.cell column row = empty

variable {empty : α} {offset : Nat} {g k : Grid α}

theorem isViewOf_blank (empty : α) (rows pageRows : Nat) :
    IsViewOf empty 0 (blank rows empty) (blank pageRows empty) :=
  ⟨fun _ _ _ => rfl, fun _ _ _ => rfl⟩

namespace IsViewOf

theorem change (h : g.IsViewOf empty offset k) (column : Nat) {row : Nat}
    (hrow : row < max 1 g.rows) (f : α → α) :
    (g.change column row f).IsViewOf empty offset (k.change column (row + offset) f) := by
  refine ⟨fun i j hj => ?_, fun i j hj => ?_⟩
  · rw [cell_change, cell_change, h.cell i j hj]
    simp only [Nat.add_right_cancel_iff]
  · have hne : ¬ (i = column ∧ j = row + offset) := by
      have : max 1 g.rows + offset ≤ j := hj
      omega
    rw [cell_change, if_neg hne]
    exact h.below i j hj

theorem eraseRest (h : g.IsViewOf empty offset k) (column row : Nat) :
    (g.eraseRest empty column row).IsViewOf empty offset
      (k.eraseRest empty column (row + offset)) := by
  refine ⟨fun i j hj => ?_, fun i j hj => ?_⟩
  · rw [cell_eraseRest, cell_eraseRest, h.cell i j hj]
    simp only [Nat.add_right_cancel_iff]
  · rw [cell_eraseRest, h.below i j hj, ite_self]

/-- `Grid.scroll` moves the view down by a row of the page, which is still empty. -/
theorem scroll (h : g.IsViewOf empty offset k) :
    (g.scroll empty).IsViewOf empty (offset + 1) k := by
  refine ⟨fun i j hj => ?_, fun i j hj => h.below i j ?_⟩
  · have hj : j < g.rows := hj
    rw [cell_scroll, show j + (offset + 1) = j + 1 + offset by omega]
    by_cases hlast : j + 1 < g.rows
    · rw [if_pos hlast]
      exact h.cell i (j + 1) hlast
    · -- the new row of the view is the first one that is still empty
      rw [if_neg hlast]
      exact (h.below i (j + 1 + offset) (by omega)).symm
  · have : max 1 g.rows + (offset + 1) ≤ j := hj
    omega

end IsViewOf

end Grid

/-! ### Scripts -/

namespace Script

/-! Scrolls are counted, and the count never goes down. -/

variable (c : Script)

theorem scrolls_le_newLine : c.scrolls ≤ c.newLine.scrolls := by
  unfold newLine
  dsimp only
  split
  · exact Nat.le_succ _
  · exact Nat.le_refl _

theorem scrolls_le_draw (code : UInt8) : c.scrolls ≤ (c.draw code).scrolls := by
  unfold draw advance
  split
  · exact scrolls_le_newLine (c.drawCell code)
  · exact Nat.le_refl _

theorem scrolls_le_execute (command : Command) : c.scrolls ≤ (c.execute command).scrolls := by
  cases command with
  | forward n =>
    unfold execute
    dsimp only
    split
    · exact c.scrolls_le_newLine
    · exact Nat.le_refl _
  | eraseDisplay mode =>
    unfold execute
    dsimp only
    split <;> exact Nat.le_refl _
  | _ => exact Nat.le_refl _

theorem scrolls_le_meet (demand : Demand) : c.scrolls ≤ (c.meet demand).scrolls := by
  cases demand with
  | note pending => exact Nat.le_refl _
  | obey command => exact scrolls_le_execute { c with pending := none } command
  | newLine => exact c.scrolls_le_newLine
  | draw code => exact c.scrolls_le_draw code

theorem scrolls_le_feed (b : UInt8) (next : Option UInt8) :
    c.scrolls ≤ (c.feed b next).scrolls := by
  rw [feed_eq_meet]
  exact c.scrolls_le_meet _

end Script

/-- A session as it is on a page, of which its screen shows the rows from `offset` on. -/
def Session.onPage (s : Session) (pageRows offset : Nat) : Session :=
  { s with rows := pageRows, cursor := ⟨s.cursor.x, s.cursor.y + offset⟩ }

namespace Script

variable {α : Type}

/-- A `Script` that scrolls shows the last rows of the page of another one that does not. -/
structure IsViewOf (empty : α) (write : UInt8 → Pen → α → α) (honorsClear : Bool)
    (rows pageRows : Nat) (view page : Script) : Prop where
  view_honorsClear : view.honorsClear = honorsClear
  page_honorsClear : page.honorsClear = honorsClear
  pending_eq : page.pending = view.pending
  scrolls_eq : page.scrolls = 0
  session_eq : page.session = view.session.onPage (max 1 pageRows) view.scrolls
  rows_eq : view.session.rows = max 1 rows
  onScreen : 1 ≤ view.session.cursor.y ∧ view.session.cursor.y ≤ max 1 rows
  grid : (view.grid rows empty write).IsViewOf empty view.scrolls
    (page.grid pageRows empty write)

variable {empty : α} {write : UInt8 → Pen → α → α} {honorsClear : Bool} {rows pageRows : Nat}
  {view page : Script}

theorem isViewOf_fresh (empty : α) (write : UInt8 → Pen → α → α) (honorsClear : Bool)
    (columns rows pageRows : Nat) :
    IsViewOf empty write honorsClear rows pageRows (fresh columns rows honorsClear)
      (fresh columns pageRows honorsClear) where
  view_honorsClear := rfl
  page_honorsClear := rfl
  pending_eq := rfl
  scrolls_eq := rfl
  session_eq := rfl
  rows_eq := rfl
  onScreen := ⟨Nat.le_refl 1, Nat.le_max_left ..⟩
  grid := Grid.isViewOf_blank empty rows pageRows

namespace IsViewOf

/-- Moves of the cursor within its row, and changes of the pen, are the same on the page, so a
    `change` of both sessions keeps `IsViewOf`. -/
theorem changeSession (h : IsViewOf empty write honorsClear rows pageRows view page)
    (change : Session → Session)
    (hpage : ∀ s, change (s.onPage (max 1 pageRows) view.scrolls)
      = (change s).onPage (max 1 pageRows) view.scrolls)
    (hrow : (change view.session).cursor.y = view.session.cursor.y)
    (hrows : (change view.session).rows = view.session.rows) :
    IsViewOf empty write honorsClear rows pageRows (view.changeSession change)
      (page.changeSession change) :=
  { h with
    session_eq := by
      show change page.session = _
      rw [h.session_eq, hpage]
      rfl
    rows_eq := hrows.trans h.rows_eq
    onScreen := by
      show 1 ≤ (change view.session).cursor.y ∧ (change view.session).cursor.y ≤ _
      rw [hrow]
      exact h.onScreen }

/-- As long as the page has a next row, `newLine` does not scroll it. -/
theorem newLine_page (h : IsViewOf empty write honorsClear rows pageRows view page)
    (hroom : view.session.cursor.y + view.scrolls < pageRows) :
    page.newLine
      = { page with
          session := { page.session with cursor := ⟨1, page.session.cursor.y + 1⟩ } } := by
  have hnext : ¬ page.session.atLastRow := by
    rw [Session.atLastRow_iff, h.session_eq]
    show ¬ max 1 pageRows ≤ view.session.cursor.y + view.scrolls
    omega
  exact if_neg hnext

/-- Where the screen scrolls for a `newLine`, the page has another row. -/
theorem newLine (h : IsViewOf empty write honorsClear rows pageRows view page)
    (hfits : max 1 rows + view.newLine.scrolls ≤ pageRows) :
    IsViewOf empty write honorsClear rows pageRows view.newLine page.newLine := by
  obtain ⟨hone, hlow⟩ := h.onScreen
  have hscrolls := view.scrolls_le_newLine
  by_cases hlast : view.session.atLastRow
  · -- the screen moves a row down the page, and the cursor stays in its last row
    have hview : view.newLine
        = { view with
            session := { view.session with cursor := { view.session.cursor with x := 1 } }
            scrolls := view.scrolls + 1
            edits := .scroll :: view.edits } := if_pos hlast
    rw [hview] at hfits hscrolls ⊢
    dsimp only at hfits hscrolls
    rw [h.newLine_page (by omega)]
    exact
      { h with
        session_eq := by rw [h.session_eq]; rfl
        grid := h.grid.scroll }
  · -- the cursor moves a row down, on the screen and on the page
    have hview : view.newLine
        = { view with
            session := { view.session with cursor := ⟨1, view.session.cursor.y + 1⟩ } } :=
      if_neg hlast
    have habove : view.session.cursor.y < max 1 rows := by
      rw [Session.atLastRow_iff, h.rows_eq] at hlast
      exact Nat.not_le.mp hlast
    rw [hview] at hfits ⊢
    dsimp only at hfits
    rw [h.newLine_page (by omega)]
    exact
      { h with
        session_eq := by
          rw [h.session_eq]
          simp only [Session.onPage, Nat.add_right_comm]
        onScreen := ⟨Nat.le_add_left .., habove⟩ }

/-- The row of the cursor is further down on the page, by the `scrolls` of the view. -/
theorem row_page (h : IsViewOf empty write honorsClear rows pageRows view page) :
    page.session.cursor.y - 1 = view.session.cursor.y - 1 + view.scrolls := by
  have hone := h.onScreen.1
  rw [h.session_eq]
  show view.session.cursor.y + view.scrolls - 1 = _
  omega

theorem atLastColumn_page (h : IsViewOf empty write honorsClear rows pageRows view page) :
    page.session.atLastColumn = view.session.atLastColumn := by
  rw [h.session_eq]
  rfl

/-- A character is drawn by `drawCell` in the same cell of the page. -/
theorem drawCell (h : IsViewOf empty write honorsClear rows pageRows view page) (code : UInt8) :
    IsViewOf empty write honorsClear rows pageRows (view.drawCell code) (page.drawCell code) := by
  have hrow : view.session.cursor.y - 1 < max 1 (view.grid rows empty write).rows := by
    obtain ⟨hone, hlow⟩ := h.onScreen
    rw [rows_grid]
    omega
  have hgrid := h.grid.change (view.session.cursor.x - 1) hrow (write code view.session.pen)
  refine { h with grid := ?_ }
  show Grid.IsViewOf empty view.scrolls _
    ((page.grid pageRows empty write).change (page.session.cursor.x - 1)
      (page.session.cursor.y - 1) (write code page.session.pen))
  rw [h.row_page, h.session_eq]
  exact hgrid

/-- The rest of a line is erased by `eraseLine` in the same row of the page. -/
theorem eraseLine (h : IsViewOf empty write honorsClear rows pageRows view page) :
    IsViewOf empty write honorsClear rows pageRows (view.execute .eraseLine)
      (page.execute .eraseLine) := by
  refine { h with grid := ?_ }
  show Grid.IsViewOf empty view.scrolls _
    ((page.grid pageRows empty write).eraseRest empty (page.session.cursor.x - 1)
      (page.session.cursor.y - 1))
  rw [h.row_page, h.session_eq]
  exact h.grid.eraseRest ..

/-- The cursor goes on in its row, or to the next line from the last column; both keep
    `IsViewOf`. -/
theorem draw (h : IsViewOf empty write honorsClear rows pageRows view page) (code : UInt8)
    (hfits : max 1 rows + (view.draw code).scrolls ≤ pageRows) :
    IsViewOf empty write honorsClear rows pageRows (view.draw code) (page.draw code) := by
  have hdrawn := h.drawCell code
  unfold Script.draw advance at hfits ⊢
  rw [hdrawn.atLastColumn_page]
  split at hfits
  · next hlast =>
    rw [if_pos hlast, if_pos hlast]
    exact hdrawn.newLine hfits
  · next hlast =>
    rw [if_neg hlast, if_neg hlast]
    exact hdrawn.changeSession (fun s => { s with cursor := { s.cursor with x := s.cursor.x + 1 } })
      (fun _ => rfl) rfl rfl

/-- What a command that `FollowsPage` does to the view, it does to the page. -/
theorem execute (h : IsViewOf empty write honorsClear rows pageRows view page)
    {command : Command} (hfollows : command.FollowsPage honorsClear)
    (hfits : max 1 rows + (view.execute command).scrolls ≤ pageRows) :
    IsViewOf empty write honorsClear rows pageRows (view.execute command)
      (page.execute command) := by
  cases command with
  | forward n =>
    -- in the last column the move begins with a new line, as it does on the page
    unfold Script.execute at hfits ⊢
    dsimp only at hfits ⊢
    rw [h.atLastColumn_page]
    split at hfits
    · next hlast =>
      rw [if_pos hlast, if_pos hlast]
      exact (h.newLine hfits).changeSession (·.forward n) (fun _ => rfl) rfl rfl
    · next hlast =>
      rw [if_neg hlast, if_neg hlast]
      exact h.changeSession (·.forward n) (fun _ => rfl) rfl rfl
  | backward n => exact h.changeSession (·.backward n) (fun _ => rfl) rfl rfl
  | eraseDisplay mode =>
    have hkept : ¬ (honorsClear && mode = 2) = true := by
      rw [hfollows]
      exact Bool.false_ne_true
    unfold Script.execute
    dsimp only
    rw [h.view_honorsClear, h.page_honorsClear, if_neg hkept, if_neg hkept]
    exact h
  | eraseLine => exact h.eraseLine
  | rendition values =>
    exact h.changeSession (fun s => { s with pen := values.foldl Pen.apply s.pen })
      (fun _ => rfl) rfl rfl
  | freeColor paper color =>
    cases paper with
    | true =>
      exact h.changeSession (fun s => { s with pen := { s.pen with freeBackground := some color } })
        (fun _ => rfl) rfl rfl
    | false =>
      exact h.changeSession (fun s => { s with pen := { s.pen with freeForeground := some color } })
        (fun _ => rfl) rfl rfl
  | up | down | position | saveCursor | restoreCursor => exact hfollows.elim

/-- What a `Demand` that is allowed on the page makes of the view, it makes of the page. -/
theorem meet (h : IsViewOf empty write honorsClear rows pageRows view page) {demand : Demand}
    (hfollows : demand.Allowed (Command.FollowsPage honorsClear))
    (hfits : max 1 rows + (view.meet demand).scrolls ≤ pageRows) :
    IsViewOf empty write honorsClear rows pageRows (view.meet demand) (page.meet demand) := by
  cases demand with
  | note pending => exact { h with pending_eq := rfl }
  | obey command =>
    have hended : IsViewOf empty write honorsClear rows pageRows { view with pending := none }
        { page with pending := none } := { h with pending_eq := rfl }
    exact hended.execute (hfollows command rfl).1 hfits
  | newLine => exact h.newLine hfits
  | draw code => exact h.draw code hfits

/-- A byte that follows the page is the same for the view and for the page: `feed` keeps
    `IsViewOf`. -/
theorem feed (h : IsViewOf empty write honorsClear rows pageRows view page) {b : UInt8}
    {next : Option UInt8}
    (hfollows : (Demand.ofByte view.pending b next).Allowed (Command.FollowsPage honorsClear))
    (hfits : max 1 rows + (view.feed b next).scrolls ≤ pageRows) :
    IsViewOf empty write honorsClear rows pageRows (view.feed b next) (page.feed b next) := by
  rw [feed_eq_meet] at hfits ⊢
  rw [feed_eq_meet, h.pending_eq]
  exact h.meet hfollows hfits

theorem skipsNext_page (h : IsViewOf empty write honorsClear rows pageRows view page) (b : UInt8)
    (next : Option UInt8) : page.skipsNext b next = view.skipsNext b next := by
  rw [skipsNext, h.pending_eq]
  rfl

end IsViewOf

/-- A text that follows the page is taken step by step in the same way, on a screen and on a page of
    `pageRows`, with one more row for every time that the screen scrolls. The induction is on the
    number of bytes, and `IsViewOf` is what it carries. -/
theorem isViewOf_iterate_step (empty : α) (write : UInt8 → Pen → α → α) {honorsClear : Bool}
    {columns rows pageRows n : Nat} {text : Bytes}
    (hfollows :
      (fresh columns rows honorsClear).OnlyObeys (Command.FollowsPage honorsClear) n text)
    (hfits : max 1 rows + ((fresh columns rows honorsClear).afterBytes n text).scrolls
      ≤ pageRows) :
    IsViewOf empty write honorsClear rows pageRows
      (step^[n] (fresh columns rows honorsClear, text)).1
      (step^[n] (fresh columns pageRows honorsClear, text)).1
    ∧ (step^[n] (fresh columns pageRows honorsClear, text)).2
      = (step^[n] (fresh columns rows honorsClear, text)).2 := by
  induction n with
  | zero => exact ⟨isViewOf_fresh empty write honorsClear columns rows pageRows, rfl⟩
  | succ n ih =>
    have hbefore := ih (hfollows.of_le (Nat.le_succ n))
    unfold afterBytes at hbefore hfits
    rw [Function.iterate_succ_apply'] at hfits ⊢
    rw [Function.iterate_succ_apply']
    obtain ⟨view, rest, hview⟩ :
      ∃ view rest, step^[n] (fresh columns rows honorsClear, text) = (view, rest) := ⟨_, _, rfl⟩
    obtain ⟨page, restOfPage, hpage⟩ :
      ∃ page rest, step^[n] (fresh columns pageRows honorsClear, text) = (page, rest) :=
        ⟨_, _, rfl⟩
    rw [hview] at hbefore hfits ⊢
    rw [hpage] at hbefore ⊢
    dsimp only at hbefore
    -- the two have the same text left, so they take the same byte or none
    cases rest with
    | nil =>
      obtain ⟨h, rfl⟩ := hbefore hfits
      exact ⟨h, rfl⟩
    | cons b rest =>
      have hfed : max 1 rows + (view.feed b rest.head?).scrolls ≤ pageRows := hfits
      -- the screen has not scrolled more often before the byte than after it
      have hscrolls := view.scrolls_le_feed b rest.head?
      obtain ⟨h, rfl⟩ := hbefore (by omega)
      refine ⟨h.feed (hfollows.allowed_ofByte hview) hfed, ?_⟩
      show (if page.skipsNext b rest.head? then rest.tail else rest) = _
      rw [h.skipsNext_page]
      rfl

end Script

/-! ### Pictures -/

namespace Raster

variable {columns w h : Nat}

/-- Where a page has a pixel, a screen of no more rows has one that is `OnCells` in any of its own
    rows. -/
theorem OnCells.of_rows_le {rows pageRows x y row place : Nat}
    (hp : OnCells columns pageRows w h x y) (hrows : rows ≤ pageRows) (hrow : row < rows)
    (hplace : place < h) : OnCells columns rows w h x (row * h + place) := by
  obtain ⟨hx, _, hfits⟩ := hp
  have hinRows : row * h + place < rows * h := by
    calc row * h + place < row * h + h := Nat.add_lt_add_left hplace _
      _ = (row + 1) * h := (Nat.succ_mul row h).symm
      _ ≤ rows * h := Nat.mul_le_mul_right h hrow
  have hbytes : columns * w * (rows * h) * 4 ≤ columns * w * (pageRows * h) * 4 :=
    Nat.mul_le_mul_right 4 (Nat.mul_le_mul_left _ (Nat.mul_le_mul_right h hrows))
  exact ⟨hx, hinRows, Nat.lt_of_le_of_lt hbytes hfits⟩

/-- A row of cells in a `Tiled` view is its row of cells on the page, as far as the page has
    pixels. -/
theorem Tiled.pixel?_page {α : Type} {empty : α} {offset : Nat} {g k : Grid α} {tile : α → Tile}
    {view page : Raster} (hpage : page.Tiled columns w h (k.map tile))
    (hview : view.Tiled columns w h (g.map tile)) (hgrid : g.IsViewOf empty offset k)
    {rows pageRows : Nat} (hg : g.rows = rows) (hk : k.rows = pageRows)
    (hrows : rows ≤ pageRows) {row place : Nat} (hrow : row < rows) (hplace : place < h)
    (x : Nat) :
    page.pixel? x ((row + offset) * h + place)
      = if OnCells columns pageRows w h x ((row + offset) * h + place) then
          view.pixel? x (row * h + place)
        else none := by
  have hdiv : ∀ r, (r * h + place) / h = r := by
    intro r
    rw [div_eq_iff_between (Nat.zero_lt_of_lt hplace)]
    omega
  have hmod : ∀ r, (r * h + place) % h = place := by
    intro r
    rw [← sub_mul_eq_mod (hdiv r), Nat.add_sub_cancel_left]
  -- on both rasters the pixel is at the same place of its cell, in the row of the cell
  rw [hpage.pixel?_eq hk, hview.pixel?_eq hg]
  by_cases hp : OnCells columns pageRows w h x ((row + offset) * h + place)
  · have hon : OnCells columns rows w h x (row * h + place) :=
      hp.of_rows_le hrows hrow hplace
    rw [if_pos hp, if_pos hp, if_pos hon, hdiv, hdiv, hmod, hmod]
    show some (tile (k.cell (x / w) (row + offset)) (x % w) place)
      = some (tile (g.cell (x / w) row) (x % w) place)
    rw [hgrid.cell _ _ (hg.symm ▸ hrow)]
  · rw [if_neg hp, if_neg hp]

end Raster

namespace Reading

variable (font : Font) (palette : Palette) (icecolors honorsClear : Bool)
  (columns rows pageRows : Nat) (s : ByteStream) (n : Nat)

/-- **A screen that scrolls is a view of a page.** Let a terminal take a stream whose bytes so far
    ask only for commands of which `FollowsPage` is true, and let another one take it on a taller
    screen: one with at least a row more for every time that the first one scrolls, where a screen
    of no rows counts as one of a single row. Then the second never scrolls; its cursor is as much
    further down as the first has `scrolls`, and otherwise their sessions and open sequences are the
    same; and on all three rasters, every row of cells of the first is as far further down on the
    second, unless that has too many pixels to have any. -/
theorem scrolled_eq_page
    (hfollows : OnlyObeys (Command.FollowsPage honorsClear) n
      { terminal := .fresh font palette icecolors honorsClear columns rows, stream := s })
    (hfits : max 1 rows
      + (freshAfter font palette icecolors honorsClear columns rows s n).scrolls ≤ pageRows) :
    let view := freshAfter font palette icecolors honorsClear columns rows s n
    let page := freshAfter font palette icecolors honorsClear columns pageRows s n
    page.scrolls = 0
    ∧ page.session
      = { view.session with
          rows := max 1 pageRows
          cursor := ⟨view.session.cursor.x, view.session.cursor.y + view.scrolls⟩ }
    ∧ page.pending = view.pending
    ∧ ∀ row < rows, ∀ place < font.height, ∀ x,
      let y := row * font.height + place
      let yOnPage := (row + view.scrolls) * font.height + place
      page.screen.visible.pixel? x yOnPage
        = (if Raster.OnCells columns pageRows font.width font.height x yOnPage
            then view.screen.visible.pixel? x y else none)
      ∧ ∀ phase, (page.screen.mask phase).pixel? x yOnPage
        = if Raster.OnCells columns pageRows font.width font.height x yOnPage
            then (view.screen.mask phase).pixel? x y else none := by
  intro view page
  have hview := freshAfter_eq font palette icecolors honorsClear columns rows s n
  have hpage := freshAfter_eq font palette icecolors honorsClear columns pageRows s n
  have hsession : view.session
      = ((Script.fresh columns rows honorsClear).afterBytes n s.rest).session :=
    congrArg Terminal.session hview
  have hscrolls : view.scrolls
      = ((Script.fresh columns rows honorsClear).afterBytes n s.rest).scrolls :=
    congrArg Terminal.scrolls hview
  have hpending : view.pending
      = ((Script.fresh columns rows honorsClear).afterBytes n s.rest).pending :=
    congrArg Terminal.pending hview
  have hscript := (Script.isViewOf_iterate_step {} (Cell.write palette icecolors)
    hfollows.script (hscrolls ▸ hfits)).1
  have hviewDepicts := depicts_freshAfter font palette icecolors honorsClear columns rows s n
  have hpageDepicts := depicts_freshAfter font palette icecolors honorsClear columns pageRows s n
  have hle : rows ≤ pageRows := by omega
  rw [hsession, hscrolls, hpending]
  refine ⟨?_, ?_, ?_, fun row hrow place hplace x => ⟨?_, fun phase => ?_⟩⟩
  · exact (congrArg Terminal.scrolls hpage).trans hscript.scrolls_eq
  · exact (congrArg Terminal.session hpage).trans hscript.session_eq
  · exact (congrArg Terminal.pending hpage).trans hscript.pending_eq
  · exact hpageDepicts.visible.pixel?_page hviewDepicts.visible hscript.grid
      (Script.rows_cells ..) (Script.rows_cells ..) hle hrow hplace x
  · exact (hpageDepicts.mask phase).pixel?_page (hviewDepicts.mask phase) hscript.grid
      (Script.rows_cells ..) (Script.rows_cells ..) hle hrow hplace x

/-- A case of `scrolled_eq_page`: two characters that fill the only row of a screen, the rest of the
    next row erased, and a third character. -/
theorem page_of_three_characters :
    let font := Font.preset "80x25" .eight
    let s := ByteStream.ofFile [0x41, 0x42, 0x1B, 0x5B, 0x4B, 0x43]
    OnlyObeys (Command.FollowsPage true) 6
      { terminal := .fresh font .ansi false true 2 1, stream := s }
    ∧ (freshAfter font .ansi false true 2 1 s 6).scrolls = 1
    ∧ (freshAfter font .ansi false true 2 2 s 6).scrolls = 0
    ∧ (freshAfter font .ansi false true 2 2 s 6).session.cursor = ⟨2, 2⟩
    ∧ ∀ place < font.height, ∀ x,
      (freshAfter font .ansi false true 2 2 s 6).screen.visible.pixel? x (1 * font.height + place)
        = if Raster.OnCells 2 2 font.width font.height x (1 * font.height + place) then
            (freshAfter font .ansi false true 2 1 s 6).screen.visible.pixel? x
              (0 * font.height + place)
          else none := by
  intro font s
  have hfollows : OnlyObeys (Command.FollowsPage true) 6
      { terminal := .fresh font .ansi false true 2 1, stream := s } := by
    decide
  have hscrolled : (freshAfter font .ansi false true 2 1 s 6).scrolls = 1 := by decide
  have hcursor : (freshAfter font .ansi false true 2 1 s 6).session.cursor = ⟨2, 1⟩ := by decide
  have hfits : max 1 1 + (freshAfter font .ansi false true 2 1 s 6).scrolls ≤ 2 := by
    rw [hscrolled]
    decide
  obtain ⟨hscrolls, hsession, -, hpixels⟩ :=
    scrolled_eq_page font .ansi false true 2 1 2 s 6 hfollows hfits
  refine ⟨hfollows, hscrolled, hscrolls, ?_, fun place hplace x => ?_⟩
  · rw [hsession, hscrolled, hcursor]
  · have hpixel := (hpixels 0 Nat.one_pos place hplace x).1
    rw [hscrolled] at hpixel
    exact hpixel

end Reading

end TextArt
