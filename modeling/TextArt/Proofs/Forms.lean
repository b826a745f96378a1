import TextArt.Proofs.Acts
import TextArt.Proofs.Cells
import TextArt.Proofs.Demands
import TextArt.Proofs.Replay

namespace TextArt

/-!
# Forms — what stays of a terminal, whatever is drawn

Bytes move the cursor, change the pen and fill cells, but the screen keeps its size, and so does
the session.  A terminal that is reset has nothing left but that, and the saved place of its
cursor.

* `Screen.SameForm`, `Terminal.SameForm` — two screens, or terminals, are made in the same way,
  whatever is on them;
* `Terminal.SameForm.reset_eq` — terminals of one form are the same once they are reset, but for
  the saved place of the cursor;
* `Terminal.blank` — a terminal in its first state, which a reset leaves as it is;
* `Terminal.sameForm_feed` — no byte changes the form;
* `Player.terminal_foldl_act_preserves` — what bytes, resets and the blink preserve of a
  terminal, everything that is done to its player preserves;
* `Player.sameForm_foldl_act` — so the form is the one that the player was made with.
-/

/-! ### Screens -/

namespace Raster

variable {r s u : Raster}

theorem SameSize.refl (r : Raster) : r.SameSize r :=
  ⟨rfl, rfl⟩

theorem SameSize.symm (h : r.SameSize s) : s.SameSize r :=
  ⟨h.1.symm, h.2.symm⟩

theorem SameSize.trans (h₁ : r.SameSize s) (h₂ : s.SameSize u) : r.SameSize u :=
  ⟨h₁.1.trans h₂.1, h₁.2.trans h₂.2⟩

/-- What was on a raster does not matter once all of it is filled: after `fill` two of the
    `SameSize` are equal. -/
theorem SameSize.fill_eq (h : r.SameSize s) {width height : Nat} (hwidth : r.width ≤ width)
    (hheight : r.height ≤ height) (c : Color) :
    r.fill 0 0 width height c = s.fill 0 0 width height c := by
  refine ext_pixel ?_ ?_ fun x y => ?_
  · rw [width_fill, width_fill, h.1]
  · rw [height_fill, height_fill, h.2]
  · rw [pixel?_fill, pixel?_fill, ← h.1, ← h.2]
    -- on the raster the rectangle reaches everywhere; off it there is no pixel on either side
    by_cases hon : x < r.width ∧ y < r.height
    · have hinside : Inside 0 0 width height x y ∧ x < r.width ∧ y < r.height := by
        unfold Inside
        omega
      rw [if_pos hinside, if_pos hinside]
    · have hoff : r.width ≤ x ∨ r.height ≤ y := by omega
      have hnone : r.pixel? x y = none := (r.pixel?_eq_none_iff x y).mpr hoff
      have hnone' : s.pixel? x y = none := by
        rw [pixel?_eq_none_iff, ← h.1, ← h.2]
        exact hoff
      rw [if_neg (fun hin => hon hin.2), if_neg (fun hin => hon hin.2), hnone, hnone']

end Raster

namespace Screen

variable {s u v : Screen}

/-- Two screens have cells of one size, as many of them, and the same `background`. -/
structure SameForm (s u : Screen) : Prop where
  columns_eq : s.columns = u.columns
  rows_eq : s.rows = u.rows
  cellWidth_eq : s.cellWidth = u.cellWidth
  cellHeight_eq : s.cellHeight = u.cellHeight
  background_eq : s.background = u.background
  visible : s.visible.SameSize u.visible
  onMask : s.onMask.SameSize u.onMask
  offMask : s.offMask.SameSize u.offMask

/-- The masks of a screen are as large as its picture `visible`. -/
structure Even (s : Screen) : Prop where
  onMask : s.onMask.SameSize s.visible
  offMask : s.offMask.SameSize s.visible

theorem SameForm.refl (s : Screen) : s.SameForm s :=
  ⟨rfl, rfl, rfl, rfl, rfl, .refl _, .refl _, .refl _⟩

theorem SameForm.symm (h : s.SameForm u) : u.SameForm s :=
  ⟨h.columns_eq.symm, h.rows_eq.symm, h.cellWidth_eq.symm, h.cellHeight_eq.symm,
    h.background_eq.symm, h.visible.symm, h.onMask.symm, h.offMask.symm⟩

theorem SameForm.trans (h₁ : s.SameForm u) (h₂ : u.SameForm v) : s.SameForm v where
  columns_eq := h₁.columns_eq.trans h₂.columns_eq
  rows_eq := h₁.rows_eq.trans h₂.rows_eq
  cellWidth_eq := h₁.cellWidth_eq.trans h₂.cellWidth_eq
  cellHeight_eq := h₁.cellHeight_eq.trans h₂.cellHeight_eq
  background_eq := h₁.background_eq.trans h₂.background_eq
  visible := h₁.visible.trans h₂.visible
  onMask := h₁.onMask.trans h₂.onMask
  offMask := h₁.offMask.trans h₂.offMask

theorem SameForm.even (h : s.SameForm u) (heven : u.Even) : s.Even where
  onMask := (h.onMask.trans heven.onMask).trans h.visible.symm
  offMask := (h.offMask.trans heven.offMask).trans h.visible.symm

/-- Screens of the `SameForm` are equal after `reset`. -/
theorem SameForm.reset_eq (h : s.SameForm u) (heven : u.Even) : s.reset = u.reset := by
  have hvisible : s.visible.fill 0 0 s.visible.width s.visible.height s.background
      = u.visible.fill 0 0 u.visible.width u.visible.height u.background := by
    rw [h.background_eq, h.visible.1, h.visible.2]
    exact h.visible.fill_eq (Nat.le_of_eq h.visible.1) (Nat.le_of_eq h.visible.2) _
  have honMask : s.onMask.clear 0 0 s.visible.width s.visible.height
      = u.onMask.clear 0 0 u.visible.width u.visible.height := by
    -- the masks are as large as the picture only on one side by assumption, and so on the other
    obtain ⟨hwidth, hheight⟩ := h.onMask.trans heven.onMask
    rw [h.visible.1, h.visible.2]
    exact h.onMask.fill_eq (Nat.le_of_eq hwidth) (Nat.le_of_eq hheight) _
  have hoffMask : s.offMask.clear 0 0 s.visible.width s.visible.height
      = u.offMask.clear 0 0 u.visible.width u.visible.height := by
    obtain ⟨hwidth, hheight⟩ := h.offMask.trans heven.offMask
    rw [h.visible.1, h.visible.2]
    exact h.offMask.fill_eq (Nat.le_of_eq hwidth) (Nat.le_of_eq hheight) _
  unfold reset clearAll clearArea restartBlink
  dsimp only
  rw [hvisible, honMask, hoffMask, h.columns_eq, h.rows_eq, h.cellWidth_eq, h.cellHeight_eq,
    h.background_eq]

theorem sameForm_clearArea (s : Screen) (x y w h : Nat) : (s.clearArea x y w h).SameForm s :=
  ⟨rfl, rfl, rfl, rfl, rfl, ⟨Raster.width_fill .., Raster.height_fill ..⟩,
    ⟨Raster.width_clear .., Raster.height_clear ..⟩,
    ⟨Raster.width_clear .., Raster.height_clear ..⟩⟩

theorem sameForm_reset (s : Screen) : s.reset.SameForm s :=
  { sameForm_clearArea s 0 0 s.visible.width s.visible.height with }

/-- A `new` screen is `Even`: its masks are as large as its picture. -/
theorem even_new (columns rows cellWidth cellHeight : Nat) (background : Color) :
    (new columns rows cellWidth cellHeight background).Even where
  onMask := by
    constructor
    · exact (Raster.width_clear ..).trans (Raster.width_fill ..).symm
    · exact (Raster.height_clear ..).trans (Raster.height_fill ..).symm
  offMask := by
    constructor
    · exact (Raster.width_clear ..).trans (Raster.width_fill ..).symm
    · exact (Raster.height_clear ..).trans (Raster.height_fill ..).symm

/-- A `new` screen is what `reset` makes of it. -/
theorem reset_new (columns rows cellWidth cellHeight : Nat) (background : Color) :
    (new columns rows cellWidth cellHeight background).reset
      = new columns rows cellWidth cellHeight background := by
  let blank := Raster.blank (extent columns cellWidth) (extent rows cellHeight)
  let untouched : Screen :=
    { columns, rows, cellWidth, cellHeight, background
      visible := blank
      onMask := blank
      offMask := blank
      next := .on
      shown := none
      composedLast := none }
  exact untouched.sameForm_reset.reset_eq ⟨.refl _, .refl _⟩

theorem sameForm_write (s : Screen) (font : Font) (code : UInt8) (look : Look)
    (column row : Nat) : (s.write font code look column row).SameForm s := by
  unfold write
  cases look.masks with
  | keep =>
    exact ⟨rfl, rfl, rfl, rfl, rfl, ⟨Raster.width_put .., Raster.height_put ..⟩, .refl _, .refl _⟩
  | clear =>
    exact ⟨rfl, rfl, rfl, rfl, rfl, ⟨Raster.width_put .., Raster.height_put ..⟩,
      ⟨Raster.width_clear .., Raster.height_clear ..⟩,
      ⟨Raster.width_clear .., Raster.height_clear ..⟩⟩
  | blink onPaper off =>
    exact ⟨rfl, rfl, rfl, rfl, rfl, ⟨Raster.width_put .., Raster.height_put ..⟩,
      ⟨Raster.width_put .., Raster.height_put ..⟩, ⟨Raster.width_put .., Raster.height_put ..⟩⟩

theorem sameForm_scroll (s : Screen) : s.scroll.SameForm s := by
  have hshifted : ∀ r : Raster, (r.shiftUp s.cellHeight).SameSize r := fun r =>
    ⟨Raster.width_shiftUp .., Raster.height_shiftUp ..⟩
  exact (sameForm_clearArea _ _ _ _ _).trans
    ⟨rfl, rfl, rfl, rfl, rfl, hshifted s.visible, hshifted s.onMask, hshifted s.offMask⟩

end Screen

namespace Edit

variable (font : Font) (palette : Palette) (icecolors : Bool)

theorem sameForm_onScreen (e : Edit) (s : Screen) :
    (e.onScreen font palette icecolors s).SameForm s := by
  cases e with
  | glyph column row code pen => exact s.sameForm_write ..
  | eraseRest column row => exact s.sameForm_clearArea ..
  | eraseAll => exact s.sameForm_clearArea ..
  | scroll => exact s.sameForm_scroll

theorem sameForm_foldr_onScreen (edits : List Edit) (s : Screen) :
    (edits.foldr (Edit.onScreen font palette icecolors) s).SameForm s := by
  induction edits with
  | nil => exact .refl s
  | cons e edits ih => exact (e.sameForm_onScreen font palette icecolors _).trans ih

end Edit

/-! ### Terminals -/

namespace Script

variable (c : Script)

/-- What a `Script` goes by, whatever it notes down: whether it `honorsClear`, and the size of the
    session. -/
def form (c : Script) : Bool × Nat × Nat :=
  (c.honorsClear, c.session.columns, c.session.rows)

theorem form_meet (demand : Demand) : (c.meet demand).form = c.form := by
  have hform : ∀ (c : Script) cursor saved pen scrolls edits, form
      { c with session := { c.session with cursor, saved, pen }, scrolls, edits } = form c :=
    fun _ _ _ _ _ _ => rfl
  cases demand with
  | note pending => rfl
  | obey command => exact execute_keeps hform { c with pending := none } command
  | newLine => exact newLine_keeps hform c
  | draw code => exact draw_keeps hform c code

end Script

namespace Terminal

variable {t u v : Terminal}

/-- Two terminals draw in the same way, in sessions and on screens of one size. -/
structure SameForm (t u : Terminal) : Prop where
  font_eq : t.font = u.font
  palette_eq : t.palette = u.palette
  icecolors_eq : t.icecolors = u.icecolors
  script_eq : t.script.form = u.script.form
  screen : t.screen.SameForm u.screen

theorem SameForm.trans (h₁ : t.SameForm u) (h₂ : u.SameForm v) : t.SameForm v where
  font_eq := h₁.font_eq.trans h₂.font_eq
  palette_eq := h₁.palette_eq.trans h₂.palette_eq
  icecolors_eq := h₁.icecolors_eq.trans h₂.icecolors_eq
  script_eq := h₁.script_eq.trans h₂.script_eq
  screen := h₁.screen.trans h₂.screen

/-- Terminals of the `SameForm` are equal after `reset`, but for the place that the session has
    `saved`. -/
theorem SameForm.reset_eq (h : t.SameForm u) (heven : u.screen.Even) :
    t.reset = { u.reset with session := { u.reset.session with saved := t.session.saved } } := by
  obtain ⟨hfont, hpalette, hicecolors, hscript, hscreen⟩ := h
  have hhonorsClear : t.honorsClear = u.honorsClear := congrArg Prod.fst hscript
  have hcolumns : t.session.columns = u.session.columns :=
    congrArg (fun form => form.2.1) hscript
  have hrows : t.session.rows = u.session.rows := congrArg (fun form => form.2.2) hscript
  unfold reset Session.reset
  dsimp only
  rw [hfont, hpalette, hicecolors, hhonorsClear, hcolumns, hrows, hscreen.reset_eq heven]

/-- A terminal in its first state, for a session of some size on a screen of some size. -/
def blank (font : Font) (palette : Palette) (icecolors honorsClear : Bool)
    (columns rows screenColumns screenRows : Nat) : Terminal :=
  { fresh font palette icecolors honorsClear columns rows with
    screen := .new screenColumns screenRows font.width font.height (palette.color 0) }

/-- A `blank` terminal, which is in its first state, is what `reset` makes of it. -/
theorem reset_blank (font : Font) (palette : Palette) (icecolors honorsClear : Bool)
    (columns rows screenColumns screenRows : Nat) :
    (blank font palette icecolors honorsClear columns rows screenColumns screenRows).reset
      = blank font palette icecolors honorsClear columns rows screenColumns screenRows :=
  congrArg (fun screen =>
      { blank font palette icecolors honorsClear columns rows screenColumns screenRows with
        screen })
    (Screen.reset_new ..)

/-- No byte that is fed to a terminal changes its form. -/
theorem sameForm_feed (t : Terminal) (b : UInt8) (next : Option UInt8) :
    (t.feed b next).SameForm t := by
  have hform : (t.script.feed b next).form = t.script.form := by
    rw [Script.feed_eq_meet]
    exact t.script.form_meet _
  rw [feed_eq_after]
  exact ⟨rfl, rfl, rfl, hform, Edit.sameForm_foldr_onScreen ..⟩

end Terminal

/-! ### Players -/

namespace Player

section

variable {holds : Terminal → Prop}
  (hfeed : ∀ t b next, holds t → holds (t.feed b next))
  (hmerge : ∀ t, holds t → holds { t with screen := t.screen.merge })

include hfeed

theorem terminal_stepChunk_preserves {p : Player} (h : holds p.terminal) :
    holds p.stepChunk.2.terminal := by
  rw [terminal_stepChunk]
  exact (p.terminal.takes_read p.stream p.chunk).preserves hfeed h

include hmerge

theorem terminal_advance_preserves {p : Player} (h : holds p.terminal) (time : Nat) :
    holds (p.advance time).terminal :=
  @advance_keeps p (fun q => holds q.terminal) (fun _ h => h) (fun _ _ h => h)
    (fun _ h => terminal_stepChunk_preserves hfeed h)
    (fun _ h => hmerge _ h) (fun _ h => h) h time

variable (hrestart : ∀ t, holds t → holds { t with screen := t.screen.restartBlink })
  (hframe : ∀ t, holds t → holds { t with screen := t.screen.frame.2 })
  (hreset : ∀ t, holds t → holds t.reset) (hresetPen : ∀ t, holds t → holds t.resetPen)

include hrestart hframe hreset hresetPen

/-- What bytes, resets and the blink preserve of a terminal, any `Act` preserves. The cases are
    those of `Player.act`; an `advance` adds nothing to chunks and phases. -/
theorem terminal_act_preserves {p : Player} (h : holds p.terminal) (a : Act) :
    holds (p.act a).terminal := by
  cases a with
  | play baud waiting reset =>
    have hbegun : holds (if reset then p.terminal.reset else p.terminal.resetPen) := by
      split
      · exact hreset _ h
      · exact hresetPen _ h
    -- the blink is started anew before the first chunk is read
    have hstarted : holds (p.started baud waiting reset).terminal := hrestart _ hbegun
    exact terminal_stepChunk_preserves hfeed hstarted
  | advance time => exact terminal_advance_preserves hfeed hmerge h time
  | renderAll =>
    -- to draw all is to read to the end, from the reset terminal and the beginning of the art
    have htakes := p.terminal.reset.takes_readToEnd (p.stream.seek 0)
    exact htakes.preserves hfeed (hreset _ h)
  | stepChunk => exact terminal_stepChunk_preserves hfeed h
  | mergeBlink => exact hmerge _ h
  | frame => exact hframe _ h
  | cancel run =>
    show holds (p.cancel run).terminal
    unfold cancel
    split <;> exact h
  | stop => exact h
  | load file => exact h
  | snapshot => exact h

theorem terminal_foldl_act_preserves {p : Player} (h : holds p.terminal) (acts : List Act) :
    holds (acts.foldl act p).terminal := by
  refine @List.foldlRecOn _ _ (fun q => holds q.terminal) acts act p h fun q hq a _ => ?_
  exact terminal_act_preserves hfeed hmerge hrestart hframe hreset hresetPen hq a

end

/-- Screens that `restartBlink` makes equal have the `SameForm`. -/
theorem sameForm_of_restartBlink {s u : Screen} (h : s.restartBlink = u.restartBlink) :
    s.SameForm u := by
  have hs : s.SameForm s.restartBlink := { Screen.SameForm.refl s with }
  have hu : u.restartBlink.SameForm u := { Screen.SameForm.refl u with }
  rw [h] at hs
  exact hs.trans hu

/-- Nothing that is done to a player changes the form of its `terminal`. -/
theorem sameForm_foldl_act (p : Player) (acts : List Act) :
    (acts.foldl act p).terminal.SameForm p.terminal := by
  -- every operation leaves the form alone, and forms are transitive
  refine @terminal_foldl_act_preserves (fun t => t.SameForm p.terminal) ?_ ?_ ?_ ?_ ?_ ?_ p
    ⟨rfl, rfl, rfl, rfl, .refl _⟩ acts
  · intro t b next h
    exact (t.sameForm_feed b next).trans h
  · intro t h
    exact { h with screen := (sameForm_of_restartBlink t.screen.restartBlink_merge).trans h.screen }
  · intro t h
    have hrestarted : t.screen.restartBlink.SameForm t.screen := sameForm_of_restartBlink rfl
    exact { h with screen := hrestarted.trans h.screen }
  · intro t h
    exact { h with screen := (sameForm_of_restartBlink t.screen.restartBlink_frame).trans h.screen }
  · intro t h
    exact { h with screen := t.screen.sameForm_reset.trans h.screen }
  · intro t h
    exact { h with }

end Player

end TextArt
