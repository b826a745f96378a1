import TextArt.Proofs.Blinking
import TextArt.Proofs.Frames

namespace TextArt

/-!
# Layers — a frame shows one raster or another, and never a mixture

Colours are mixed only where one that is not solid lies over another.  Every colour that a
character is drawn with is solid, and the masks hold whole cells of solid colours or nothing at
all; so each pixel of a frame is a pixel of the visible raster, or of the mask that lies over it.

* `Pen.Solid` — a pen chooses no colours but solid ones, which every command in a text preserves;
* `Cell.Solid` — a cell was drawn in solid colours, which every character preserves;
* `Screen.Blinks` — a cell of a screen blinks;
* `Terminal.Layered` — the screen of a terminal depicts solid cells and keeps no stale picture;
  `Player.layered_foldl_act` says that nothing that is done to a player changes that;
* `Player.frames_never_blend` — so no frame has a colour that is not on one of the layers.
-/

/-! ### Pens -/

namespace Pen

/-- The free colours of a `Pen`, if it has any, are solid. -/
structure Solid (p : Pen) : Prop where
  ink : ∀ color ∈ p.freeForeground, color.alpha = 255
  paper : ∀ color ∈ p.freeBackground, color.alpha = 255

variable {p : Pen}

theorem solid_initial : initial.Solid where
  ink := fun _ h => nomatch h
  paper := fun _ h => nomatch h

/-- A rendition number takes away free colours, and chooses none, so `Pen.apply` keeps a pen
    `Solid`. -/
theorem Solid.apply (h : p.Solid) (value : Int) : (p.apply value).Solid := by
  have hnone : ∀ color ∈ (none : Option Color), color.alpha = 255 := fun _ h => nomatch h
  unfold Pen.apply
  repeat' split
  all_goals first
    | exact solid_initial
    | exact ⟨h.ink, h.paper⟩
    | exact ⟨hnone, h.paper⟩
    | exact ⟨h.ink, hnone⟩

theorem Solid.foldl_apply (h : p.Solid) (values : List Int) : (values.foldl Pen.apply p).Solid := by
  induction values generalizing p with
  | nil => exact h
  | cons value values ih => exact ih (h.apply value)

/-- A command that chooses a solid colour keeps a pen `Solid`, and so do the others. -/
theorem Solid.onPen (h : p.Solid) {command : Command} (hsolid : command.Solid) :
    (command.onPen p).Solid := by
  cases command with
  | rendition values => exact h.foldl_apply values
  | freeColor paper color =>
    have hsome : ∀ other ∈ some color, other.alpha = 255 := by
      rintro other ⟨⟩
      exact hsolid
    cases paper with
    | true => exact ⟨h.ink, hsome⟩
    | false => exact ⟨hsome, h.paper⟩
  | _ => exact h

variable (palette : Palette) (icecolors : Bool)

theorem Solid.alpha_ink (h : p.Solid) : (p.look palette icecolors).ink.alpha = 255 := by
  show (p.freeForeground.getD _).alpha = 255
  cases hfree : p.freeForeground with
  | none => exact Palette.alpha_color ..
  | some color => exact h.ink color hfree

theorem Solid.alpha_paper (h : p.Solid) : (p.look palette icecolors).paper.alpha = 255 := by
  show (p.freeBackground.getD _).alpha = 255
  cases hfree : p.freeBackground with
  | none => exact Palette.alpha_color ..
  | some color => exact h.paper color hfree

/-- What `maskChange` makes blink does so in colours of the palette, which are solid. -/
theorem alpha_of_maskChange {onPaper off : Color}
    (h : p.maskChange palette icecolors = .blink onPaper off) :
    onPaper.alpha = 255 ∧ off.alpha = 255 := by
  unfold maskChange at h
  split at h
  · cases h
  · split at h
    · cases h
      exact ⟨Palette.alpha_color .., Palette.alpha_color ..⟩
    · cases h

end Pen

/-! ### Cells -/

/-- A character is drawn in solid colours, `ink` and `paper`. -/
structure Face.Solid (f : Face) : Prop where
  ink : f.ink.alpha = 255
  paper : f.paper.alpha = 255

/-- A character blinks in solid colours. -/
structure Blinker.Solid (b : Blinker) : Prop where
  ink : b.ink.alpha = 255
  onPaper : b.onPaper.alpha = 255
  off : b.off.alpha = 255

namespace Cell

/-- All colours that a `Cell` was drawn in are solid. -/
structure Solid (c : Cell) : Prop where
  face : ∀ f ∈ c.face, f.Solid
  blinker : ∀ b ∈ c.blinker, b.Solid

variable {c : Cell} {pen : Pen}

theorem solid_empty : Solid {} where
  face := fun _ h => nomatch h
  blinker := fun _ h => nomatch h

/-- A character that is drawn with a `Solid` pen leaves a `Solid` cell. -/
theorem Solid.write (h : c.Solid) (palette : Palette) (icecolors : Bool) (code : UInt8)
    (hpen : pen.Solid) : (c.write palette icecolors code pen).Solid := by
  have hink := hpen.alpha_ink palette icecolors
  refine ⟨?_, ?_⟩
  · rintro f ⟨⟩
    exact ⟨hink, hpen.alpha_paper palette icecolors⟩
  · intro b hb
    -- the blinker is the old one, or none, or that of the character
    cases hmasks : (pen.look palette icecolors).masks with
    | keep =>
      simp only [Cell.write, hmasks] at hb
      exact h.blinker b hb
    | clear =>
      simp only [Cell.write, hmasks] at hb
      cases hb
    | blink onPaper off =>
      simp only [Cell.write, hmasks] at hb
      obtain ⟨hon, hoff⟩ := Pen.alpha_of_maskChange palette icecolors hmasks
      cases hb
      exact ⟨hink, hon, hoff⟩

/-- The `visible` pixels of a `Solid` cell have an `alpha` of 255. -/
theorem Solid.alpha_visible (h : c.Solid) (font : Font) (palette : Palette) (i j : Nat) :
    (c.visible font palette i j).alpha = 255 := by
  unfold Cell.visible
  cases hface : c.face with
  | none => exact Palette.alpha_color ..
  | some f =>
    have hf := h.face f hface
    show (if font.inked f.code i j then f.ink else f.paper).alpha = 255
    split
    · exact hf.ink
    · exact hf.paper

/-- On a `mask` there is nothing of a cell that has no `blinker`. -/
theorem mask_of_none (h : c.blinker = none) (font : Font) (phase : Phase) (i j : Nat) :
    c.mask font phase i j = .transparent := by
  rw [Cell.mask, h]

/-- On either `mask` all pixels of a `Solid` cell that blinks have an `alpha` of 255. -/
theorem Solid.alpha_mask (h : c.Solid) (hblinker : c.blinker ≠ none) (font : Font)
    (phase : Phase) (i j : Nat) : (c.mask font phase i j).alpha = 255 := by
  obtain ⟨b, hb⟩ := Option.ne_none_iff_exists'.mp hblinker
  have hsolid := h.blinker b hb
  rw [Cell.mask, hb]
  cases phase with
  | on =>
    show (if font.inked b.code i j then b.ink else b.onPaper).alpha = 255
    split
    · exact hsolid.ink
    · exact hsolid.onPaper
  | off => exact hsolid.off

/-- A pixel of a `mask` is solid in the cells that have a `blinker`, and transparent in the
    others. -/
theorem Solid.alpha_mask_iff (h : c.Solid) (font : Font) (phase : Phase) (i j : Nat) :
    (c.mask font phase i j).alpha = 255 ↔ c.blinker ≠ none := by
  constructor
  · intro halpha hnone
    rw [mask_of_none hnone] at halpha
    exact absurd halpha (by decide)
  · intro hblinker
    exact h.alpha_mask hblinker font phase i j

end Cell

/-! ### Screens -/

/-- An `Edit` leaves no picture in `composedLast`. -/
theorem Edit.composedLast_onScreen (font : Font) (palette : Palette) (icecolors : Bool)
    (e : Edit) (s : Screen) : (e.onScreen font palette icecolors s).composedLast = none := by
  cases e with
  | glyph column row code pen =>
    show (s.write font code (pen.look palette icecolors) column row).composedLast = none
    unfold Screen.write
    dsimp only
    cases (pen.look palette icecolors).masks <;> rfl
  | eraseRest column row => rfl
  | eraseAll => rfl
  | scroll => rfl

/-- Edits leave no stale picture: they keep a screen `Fresh`. -/
theorem Screen.Fresh.foldr_onScreen {s : Screen} (h : s.Fresh) (font : Font) (palette : Palette)
    (icecolors : Bool) (edits : List Edit) :
    (edits.foldr (Edit.onScreen font palette icecolors) s).Fresh := by
  cases edits with
  | nil => exact h
  | cons e edits =>
    intro picture hpicture
    rw [List.foldr_cons, Edit.composedLast_onScreen] at hpicture
    cases hpicture

namespace Screen

variable {s u : Screen} {font : Font} {palette : Palette} {columns : Nat} {g : Grid Cell}

/-- Whether a cell of a screen blinks: something of it is on the mask of the `on` phase. -/
def Blinks (s : Screen) (column row : Nat) : Prop :=
  ∃ x y, x / s.cellWidth = column ∧ y / s.cellHeight = row
    ∧ ∃ color, s.onMask.pixel? x y = some color ∧ color ≠ .transparent

namespace Depicts

/-- What a screen `Depicts` does not depend on how it blinks. -/
theorem of_restartBlink (h : s.Depicts font palette columns g)
    (hu : u.restartBlink = s.restartBlink) : u.Depicts font palette columns g where
  rows_eq := (congrArg Screen.rows hu).trans h.rows_eq
  cellWidth_eq := (congrArg Screen.cellWidth hu).trans h.cellWidth_eq
  cellHeight_eq := (congrArg Screen.cellHeight hu).trans h.cellHeight_eq
  background_eq := (congrArg Screen.background hu).trans h.background_eq
  visible := by
    have hvisible : u.visible = s.visible := (congrArg Screen.visible hu).trans rfl
    rw [hvisible]
    exact h.visible
  mask := by
    -- the blink that is started anew touches neither mask
    have hmask : ∀ phase, u.mask phase = s.mask phase := by
      rintro (_ | _)
      · exact (congrArg Screen.onMask hu).trans rfl
      · exact (congrArg Screen.offMask hu).trans rfl
    intro phase
    rw [hmask]
    exact h.mask phase

variable {x y : Nat} {color : Color}

/-- A pixel of a `mask` is that of the cell it lies in. -/
theorem mask_of_pixel? (h : s.Depicts font palette columns g) {phase : Phase}
    (hpixel : (s.mask phase).pixel? x y = some color) :
    Raster.OnCells columns g.rows font.width font.height x y
      ∧ (g.cell (x / s.cellWidth) (y / s.cellHeight)).mask font phase (x % font.width)
          (y % font.height) = color := by
  rw [h.mask phase x y] at hpixel
  split at hpixel
  · next hp =>
    rw [h.cellWidth_eq, h.cellHeight_eq]
    exact ⟨hp, Option.some.inj hpixel⟩
  · cases hpixel

/-- On a screen of `Solid` cells, what is on the `on` mask at all is there in the whole cell, as it
    is on the `off` mask. -/
theorem blinks_iff (h : s.Depicts font palette columns g)
    (hsolid : ∀ column row, (g.cell column row).Solid)
    (hp : Raster.OnCells columns g.rows font.width font.height x y) :
    s.Blinks (x / s.cellWidth) (y / s.cellHeight)
      ↔ (g.cell (x / s.cellWidth) (y / s.cellHeight)).blinker ≠ none := by
  constructor
  · rintro ⟨x', y', hx, hy, color, hpixel, hcolor⟩ hnone
    have hmask : (s.mask .on).pixel? x' y' = some color := hpixel
    obtain ⟨_, hmask⟩ := h.mask_of_pixel? hmask
    rw [hx, hy, Cell.mask_of_none hnone] at hmask
    exact hcolor hmask.symm
  · intro hblinker
    have hpixel := (h.mask .on x y).trans (if_pos hp)
    refine ⟨x, y, rfl, rfl, _, hpixel, fun htransparent => ?_⟩
    -- a transparent pixel is not solid
    rw [h.cellWidth_eq, h.cellHeight_eq] at hblinker
    have halpha := (hsolid _ _).alpha_mask hblinker font .on (x % font.width) (y % font.height)
    have halpha' : (Color.transparent).alpha = 255 := htransparent ▸ halpha
    exact absurd halpha' (by decide)

/-- The `visible` raster of `Solid` cells is solid. -/
theorem alpha_visible (h : s.Depicts font palette columns g)
    (hsolid : ∀ column row, (g.cell column row).Solid)
    (hpixel : s.visible.pixel? x y = some color) : color.alpha = 255 := by
  rw [h.visible x y] at hpixel
  split at hpixel
  · cases hpixel
    exact (hsolid _ _).alpha_visible ..
  · cases hpixel

/-- The masks of `Solid` cells are solid in the cells of which `Blinks` is true, and transparent in
    the others. -/
theorem alpha_mask (h : s.Depicts font palette columns g)
    (hsolid : ∀ column row, (g.cell column row).Solid) {phase : Phase}
    (hpixel : (s.mask phase).pixel? x y = some color) :
    (color.alpha = 255 ∨ color = .transparent)
      ∧ (color.alpha = 255 ↔ s.Blinks (x / s.cellWidth) (y / s.cellHeight)) := by
  obtain ⟨hp, hcolor⟩ := h.mask_of_pixel? hpixel
  rw [h.blinks_iff hsolid hp]
  subst hcolor
  refine ⟨?_, (hsolid _ _).alpha_mask_iff ..⟩
  by_cases hblinker : (g.cell (x / s.cellWidth) (y / s.cellHeight)).blinker = none
  · exact .inr (Cell.mask_of_none hblinker ..)
  · exact .inl ((hsolid _ _).alpha_mask hblinker ..)

/-- A phase of `Solid` cells shows the mask in the cells that blink, and the `visible` raster in the
    others. -/
theorem pixel?_showing (h : s.Depicts font palette columns g)
    (hsolid : ∀ column row, (g.cell column row).Solid) (phase : Phase) (x y : Nat) :
    (s.Blinks (x / s.cellWidth) (y / s.cellHeight) →
      (s.showing (some phase)).frame.1.pixel? x y = (s.mask phase).pixel? x y)
    ∧ (¬ s.Blinks (x / s.cellWidth) (y / s.cellHeight) →
      (s.showing (some phase)).frame.1.pixel? x y = s.visible.pixel? x y) := by
  rw [frame_showing_some, h.pixel?_overlay]
  by_cases hp : Raster.OnCells columns g.rows font.width font.height x y
  · have hmask := (h.mask phase x y).trans (if_pos hp)
    have hvisible := (h.visible x y).trans (if_pos hp)
    rw [h.blinks_iff hsolid hp, if_pos hp, hmask, hvisible]
    rw [h.cellWidth_eq, h.cellHeight_eq]
    constructor
    · intro hblinker
      -- where a cell blinks its mask is solid, and a solid colour hides what it is laid over
      have halpha := (hsolid _ _).alpha_mask hblinker font phase (x % font.width) (y % font.height)
      exact congrArg some (Color.onto_of_alpha_full halpha _)
    · intro hnone
      -- where it does not blink the mask is transparent, and nothing is hidden
      rw [Cell.mask_of_none (not_not.mp hnone), Color.transparent_onto]
      rfl
  · -- off the screen there is nothing on any raster
    have hmask := (h.mask phase x y).trans (if_neg hp)
    have hvisible := (h.visible x y).trans (if_neg hp)
    rw [if_neg hp, hmask, hvisible]
    exact ⟨fun _ => rfl, fun _ => rfl⟩

end Depicts

end Screen

/-! ### Terminals -/

/-- No byte that is fed leaves a stale picture. -/
theorem Terminal.fresh_feed {t : Terminal} (h : t.screen.Fresh) (b : UInt8)
    (next : Option UInt8) : (t.feed b next).screen.Fresh := by
  rw [feed_eq_after]
  exact h.foldr_onScreen t.font t.palette t.icecolors _

namespace Terminal

/-- The screen of a terminal `Depicts` solid cells, the next character will be drawn in solid
    colours, and no stale picture is kept. -/
structure Layered (columns : Nat) (t : Terminal) : Prop where
  pen : t.session.pen.Solid
  cells : ∃ g : Grid Cell, t.screen.Depicts t.font t.palette columns g
    ∧ ∀ column row, (g.cell column row).Solid
  fresh : t.screen.Fresh

variable {columns : Nat} {t : Terminal}

theorem layered_fresh (font : Font) (palette : Palette) (icecolors honorsClear : Bool)
    (columns rows : Nat) :
    (fresh font palette icecolors honorsClear columns rows).Layered columns where
  pen := Pen.solid_initial
  cells := ⟨_, Screen.depicts_new font palette columns rows, fun _ _ => Cell.solid_empty⟩
  fresh := Screen.fresh_new columns rows font.width font.height (palette.color 0)

namespace Layered

/-- A byte asks for a command that chooses a solid colour, if any, and so for characters in solid
    colours: what was drawn before and after `DrawsWith` solid pens. -/
theorem drawsWith_feed (h : t.Layered columns) (b : UInt8) (next : Option UInt8) :
    (t.script.feed b next).DrawsWith Pen.Solid := by
  have hbefore : t.script.DrawsWith Pen.Solid := ⟨h.pen, fun _ h => nomatch h⟩
  rw [Script.feed_eq_meet]
  exact hbefore.meet fun command hdemand =>
    h.pen.onPen (Command.solid_of_ended? (Demand.ended?_of_ofByte hdemand))

theorem feed (h : t.Layered columns) (b : UInt8) (next : Option UInt8) :
    (t.feed b next).Layered columns := by
  have hdraws := h.drawsWith_feed b next
  obtain ⟨g, hdepicts, hsolid⟩ := h.cells
  -- the edits make cells of cells, and solid ones of solid ones
  have hcells : Grid.Forall₂ (fun c _ => c.Solid) g g := ⟨rfl, fun column row => hsolid column row⟩
  let edited : Grid Cell := (t.script.feed b next).edits.foldr
    (Grid.edit {} (Cell.write t.palette t.icecolors)) g
  have hedited : Grid.Forall₂ (fun c _ => c.Solid) edited edited :=
    hcells.foldr_edit_of Cell.solid_empty
      (fun code (pen : Pen) c _ (hpen : pen.Solid) hc =>
        hc.write t.palette t.icecolors code hpen) hdraws.edits
  refine ⟨?_, ?_, fresh_feed h.fresh b next⟩
  · rw [feed_eq_after]
    exact hdraws.pen
  · rw [feed_eq_after]
    exact ⟨_, hdepicts.foldr_edit t.icecolors _, hedited.cell⟩

/-- The blink changes nothing of being `Layered`, as long as no stale picture is kept. -/
theorem of_restartBlink (h : t.Layered columns) {s : Screen}
    (hs : s.restartBlink = t.screen.restartBlink) (hfresh : s.Fresh) :
    Layered columns { t with screen := s } := by
  obtain ⟨g, hdepicts, hsolid⟩ := h.cells
  exact ⟨h.pen, ⟨g, hdepicts.of_restartBlink hs, hsolid⟩, hfresh⟩

theorem reset (h : t.Layered columns) : t.reset.Layered columns := by
  obtain ⟨g, hdepicts, _⟩ := h.cells
  exact ⟨Pen.solid_initial,
    ⟨_, hdepicts.clearAll.of_restartBlink rfl, fun _ _ => Cell.solid_empty⟩,
    h.fresh.after (.change .reset)⟩

theorem resetPen (h : t.Layered columns) : t.resetPen.Layered columns :=
  ⟨Pen.solid_initial, h.cells, h.fresh⟩

end Layered

end Terminal

namespace Player

/-- A player is made with a `Layered` screen, and no `Act` changes that. -/
theorem layered_foldl_act (file : Bytes) (config : Config) (acts : List Act) :
    ∃ columns, (acts.foldl act (.new file config)).terminal.Layered columns := by
  let columns := config.columnsFor ((ByteStream.ofFile file).record.bind Sauce.columns)
  refine ⟨columns, terminal_foldl_act_preserves (fun t b next h => h.feed b next) (fun t h => ?_)
    (fun t h => ?_) (fun t h => ?_) (fun t h => h.reset) (fun t h => h.resetPen) ?_ acts⟩
  · exact h.of_restartBlink t.screen.restartBlink_merge (h.fresh.after (.change .merge))
  · exact h.of_restartBlink rfl (h.fresh.after (.change .restartBlink))
  · exact h.of_restartBlink t.screen.restartBlink_frame (h.fresh.after .frame)
  · exact Terminal.layered_fresh ..

/-- **Frames never blend.** Do any acts to a player. Every pixel of its `visible` raster is solid;
    every pixel of a `mask` is solid or transparent, and solid just in the cells of which `Blinks`
    is true, which are the same on both masks; every pixel of the `frame` is solid; it is that of
    the visible raster, or that of the shown mask where its cell blinks; and either phase shows its
    mask in the cells that blink, and the visible raster in all others. -/
theorem frames_never_blend (file : Bytes) (config : Config) (acts : List Act) :
    let p := acts.foldl act (.new file config)
    let screen := p.terminal.screen
    let blinks (x y : Nat) := screen.Blinks (x / screen.cellWidth) (y / screen.cellHeight)
    (∀ x y color, screen.visible.pixel? x y = some color → color.alpha = 255)
    ∧ (∀ phase x y color, (screen.mask phase).pixel? x y = some color →
        (color.alpha = 255 ∨ color = .transparent) ∧ (color.alpha = 255 ↔ blinks x y))
    ∧ (∀ x y color, p.frame.1.pixel? x y = some color → color.alpha = 255)
    ∧ (∀ x y, p.frame.1.pixel? x y = screen.visible.pixel? x y
        ∨ ∃ phase ∈ screen.shown, blinks x y
          ∧ p.frame.1.pixel? x y = (screen.mask phase).pixel? x y)
    ∧ ∀ phase x y,
        (blinks x y →
          (screen.showing (some phase)).frame.1.pixel? x y = (screen.mask phase).pixel? x y)
        ∧ (¬ blinks x y →
          (screen.showing (some phase)).frame.1.pixel? x y = screen.visible.pixel? x y) := by
  intro p screen blinks
  obtain ⟨columns, hlayered⟩ := layered_foldl_act file config acts
  obtain ⟨g, hdepicts, hsolid⟩ := hlayered.cells
  have hvisible : ∀ x y color, screen.visible.pixel? x y = some color → color.alpha = 255 :=
    fun x y color => hdepicts.alpha_visible hsolid
  have hmask : ∀ phase x y color, (screen.mask phase).pixel? x y = some color →
      (color.alpha = 255 ∨ color = .transparent) ∧ (color.alpha = 255 ↔ blinks x y) :=
    fun phase x y color => hdepicts.alpha_mask hsolid
  have hphase := hdepicts.pixel?_showing hsolid
  -- the kept picture is not stale, so the frame is that of the masks of now
  have hframe : p.frame.1 = (screen.showing screen.shown).frame.1 :=
    Screen.frame_fst_of_fresh hlayered.fresh
  have hexact : ∀ x y, p.frame.1.pixel? x y = screen.visible.pixel? x y
      ∨ ∃ phase ∈ screen.shown, blinks x y
        ∧ p.frame.1.pixel? x y = (screen.mask phase).pixel? x y := by
    intro x y
    rw [hframe]
    cases hshown : screen.shown with
    | none => exact .inl (by rw [Screen.frame_showing_none])
    | some phase =>
      by_cases hblinks : blinks x y
      · exact .inr ⟨phase, rfl, hblinks, (hphase phase x y).1 hblinks⟩
      · exact .inl ((hphase phase x y).2 hblinks)
  -- the frame is exact, and both rasters it can come from are solid there
  refine ⟨hvisible, hmask, fun x y color hpixel => ?_, hexact, hphase⟩
  rcases hexact x y with heq | ⟨phase, -, hblinks, heq⟩
  · exact hvisible x y color (heq ▸ hpixel)
  · exact (hmask phase x y color (heq ▸ hpixel)).2.mpr hblinks

end Player

end TextArt
