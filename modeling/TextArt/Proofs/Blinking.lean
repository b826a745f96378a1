import TextArt.Proofs.Cells

namespace TextArt

/-!
# Blinking — what is left of a blinking character

A character on paper from the palette settles whether its cell blinks.  One on paper from
outside the palette does not: it leaves the masks as they are, and with them the blink of
the character it was drawn over.

* `Script.strokes` — the characters drawn in every cell since it was last empty;
* `Stroke.blinkLeft` — whether these leave a blink in the cell;
* `Cell.Records` — a cell is what its strokes have made of it, which every edit
  preserves;
* `Reading.masks_transparent_iff` — the masks are transparent just where no blink is
  left;
* `Reading.pixel?_frame_of_latest` — and there every phase shows the latest character.
-/

/-- A character and the `Pen` that it was drawn with. -/
structure Stroke where
  code : UInt8
  pen : Pen
  deriving DecidableEq, Repr

namespace Stroke

/-- The character in its colours, as a `Face`, where blinking is not shown as a bright
    background. -/
def face (palette : Palette) (s : Stroke) : Face where
  code := s.code
  ink := (s.pen.look palette false).ink
  paper := (s.pen.look palette false).paper

/-- Whether a blink is left by some strokes, the latest first. Paper from outside the palette
    (`Pen.freeBackground`) leaves the question to the earlier strokes; any other settles it. -/
def blinkLeft (strokes : List Stroke) : Bool :=
  (strokes.find? fun s => s.pen.freeBackground.isNone).any fun s => s.pen.blink

/-- On paper from the palette, a stroke settles `blinkLeft` by its own `blink`. -/
theorem blinkLeft_cons_of_none {s : Stroke} (h : s.pen.freeBackground = none)
    (strokes : List Stroke) : blinkLeft (s :: strokes) = s.pen.blink := by
  unfold blinkLeft
  rw [List.find?_cons_of_pos (by rw [h]; rfl)]
  rfl

/-- On paper from outside the palette, a stroke leaves `blinkLeft` what it was. -/
theorem blinkLeft_cons_of_some {s : Stroke} {color : Color}
    (h : s.pen.freeBackground = some color) (strokes : List Stroke) :
    blinkLeft (s :: strokes) = blinkLeft strokes := by
  unfold blinkLeft
  rw [List.find?_cons_of_neg (by rw [h]; exact Bool.false_ne_true)]

end Stroke

/-- The strokes in every cell since it was last empty, the latest first, as the fold that a `Script`
    carries. -/
def Script.strokes (c : Script) (rows : Nat) : Grid (List Stroke) :=
  c.grid rows [] fun code pen strokes => ⟨code, pen⟩ :: strokes

namespace Cell

/-- A cell is what some strokes have made of an empty one: it shows the face of the latest of them,
    and blinks if `blinkLeft` says so. -/
structure Records (palette : Palette) (c : Cell) (strokes : List Stroke) : Prop where
  face_eq : c.face = strokes.head?.map (Stroke.face palette)
  isSome_blinker : c.blinker.isSome = Stroke.blinkLeft strokes
  solid : ∀ b, c.blinker = some b → b.off.alpha = 255

variable {palette : Palette} {c : Cell} {strokes : List Stroke}

theorem records_empty (palette : Palette) : Records palette {} [] :=
  ⟨rfl, rfl, fun _ h => nomatch h⟩

/-- A character that is written is one more `Stroke` that the cell `Records`. -/
theorem Records.write (h : c.Records palette strokes) (code : UInt8) (pen : Pen) :
    (c.write palette false code pen).Records palette (⟨code, pen⟩ :: strokes) := by
  refine ⟨rfl, ?_, ?_⟩
  -- whether the cell blinks is settled by the paper first, and only then by the pen
  · cases hfree : pen.freeBackground with
    | some color =>
      have hkeep : (pen.look palette false).masks = .keep :=
        Pen.maskChange_of_free (by rw [hfree]; rfl) palette false
      rw [Stroke.blinkLeft_cons_of_some hfree, ← h.isSome_blinker]
      simp only [Cell.write, hkeep]
    | none =>
      rw [Stroke.blinkLeft_cons_of_none hfree]
      cases hblink : pen.blink with
      | true => simp [Cell.write, Pen.look, Pen.maskChange, hfree, hblink]
      | false => simp [Cell.write, Pen.look, Pen.maskChange, hfree, hblink]
  · intro b hb
    cases hmasks : (pen.look palette false).masks with
    | keep =>
      -- what blinks in the cell is what blinked there before
      simp only [Cell.write, hmasks] at hb
      exact h.solid b hb
    | clear =>
      simp only [Cell.write, hmasks] at hb
      cases hb
    | blink onPaper off =>
      simp only [Cell.write, hmasks, Option.some.injEq] at hb
      subst hb
      show off.alpha = 255
      rw [Pen.off_of_maskChange hmasks, Palette.alpha_color]

/-- A cell shows its latest stroke: `visible` is the `tile` of that stroke's `face`. -/
theorem Records.visible_eq {latest : Stroke} (h : c.Records palette (latest :: strokes))
    (font : Font) : c.visible font palette = (latest.face palette).tile font := by
  rw [Cell.visible, h.face_eq]
  rfl

/-- Both masks of a cell are `transparent` where its strokes have left no blink, and the off mask is
    solid elsewhere. -/
theorem Records.mask_transparent_iff (h : c.Records palette strokes) (font : Font) (i j : Nat) :
    (∀ phase, c.mask font phase i j = .transparent) ↔ Stroke.blinkLeft strokes = false := by
  rw [← h.isSome_blinker]
  constructor
  · intro hclear
    cases hblinker : c.blinker with
    | none => rfl
    | some b =>
      -- the off mask of a blinking cell is all paper, and paper of the palette is solid
      have hoff := hclear .off
      simp only [Cell.mask, hblinker, Blinker.tile] at hoff
      have hsolid := h.solid b hblinker
      rw [hoff] at hsolid
      exact absurd hsolid (by decide)
  · intro hnone phase
    have hblinker : c.blinker = none := Option.not_isSome_iff_eq_none.1 (by rw [hnone]; decide)
    simp only [Cell.mask, hblinker]

end Cell

namespace Screen

/-- The screen with a phase of the blink laid over `visible`, or with none. -/
def showing (s : Screen) (shown : Option Phase) : Screen :=
  { s with shown, composedLast := none }

@[simp] theorem frame_showing_none (s : Screen) : (s.showing none).frame.1 = s.visible := rfl

@[simp] theorem frame_showing_some (s : Screen) (p : Phase) :
    (s.showing (some p)).frame.1 = s.visible.overlay (s.mask p) := by
  cases p <;> rfl

/-- After `merge`, the `frame` is the one `showing` the next phase of the blink. -/
theorem frame_merge (s : Screen) : s.merge.frame.1 = (s.showing (some s.next)).frame.1 := rfl

end Screen

namespace Reading

variable (font : Font) (palette : Palette) (honorsClear : Bool) (columns rows : Nat)
  (s : ByteStream) (n : Nat)

/-- The strokes in every cell after `n` bytes of a stream. -/
def strokesAfter : Grid (List Stroke) :=
  ((Script.fresh columns rows honorsClear).afterBytes n s.rest).strokes rows

/-- The cells of a terminal are what `strokesAfter` has made of them; the induction is that of
    `Grid.Forall₂` along a `Script`. -/
theorem records_strokesAfter :
    Grid.Forall₂ (Cell.Records palette)
      (((Script.fresh columns rows honorsClear).afterBytes n s.rest).cells palette false rows)
      (strokesAfter honorsClear columns rows s n) :=
  (Grid.forall₂_blank (Cell.records_empty palette) rows).foldr_edit (Cell.records_empty palette)
    (fun code pen _ _ h => h.write code pen) _

/-- **Blinks that are left.** After any number of bytes, both masks are transparent at a pixel just
    where the `strokesAfter` in its cell have `blinkLeft` no blink. -/
theorem masks_transparent_iff {x y : Nat}
    (hp : Raster.OnCells columns rows font.width font.height x y) :
    (∀ phase, ((freshAfter font palette false honorsClear columns rows s n).screen.mask
        phase).pixel? x y = some .transparent)
      ↔ Stroke.blinkLeft ((strokesAfter honorsClear columns rows s n).cell (x / font.width)
          (y / font.height)) = false := by
  have hrecords := records_strokesAfter palette honorsClear columns rows s n
  have hcell := hrecords.cell (x / font.width) (y / font.height)
  rw [← hcell.mask_transparent_iff font (x % font.width) (y % font.height)]
  refine forall_congr' fun phase => ?_
  rw [pixel?_mask, if_pos hp, Option.some.injEq]

/-- Where no blink is left, the `latest` stroke is seen in every phase that the screen is
    `showing`. -/
theorem pixel?_frame_of_latest {x y : Nat}
    (hp : Raster.OnCells columns rows font.width font.height x y) {latest : Stroke}
    {earlier : List Stroke}
    (hlatest : (strokesAfter honorsClear columns rows s n).cell (x / font.width)
      (y / font.height) = latest :: earlier)
    (hleft : Stroke.blinkLeft (latest :: earlier) = false) (shown : Option Phase) :
    ((freshAfter font palette false honorsClear columns rows s n).screen.showing
        shown).frame.1.pixel? x y
      = some ((latest.face palette).tile font (x % font.width) (y % font.height)) := by
  have hrecords := records_strokesAfter palette honorsClear columns rows s n
  have hcell := hrecords.cell (x / font.width) (y / font.height)
  rw [hlatest] at hcell
  cases shown with
  | none => rw [Screen.frame_showing_none, pixel?_visible, if_pos hp, hcell.visible_eq]
  | some phase =>
    -- a transparent mask shows what it lies over
    have hclear := (hcell.mask_transparent_iff font (x % font.width) (y % font.height)).2 hleft
    rw [Screen.frame_showing_some, pixel?_overlay, if_pos hp, hclear phase, Color.transparent_onto,
      hcell.visible_eq]

/-- **Steady characters.** Let the `latest` character in a cell not blink. Both masks are
    transparent in the whole cell just if the character is on paper from the palette, or the earlier
    ones have not left a blink (`blinkLeft`); and then the `frame` of every phase shows the
    character. -/
theorem steady_iff {column row : Nat}
    (hcell : Raster.OnCells columns rows font.width font.height (column * font.width)
      (row * font.height))
    {latest : Stroke} {earlier : List Stroke}
    (hlatest : (strokesAfter honorsClear columns rows s n).cell column row = latest :: earlier)
    (hsteady : latest.pen.blink = false) :
    let screen := (freshAfter font palette false honorsClear columns rows s n).screen
    let settled := latest.pen.freeBackground = none ∨ Stroke.blinkLeft earlier = false
    ((∀ phase x y, x / font.width = column → y / font.height = row →
        (screen.mask phase).pixel? x y = some .transparent) ↔ settled)
    ∧ (settled → ∀ shown x y, x / font.width = column → y / font.height = row →
        (screen.showing shown).frame.1.pixel? x y
          = some ((latest.face palette).tile font (x % font.width) (y % font.height))) := by
  intro screen settled
  -- the latest stroke counts only on paper from the palette, and then it is steady
  have hsettled : Stroke.blinkLeft (latest :: earlier) = false ↔ settled := by
    cases hfree : latest.pen.freeBackground with
    | none =>
      rw [Stroke.blinkLeft_cons_of_none hfree]
      exact iff_of_true hsteady (.inl hfree)
    | some color =>
      rw [Stroke.blinkLeft_cons_of_some hfree]
      refine ⟨.inr, fun h => h.resolve_left ?_⟩
      rw [hfree]
      exact Option.some_ne_none color
  constructor
  · rw [← hsettled]
    constructor
    · intro hclear
      -- the first pixel of the cell is enough
      obtain ⟨hw, hh⟩ := hcell.pos
      have hx : column * font.width / font.width = column := Nat.mul_div_cancel _ hw
      have hy : row * font.height / font.height = row := Nat.mul_div_cancel _ hh
      have hleft := (masks_transparent_iff font palette honorsClear columns rows s n hcell).1
        fun phase => hclear phase _ _ hx hy
      rwa [hx, hy, hlatest] at hleft
    · intro hleft phase x y hx hy
      subst hx hy
      rw [← hlatest] at hleft
      exact (masks_transparent_iff font palette honorsClear columns rows s n
        (hcell.of_cell rfl rfl)).2 hleft phase
  · intro h shown x y hx hy
    subst hx hy
    exact pixel?_frame_of_latest font palette honorsClear columns rows s n
      (hcell.of_cell rfl rfl) hlatest (hsettled.2 h) shown

/-- A case of `steady_iff`: a blinking character, and a steady one drawn over it on paper from the
    palette. -/
theorem steady_over_blinking :
    let font := Font.preset "80x25" .eight
    let s := ByteStream.ofFile
      [0x1B, 0x5B, 0x35, 0x6D, 0x41, 0x1B, 0x5B, 0x48, 0x1B, 0x5B, 0x32, 0x35, 0x6D, 0x42]
    let screen := (freshAfter font .ansi false true 4 2 s 14).screen
    Raster.OnCells 4 2 font.width font.height (0 * font.width) (0 * font.height)
    ∧ (strokesAfter true 4 2 s 14).cell 0 0 = [⟨0x42, {}⟩, ⟨0x41, { blink := true }⟩]
    ∧ ∀ phase x y, x / font.width = 0 → y / font.height = 0 →
        (screen.mask phase).pixel? x y = some .transparent := by
  intro font s screen
  have hcell : Raster.OnCells 4 2 font.width font.height (0 * font.width) (0 * font.height) := by
    decide
  have hstrokes : (strokesAfter true 4 2 s 14).cell 0 0
      = [⟨0x42, {}⟩, ⟨0x41, { blink := true }⟩] := by
    decide
  exact ⟨hcell, hstrokes, (steady_iff font .ansi true 4 2 s 14 hcell hstrokes rfl).1.2 (.inl rfl)⟩

/-- The other case of `steady_iff`: a blinking character, and a steady one drawn over it with a
    `freeBackground`. Its cell still blinks. -/
theorem not_transparent_under_steady :
    let font := Font.preset "80x25" .eight
    let s := ByteStream.ofFile
      [0x1B, 0x5B, 0x35, 0x6D, 0x41, 0x1B, 0x5B, 0x48, 0x1B, 0x5B, 0x32, 0x35, 0x6D,
        0x1B, 0x5B, 0x30, 0x3B, 0x31, 0x3B, 0x32, 0x3B, 0x33, 0x74, 0x42]
    let screen := (freshAfter font .ansi false true 4 2 s 24).screen
    (∃ latest earlier, (strokesAfter true 4 2 s 24).cell 0 0 = latest :: earlier
      ∧ latest.pen.blink = false)
    ∧ ¬ ∀ phase x y, x / font.width = 0 → y / font.height = 0 →
        (screen.mask phase).pixel? x y = some .transparent := by
  intro font s screen
  have hcell : Raster.OnCells 4 2 font.width font.height 0 0 := by
    decide
  have hstrokes : (strokesAfter true 4 2 s 24).cell 0 0
      = [⟨0x42, { freeBackground := some (.rgb 1 2 3) }⟩, ⟨0x41, { blink := true }⟩] := by
    decide
  refine ⟨⟨_, _, hstrokes, rfl⟩, fun hclear => ?_⟩
  have hleft := (masks_transparent_iff font .ansi true 4 2 s 24 hcell).1
    fun phase => hclear phase 0 0 (Nat.zero_div _) (Nat.zero_div _)
  rw [Nat.zero_div, Nat.zero_div, hstrokes] at hleft
  exact absurd hleft (by decide)

end Reading

end TextArt
