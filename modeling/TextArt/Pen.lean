import TextArt.Palette

namespace TextArt

/-!
# Pens — how the next character is drawn

* `Pen` — the two palette colours, the two free colours that take precedence over
  them, and the three switches;
* `Pen.indices` — the palette indices after inverting and brightening;
* `Pen.look` — the colours of a character and what its cell does on the blink masks.
-/

/-- What drawing a character does to the blink masks of its cell, as `Screen.write` carries it out.
    -/
inductive MaskChange where
  /-- The masks stay as they are, by `keep`. -/
  | keep
  /-- The cell does not blink any more, by `Screen.stopBlink`. -/
  | clear
  /-- The cell blinks: the character on `onPaper`, then a cell of the colour `off`. -/
  | blink (onPaper off : Color)
  deriving DecidableEq, Repr

/-- The colours of one character, which `Pen.look` finds. -/
structure Look where
  ink : Color
  paper : Color
  masks : MaskChange
  deriving DecidableEq, Repr

/-- How the next character is drawn, which `Pen.apply` changes. -/
structure Pen where
  /-- The index of the ink in a `Palette`, before brightening. -/
  foreground : Nat := 7
  /-- The index of the paper in a `Palette`, before brightening. -/
  background : Nat := 0
  /-- An ink from outside the palette, which takes the place of `foreground`. -/
  freeForeground : Option Color := none
  /-- A paper from outside the palette, which takes the place of `background`. -/
  freeBackground : Option Color := none
  bold : Bool := false
  blink : Bool := false
  inverse : Bool := false
  deriving DecidableEq, Inhabited, Repr

namespace Pen

/-- The pen that every drawing begins with, and to which the number zero in `Pen.apply` leads
    back. -/
def initial : Pen := {}

/-- The palette indices of ink and paper: `inverse` swaps the two, and `bold` then brightens the
    ink. -/
def indices (p : Pen) : Nat × Nat :=
  let (ink, paper) :=
    if p.inverse then (p.background, p.foreground) else (p.foreground, p.background)
  (if p.bold then ink + 8 else ink, paper)

/-- The palette index of the paper on the visible surface: where `icecolors` take the place of
    blinking, a pen with `blink` brightens it, unless there is a `freeBackground`. -/
def paperIndex (p : Pen) (icecolors : Bool) : Nat :=
  if p.blink && icecolors && p.freeBackground.isNone then p.indices.2 + 8 else p.indices.2

/-- The change of the masks: `keep` where nothing blinks in principle, and otherwise according to
    the switch `blink`. -/
def maskChange (p : Pen) (palette : Palette) (icecolors : Bool) : MaskChange :=
  if icecolors || p.freeBackground.isSome then .keep
  else if p.blink then .blink (palette.color (p.indices.2 + 8)) (palette.color p.indices.2)
  else .clear

/-- The colours of a character drawn with this pen, by `indices`, `paperIndex` and `maskChange`. -/
def look (p : Pen) (palette : Palette) (icecolors : Bool) : Look where
  ink := p.freeForeground.getD (palette.color p.indices.1)
  paper := p.freeBackground.getD (palette.color (p.paperIndex icecolors))
  masks := p.maskChange palette icecolors

/-- Without bright backgrounds the switch `blink` plays no part in the colours. -/
theorem paperIndex_of_not_icecolors (p : Pen) : p.paperIndex false = p.indices.2 := by
  simp [paperIndex]

/-- A pen with a `freeBackground` never changes the masks. -/
theorem maskChange_of_free {p : Pen} (h : p.freeBackground.isSome) (palette : Palette)
    (icecolors : Bool) : p.maskChange palette icecolors = .keep := by
  simp [maskChange, h]

/-- A cell that blinks goes `off` to its own paper. -/
theorem off_of_maskChange {p : Pen} {palette : Palette} {icecolors : Bool} {onPaper off : Color}
    (h : p.maskChange palette icecolors = .blink onPaper off) :
    off = palette.color p.indices.2 := by
  unfold maskChange at h
  split at h
  · cases h
  · split at h
    · cases h
      rfl
    · cases h

end Pen

end TextArt
