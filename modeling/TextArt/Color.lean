namespace TextArt

/-!
# Colours — straight RGBA and the source-over rule

The value of one pixel on every surface of the library.

* `Color` — four channels of eight bits, alpha last and not premultiplied;
* `Color.transparent` — the value of a pixel that nothing was drawn on;
* `Color.onto` — one colour seen through another, each channel rounded to the
  nearest integer.
-/

/-- A colour of eight bits a channel; `red`, `green` and `blue` are not scaled by `alpha`. -/
structure Color where
  red : UInt8
  green : UInt8
  blue : UInt8
  alpha : UInt8
  deriving DecidableEq, Inhabited, Repr

namespace Color

/-- The colour that hides everything below it, as `onto_of_alpha_full` says, and has these channels.
    -/
def rgb (red green blue : UInt8) : Color := ⟨red, green, blue, 255⟩

@[simp] theorem alpha_rgb (r g b : UInt8) : (rgb r g b).alpha = 255 := rfl

/-- All four channels zero: the value of a pixel that nothing was drawn on, as in `Raster.blank`. -/
def transparent : Color := ⟨0, 0, 0, 0⟩

@[simp] theorem alpha_transparent : transparent.alpha = 0 := rfl

/-- `a / 255` of `top` and the rest of `below`, to the nearest integer. -/
def blend (a top below : UInt8) : UInt8 :=
  UInt8.ofNat ((top.toNat * a.toNat + below.toNat * (255 - a.toNat) + 127) / 255)

/-- The alpha of a colour of alpha `a` laid over one of alpha `below`. -/
def coverage (a below : UInt8) : UInt8 :=
  UInt8.ofNat (a.toNat + (below.toNat * (255 - a.toNat) + 127) / 255)

/-- `top` laid over `below`.  A transparent top shows what is below it and a solid
    one hides it, both exactly; in between every channel is blended by the alpha of
    the top. -/
def onto (top below : Color) : Color :=
  if top.alpha = 0 then below
  else if top.alpha = 255 then top
  else
    { red := blend top.alpha top.red below.red
      green := blend top.alpha top.green below.green
      blue := blend top.alpha top.blue below.blue
      alpha := coverage top.alpha below.alpha }

@[simp] theorem transparent_onto (below : Color) : transparent.onto below = below := rfl

/-- A top without coverage is not seen: `Color.onto` leaves what is below. -/
theorem onto_of_alpha_zero {top : Color} (h : top.alpha = 0) (below : Color) :
    top.onto below = below := by
  simp [onto, h]

/-- A solid top hides what is below it: `Color.onto` leaves nothing of that. -/
theorem onto_of_alpha_full {top : Color} (h : top.alpha = 255) (below : Color) :
    top.onto below = top := by
  simp [onto, h]

@[simp] theorem rgb_onto (r g b : UInt8) (below : Color) :
    (rgb r g b).onto below = rgb r g b :=
  onto_of_alpha_full rfl below

end Color

end TextArt
