import TextArt.Config
import TextArt.Glyph.Block
import TextArt.Glyph.Drawing
import TextArt.Glyph.Junction

namespace TextArt

/-!
# Fonts — a monochrome cell for every character code

* `Font` — a cell size and the ink of all 256 characters; `Font.inked` reads it;
* `Glyph.ink` — the shape of a character in eight columns: a drawing, a block, a
  junction, or nothing;
* `Glyph.inkNine` — the same in nine columns, where the line characters and solid
  blocks run on into the ninth;
* `Font.preset` — the built-in fonts, the ordinary one standing in for any name that
  is not known;
* `Font.paint` — the pixels of a character in two colours.
-/

namespace Glyph

/-- The shape of a character code in a cell of eight columns and `height` rows, the
    printable characters taken from `drawings`. -/
def ink (drawings : Array Nat) (height : Nat) (code : UInt8) (x y : Nat) : Bool :=
  let c := code.toNat
  if 0x20 ≤ c ∧ c ≤ 0x7E then inked (drawings.getD (c - 0x20) 0) height x y
  else if 0xB3 ≤ c ∧ c ≤ 0xDA then (junctions.getD (c - 0xB3) default).inked height x y
  else match c with
    | 0xB0 => Block.light.inked height x y
    | 0xB1 => Block.medium.inked height x y
    | 0xB2 => Block.dark.inked height x y
    | 0xDB => Block.full.inked height x y
    | 0xDC => Block.lower.inked height x y
    | 0xDD => Block.left.inked height x y
    | 0xDE => Block.right.inked height x y
    | 0xDF => Block.upper.inked height x y
    | 0xFE => Block.square.inked height x y
    | _ => false

/-- The codes whose shape `inkNine` lets run on to the right: lines and solid blocks. -/
def runsOn (code : UInt8) : Bool :=
  0xC0 ≤ code.toNat && code.toNat ≤ 0xDF

/-- The shape of a character code in a cell of nine columns: the ninth repeats the eighth for the
    codes in `runsOn`, and is blank for the others. -/
def inkNine (drawings : Array Nat) (height : Nat) (code : UInt8) (x y : Nat) : Bool :=
  if x < 8 then ink drawings height code x y
  -- only the eighth column is repeated, never a column of the next character
  else runsOn code && ink drawings height code 7 y

end Glyph

/-- The cell size of a font and the `ink` of its characters, cell after cell in code order and row
    after row inside a cell. -/
structure Font where
  name : String
  /-- The columns of a cell; nothing is `inked` right of them. -/
  width : Nat
  /-- The rows of a cell; nothing is `inked` below them. -/
  height : Nat
  ink : Array Bool
  size_ink : ink.size = 256 * height * width

namespace Font

/-- Whether a character has ink at column `x` of row `y`; there is none outside the cell. -/
def inked (f : Font) (code : UInt8) (x y : Nat) : Bool :=
  x < f.width && y < f.height && f.ink.getD ((code.toNat * f.height + y) * f.width + x) false

/-- Without a place there is no ink: nothing is `inked` right of the cell. -/
theorem inked_of_width_le (f : Font) (code : UInt8) {x : Nat} (y : Nat) (h : f.width ≤ x) :
    f.inked code x y = false := by
  simp [inked, Nat.not_lt.2 h]

/-- Nothing is `inked` below the cell. -/
theorem inked_of_height_le (f : Font) (code : UInt8) (x : Nat) {y : Nat} (h : f.height ≤ y) :
    f.inked code x y = false := by
  simp [inked, Nat.not_lt.2 h]

/-- Take down a `shape` of every code into a font, which `inked_ofShapes` reads off again. -/
def ofShapes (name : String) (width height : Nat) (shape : UInt8 → Nat → Nat → Bool) : Font where
  name := name
  width := width
  height := height
  ink := Array.ofFn fun i : Fin (256 * height * width) =>
    shape (UInt8.ofNat (i / width / height)) (i % width) (i / width % height)
  size_ink := Array.size_ofFn

/-- The place of a pixel in `Font.ink` lies inside the ink. -/
theorem place_lt {width height x y : Nat} (code : UInt8) (hx : x < width) (hy : y < height) :
    (code.toNat * height + y) * width + x < 256 * height * width := by
  have hcode : code.toNat < 256 := code.toNat_lt
  have hrow : code.toNat * height + y < 256 * height := by
    calc code.toNat * height + y < code.toNat * height + height := by omega
      _ = (code.toNat + 1) * height := by rw [Nat.add_mul, Nat.one_mul]
      _ ≤ 256 * height := Nat.mul_le_mul_right _ (by omega)
  calc (code.toNat * height + y) * width + x
      < (code.toNat * height + y) * width + width := by omega
    _ = (code.toNat * height + y + 1) * width := by
        rw [Nat.add_mul (code.toNat * height + y) 1, Nat.one_mul]
    _ ≤ 256 * height * width := Nat.mul_le_mul_right _ (by omega)

/-- A font shows the shapes that `ofShapes` took it from, inside the cell. -/
theorem inked_ofShapes (name : String) {width height : Nat} (shape : UInt8 → Nat → Nat → Bool)
    (code : UInt8) {x y : Nat} (hx : x < width) (hy : y < height) :
    (ofShapes name width height shape).inked code x y = shape code x y := by
  have hw : 0 < width := by omega
  have hh : 0 < height := by omega
  have hlt := place_lt code hx hy
  -- dividing by the width and then by the height takes the place apart again
  have hdiv : ((code.toNat * height + y) * width + x) / width = code.toNat * height + y := by
    rw [Nat.mul_comm, Nat.mul_add_div hw, Nat.div_eq_of_lt hx, Nat.add_zero]
  have hmod : ((code.toNat * height + y) * width + x) % width = x := by
    rw [Nat.mul_comm, Nat.mul_add_mod, Nat.mod_eq_of_lt hx]
  have hdiv' : (code.toNat * height + y) / height = code.toNat := by
    rw [Nat.mul_comm, Nat.mul_add_div hh, Nat.div_eq_of_lt hy, Nat.add_zero]
  have hmod' : (code.toNat * height + y) % height = y := by
    rw [Nat.mul_comm, Nat.mul_add_mod, Nat.mod_eq_of_lt hy]
  simp [inked, ofShapes, hx, hy, Array.getD, hlt, hdiv, hmod, hdiv', hmod']

/-- The names of the built-in fonts, which are eight by sixteen and eight by eight pixels a cell. -/
def presets : List String := ["80x25", "80x50"]

/-- Whether a name is one of the `presets`. -/
def isPreset (name : String) : Bool := presets.contains name

/-- A built-in font in the cells of a colour depth: `inkNine` where `bits` asks for nine columns,
    and the `drawings` as they are otherwise. -/
def ofDrawings (name : String) (drawings : Array Nat) (height : Nat) (bits : Bits) : Font :=
  if bits = .nine then ofShapes name 9 height (Glyph.inkNine drawings height)
  else ofShapes name 8 height (Glyph.ink drawings height)

/-- The font of a name, or the `ordinaryFont` if no font has that name. -/
def preset (name : String) (bits : Bits) : Font :=
  if name = "80x50" then ofDrawings "80x50" Glyph.shortDrawings 8 bits
  else ofDrawings "80x25" Glyph.tallDrawings 16 bits

/-- The pixels of a character, row after row, by what is `inked`. -/
def paint (f : Font) (code : UInt8) (ink paper : Color) : Array Color :=
  let first := code.toNat * f.height * f.width
  (f.ink.extract first (first + f.height * f.width)).map fun b => if b then ink else paper

/-- A character from `paint` fills a cell. -/
@[simp] theorem size_paint (f : Font) (code : UInt8) (ink paper : Color) :
    (f.paint code ink paper).size = f.height * f.width := by
  have h : code.toNat * f.height * f.width + f.height * f.width ≤ 256 * f.height * f.width := by
    have hcode : code.toNat + 1 ≤ 256 := code.toNat_lt
    calc code.toNat * f.height * f.width + f.height * f.width
        = (code.toNat + 1) * (f.height * f.width) := by
          rw [Nat.add_mul, Nat.one_mul, Nat.mul_assoc]
      _ ≤ 256 * (f.height * f.width) := Nat.mul_le_mul_right _ hcode
      _ = 256 * f.height * f.width := by rw [Nat.mul_assoc]
  simp only [paint, Array.size_map, Array.size_extract, f.size_ink]
  omega

/-- A character from `paint` has the colour `ink` where it is `inked` and the colour `paper`
    elsewhere. -/
theorem getElem?_paint (f : Font) (code : UInt8) (ink paper : Color) {x y : Nat}
    (hx : x < f.width) (hy : y < f.height) :
    (f.paint code ink paper)[y * f.width + x]?
      = some (if f.inked code x y then ink else paper) := by
  have hlt := place_lt code hx hy
  have hin : y * f.width + x < f.height * f.width := by
    calc y * f.width + x < y * f.width + f.width := by omega
      _ = (y + 1) * f.width := by rw [Nat.add_mul, Nat.one_mul]
      _ ≤ f.height * f.width := Nat.mul_le_mul_right _ hy
  have hplace : code.toNat * f.height * f.width + (y * f.width + x)
      = (code.toNat * f.height + y) * f.width + x := by
    rw [Nat.add_mul, Nat.add_assoc]
  rw [Array.getElem?_eq_getElem (by simpa using hin)]
  simp only [paint, Array.getElem_map, Array.getElem_extract, hplace, inked, hx, hy,
    decide_true, Bool.true_and, Array.getD, f.size_ink, hlt, dif_pos]
  rfl

end Font

end TextArt
