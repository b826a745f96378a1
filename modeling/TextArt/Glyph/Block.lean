namespace TextArt.Glyph

/-!
# Blocks — shades and solid areas of a cell

* `Block` — the nine shapes that are given by a rule in place of a drawing;
* `Block.inked` — the rule, for a cell of eight columns and any height.
-/

/-- Shades and solid areas, with their ink in `Block.inked`. -/
inductive Block where
  /-- One pixel in four, each row of them two columns off the one before. -/
  | light
  /-- A chequerboard, in which every other pixel is `inked`. -/
  | medium
  /-- Three pixels in four; the gaps have the pattern of `light`, one column on. -/
  | dark
  /-- The whole cell, which is both `upper` and `lower`. -/
  | full
  /-- The lower half, where the `upper` one is not. -/
  | lower
  /-- The left half, of four columns of the eight. -/
  | left
  /-- The right half, where the `left` one is not. -/
  | right
  /-- The upper half of the cell, rounded down if it has an odd `height`. -/
  | upper
  /-- A small square in the middle, of four columns and half of the `height`. -/
  | square
  deriving DecidableEq, Repr

/-- Whether a shape has ink in column `x` of row `y` of a cell of `height` rows.  The
    pixels of the light shade and the gaps of the dark one step by two columns from
    row to row. -/
def Block.inked (b : Block) (height x y : Nat) : Bool :=
  match b with
  | .light => x % 4 == y % 2 * 2
  | .medium => (x + y) % 2 == 0
  | .dark => x % 4 != 1 + y % 2 * 2
  | .full => true
  | .lower => height / 2 ≤ y
  | .left => x < 4
  | .right => 4 ≤ x
  | .upper => y < height / 2
  | .square => 2 ≤ x && x < 6 && height / 4 ≤ y && y < height - height / 4

/-- Inside a cell the `lower` half is where the `upper` half is not. -/
theorem Block.inked_lower (height x y : Nat) :
    Block.lower.inked height x y = !Block.upper.inked height x y := by
  simp only [Block.inked, ← Nat.not_lt, decide_not]

/-- The `right` half is where the `left` half is not. -/
theorem Block.inked_right (height x y : Nat) :
    Block.right.inked height x y = !Block.left.inked height x y := by
  simp only [Block.inked, ← Nat.not_lt, decide_not]

end TextArt.Glyph
