import TextArt.Proofs.Machine.Numbers
import TextArt.Terminal

namespace TextArt

/-!
# Sessions of a machine — cursor and pen

The moves of the cursor and the colours of a pen, computed with the numbers of a machine.  How far
a cursor moves may be any number: the sum is cut to the numbers that there are, and the place is
then looked for in a range that must not be inverted.  A colour is looked up in a table of sixteen,
so an index has to be one of the table.

* `Machine.moveTo`, `Machine.up` and their like — the moves; `Machine.indices`, `Machine.look` — the
  colours of a pen; `Machine.apply` — a rendition number;
* `Machine.moveTo_eq`, `Machine.up_eq` and their like — on a screen that is not larger than the
  largest one no move fails, a screen of one row included;
* `Pen.Dim.indices_le`, `Pen.Dim.paperIndex_le` — the indices that a dim pen asks for are in the
  table; `Machine.look_eq`, `Machine.apply_eq` say that its colours are found.
-/

/-! ### The indices of a dim pen -/

namespace Pen.Dim

variable {p : Pen}

/-- Inverting and brightening stay in the table, and leave room for brightening the paper: these are
    the bounds for the `indices` of a `Dim` pen. -/
theorem indices_le (h : p.Dim) : p.indices.1 ≤ 15 ∧ p.indices.2 ≤ 7 := by
  obtain ⟨hforeground, hbackground⟩ := h
  unfold indices
  cases p.inverse <;> cases p.bold
  all_goals
    simp only [Bool.false_eq_true, if_false, if_true]
    omega

theorem paperIndex_le (h : p.Dim) (icecolors : Bool) : p.paperIndex icecolors ≤ 15 := by
  have hpaper := h.indices_le.2
  unfold paperIndex
  split <;> omega

end Pen.Dim

namespace Machine

/-! ### Moves -/

/-- Go to a place by `clamp` in both coordinates. -/
def moveTo (s : Session) (x y : Int) : Option Session := do
  let x ← clamp x 1 s.columns
  let y ← clamp y 1 s.rows
  pure { s with cursor := ⟨x, y⟩ }

/-- Let the row of the cursor be another one, at most `last`. -/
def vertical (s : Session) (row : Int → Int) (last : Nat) : Option Session := do
  let y ← long s.cursor.y
  let y ← clamp (saturated (row y)) 1 last
  pure { s with cursor := { s.cursor with y } }

/-- Let the column of the cursor be another one, in numbers that `long` can hold. -/
def horizontal (s : Session) (column : Int → Int) : Option Session := do
  let x ← long s.cursor.x
  let x ← clamp (saturated (column x)) 1 s.columns
  pure { s with cursor := { s.cursor with x } }

/-- Go up, as `Session.up` does. -/
def up (s : Session) (n : Int) : Option Session :=
  vertical s (· - n) s.rows

/-- Go down, at most to the row above the last one, as `Session.down` does. -/
def down (s : Session) (n : Int) : Option Session := do
  let last ← minus s.rows 1
  vertical s (· + n) last

/-- Go right, as `Session.forward` does. -/
def forward (s : Session) (n : Int) : Option Session :=
  horizontal s (· + n)

/-- Go left, as `Session.backward` does. -/
def backward (s : Session) (n : Int) : Option Session :=
  horizontal s (· - n)

section Moves

variable {s : Session}

theorem moveTo_eq (hcolumns : s.columns ≤ maxColumns) (hrows : s.rows ≤ maxRows) (x y : Int) :
    moveTo s x y = some (s.moveTo x y) := by
  have hcolumn : s.columns < 2 ^ 63 := Nat.lt_of_le_of_lt hcolumns (by decide)
  have hrow : s.rows < 2 ^ 63 := Nat.lt_of_le_of_lt hrows (by decide)
  rw [moveTo, clamp_one x hcolumn, clamp_one y hrow]
  rfl

theorem vertical_eq (h : s.InBounds) (hrows : s.rows ≤ maxRows) (row : Int → Int) {last : Nat}
    (hlast : last ≤ s.rows) :
    vertical s row last
      = some { s with cursor := { s.cursor with y := nearest (row s.cursor.y) last } } := by
  obtain ⟨⟨-, -, -, hy⟩, -⟩ := h
  have hsmall : maxRows < 2 ^ 63 := by decide
  have hrow : long s.cursor.y = some (s.cursor.y : Int) := long_eq (by omega)
  rw [vertical, hrow, Option.bind_eq_bind, Option.bind_some, clamp_one _ (by omega),
    nearest_saturated _ (by omega)]
  rfl

theorem horizontal_eq (h : s.InBounds) (hcolumns : s.columns ≤ maxColumns) (column : Int → Int) :
    horizontal s column
      = some { s with cursor := { s.cursor with x := nearest (column s.cursor.x) s.columns } } := by
  obtain ⟨⟨-, hx, -, -⟩, -⟩ := h
  have hsmall : maxColumns < 2 ^ 63 := by decide
  have hcolumn : long s.cursor.x = some (s.cursor.x : Int) := long_eq (by omega)
  rw [horizontal, hcolumn, Option.bind_eq_bind, Option.bind_some, clamp_one _ (by omega),
    nearest_saturated _ (by omega)]
  rfl

theorem up_eq (h : s.InBounds) (hrows : s.rows ≤ maxRows) (n : Int) : up s n = some (s.up n) :=
  vertical_eq h hrows (· - n) (Nat.le_refl _)

/-- There is a row to stay below in `down`, since there is a row. -/
theorem down_eq (h : s.InBounds) (hrows : s.rows ≤ maxRows) (n : Int) :
    down s n = some (s.down n) := by
  obtain ⟨⟨-, -, hy, hlast⟩, -⟩ := id h
  rw [down, minus_eq (Nat.le_trans hy hlast), Option.bind_eq_bind, Option.bind_some]
  exact vertical_eq h hrows (· + n) (Nat.sub_le _ _)

theorem forward_eq (h : s.InBounds) (hcolumns : s.columns ≤ maxColumns) (n : Int) :
    forward s n = some (s.forward n) :=
  horizontal_eq h hcolumns (· + n)

theorem backward_eq (h : s.InBounds) (hcolumns : s.columns ≤ maxColumns) (n : Int) :
    backward s n = some (s.backward n) :=
  horizontal_eq h hcolumns (· - n)

end Moves

/-! ### Pens -/

/-- The palette indices of ink and paper, as `Pen.indices` has them. -/
def indices (p : Pen) : Option (Nat × Nat) := do
  let (ink, paper) :=
    if p.inverse then (p.background, p.foreground) else (p.foreground, p.background)
  let ink ← if p.bold then byte (ink + 8) else pure ink
  pure (ink, paper)

/-- The colour at an `index` of the table; `none` if there is no such place. -/
def color (palette : Palette) (index : Nat) : Option Color :=
  palette.colors.toList[index]?

/-- A colour from outside the palette, or else the one at an `index`. -/
def freeOr (free : Option Color) (palette : Palette) (index : Nat) : Option Color :=
  match free with
  | some color => pure color
  | none => color palette index

/-- The index of the paper on the visible surface, by the index of the `paper`. -/
def paperIndex (p : Pen) (icecolors : Bool) (paper : Nat) : Option Nat :=
  if p.blink && icecolors && p.freeBackground.isNone then byte (paper + 8) else pure paper

/-- The `MaskChange` by a pen whose paper has an index. -/
def maskChange (p : Pen) (palette : Palette) (icecolors : Bool) (paper : Nat) :
    Option MaskChange :=
  if icecolors || p.freeBackground.isSome then pure .keep
  else if p.blink then do
    let bright ← byte (paper + 8)
    let onPaper ← color palette bright
    let off ← color palette paper
    pure (.blink onPaper off)
  else pure .clear

/-- The colours of a character, as a `Look`. -/
def look (p : Pen) (palette : Palette) (icecolors : Bool) : Option Look := do
  let (inkIndex, dimIndex) ← indices p
  let index ← paperIndex p icecolors dimIndex
  let ink ← freeOr p.freeForeground palette inkIndex
  let paper ← freeOr p.freeBackground palette index
  let masks ← maskChange p palette icecolors index
  pure { ink, paper, masks }

/-- The palette index of a rendition number, the numbers of which begin with `base`. -/
def colorIndex (base value : Int) : Option Nat := do
  let index ← long (value - base)
  ofLong UInt8.size index

/-- What a rendition number does to a `Pen`. Only the choice of a colour counts with numbers. -/
def apply (p : Pen) (value : Int) : Option Pen :=
  if 30 ≤ value ∧ value ≤ 37 then do
    let foreground ← colorIndex 30 value
    pure { p with foreground, freeForeground := none }
  else if 40 ≤ value ∧ value ≤ 47 then do
    let background ← colorIndex 40 value
    pure { p with background, freeBackground := none }
  else pure (p.apply value)

section Pens

variable {p : Pen}

theorem indices_eq (h : p.Dim) : indices p = some p.indices := by
  have hsize : UInt8.size = 256 := rfl
  obtain ⟨hforeground, hbackground⟩ := h
  unfold indices Pen.indices
  cases p.inverse <;> cases p.bold
  case true.true => simp [byte_eq (show p.background + 8 < UInt8.size by omega)]
  case false.true => simp [byte_eq (show p.foreground + 8 < UInt8.size by omega)]
  all_goals rfl

theorem color_eq (palette : Palette) {index : Nat} (h : index ≤ 15) :
    color palette index = some (palette.color index) := by
  have hlt : index < palette.colors.toList.length := by
    rw [Vector.length_toList]
    omega
  have hmod : index % 16 = index := Nat.mod_eq_of_lt (by omega)
  rw [color, List.getElem?_eq_getElem hlt, Vector.getElem_toList]
  simp only [Palette.color, hmod]
  rfl

theorem freeOr_eq (free : Option Color) (palette : Palette) {index : Nat} (h : index ≤ 15) :
    freeOr free palette index = some (free.getD (palette.color index)) := by
  cases free with
  | some color => rfl
  | none => exact color_eq palette h

theorem maskChange_eq (h : p.Dim) (palette : Palette) (icecolors : Bool) :
    maskChange p palette icecolors (p.paperIndex icecolors)
      = some (p.maskChange palette icecolors) := by
  have hpaper := h.indices_le.2
  have hsize : UInt8.size = 256 := rfl
  unfold maskChange Pen.maskChange
  split
  · rfl
  · next hkept =>
    -- without bright backgrounds the paper is dim, and there is a brighter one
    obtain ⟨rfl, -⟩ : icecolors = false ∧ p.freeBackground.isSome = false := by simpa using hkept
    split
    · rw [p.paperIndex_of_not_icecolors, byte_eq (by omega), Option.bind_eq_bind,
        Option.bind_some, color_eq palette (by omega), color_eq palette (by omega)]
      rfl
    · rfl

/-- The colours of a `Dim` pen are in the table, so `look` does not fail. -/
theorem look_eq (h : p.Dim) (palette : Palette) (icecolors : Bool) :
    look p palette icecolors = some (p.look palette icecolors) := by
  have hsize : UInt8.size = 256 := rfl
  have hpaper := h.indices_le.2
  have hindex : paperIndex p icecolors p.indices.2 = some (p.paperIndex icecolors) := by
    unfold paperIndex Pen.paperIndex
    -- to brighten the paper of a dim pen stays in the table, and so in a byte
    split
    · exact byte_eq (by omega)
    · rfl
  rw [look, indices_eq h]
  simp only [Option.bind_eq_bind, Option.bind_some]
  rw [hindex, Option.bind_some, freeOr_eq _ _ h.indices_le.1, Option.bind_some,
    freeOr_eq _ _ (h.paperIndex_le icecolors), Option.bind_some, maskChange_eq h]
  rfl

theorem colorIndex_eq {base value : Int} (h : base ≤ value ∧ value ≤ base + 7) :
    colorIndex base value = some (value - base).toNat := by
  have hsmall : (value - base).toNat < 256 := by omega
  rw [colorIndex, long_eq (by omega), Option.bind_eq_bind, Option.bind_some,
    ofLong_eq (by omega) hsmall]

/-- Rendition numbers never ask too much of a machine: `apply` does not fail. -/
theorem apply_eq (p : Pen) (value : Int) : apply p value = some (p.apply value) := by
  unfold apply
  split
  -- the tests for the other numbers come first, and none of them is in either range
  · next hink =>
    rw [colorIndex_eq (by omega), Pen.apply, if_neg (by omega), if_neg (by omega),
      if_neg (by omega), if_neg (by omega), if_neg (by omega), if_neg (by omega),
      if_neg (by omega), if_pos hink]
    rfl
  · split
    · next hink hpaper =>
      rw [colorIndex_eq (by omega), Pen.apply, if_neg (by omega), if_neg (by omega),
        if_neg (by omega), if_neg (by omega), if_neg (by omega), if_neg (by omega),
        if_neg (by omega), if_neg hink, if_pos hpaper]
      rfl
    · rfl

end Pens

end Machine

end TextArt
