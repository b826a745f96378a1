import TextArt.Options
import TextArt.Palette

namespace TextArt

/-!
# Configuration — options after checking

* `Config` — the checked form of `Options`: every field has a value that the rest of
  the library can use as it stands;
* `Config.ofOptions` — checking never fails, a wish that cannot be granted counts as
  unset;
* `Config.columnsFor` — the width of the screen, given the width that the art itself
  declares;
* `Config.columnsFor_pos`, `Config.columnsFor_le` and their fellows for rows — the
  sizes of a screen lie between one cell and the largest screen.
-/

/-- The widest screen, in cells; see `columnsFor_le`. -/
def maxColumns : Nat := 512

/-- The tallest screen, in cells; see `rows_ofOptions_le`. -/
def maxRows : Nat := 256

/-- The width of a screen that nobody asked for; see `columnsFor`. -/
def ordinaryColumns : Nat := 80

/-- The width of a screen of the editor mode `"ced"`; see `columnsFor`. -/
def editorColumns : Nat := 78

/-- The height of a screen that nobody asked for; see `Config.rows`. -/
def ordinaryRows : Nat := 26

/-- The font that stands in for an unset or unknown one, as in `Config.fontName`. -/
def ordinaryFont : String := "80x25"

/-- Checked render settings, in which every field of `Options` has a value. -/
structure Config where
  /-- Blinking is shown as a bright background, by `Pen.paperIndex`. -/
  icecolors : Bool
  /-- The colour depth; see `Palette.ofBits` and `Font.preset`. -/
  bits : Bits
  /-- The width in cells, if the user chose one; `columnsFor` chooses otherwise. -/
  columns : Option Nat
  /-- The name of the font, not necessarily of one that exists; see `Font.preset`. -/
  font : String
  /-- The level of reduction, for `Raster.blockFactor`; zero keeps the full size. -/
  thumbnail : Nat
  /-- The picture is meant for a display of double density; see `Picture.doubleDensity`. -/
  doubleDensity : Bool
  /-- Bare pixels are written in place of an encoded picture; see `Artifact.pixels`. -/
  imageData : Bool
  /-- The height in cells, which is at most `maxRows`. -/
  rows : Nat
  /-- The clear-screen escape is obeyed, by `Screen.clearAll`. -/
  honorsClear : Bool
  /-- The kind of file, `"ans"` if nothing else is said. -/
  filetype : String
  /-- The editor the art was drawn with; `columnsFor` asks for it. -/
  mode : Option String
  deriving DecidableEq, Inhabited, Repr

namespace Config

/-- A switch is thrown by the numbers zero and one; all else leaves it `standing` as it was. -/
def switch (value : Option Int) (standing : Bool) : Bool :=
  if value = some 0 then false
  else if value = some 1 then true
  else standing

/-- A size must be positive, and is cut to the `largest` one. -/
def size (value : Option Int) (largest : Nat) : Option Nat :=
  value.bind fun n => if 0 < n then some (min n.toNat largest) else none

/-- A size that `size` grants is at least one. -/
theorem size_pos {value : Option Int} {largest n : Nat} (h : 0 < largest)
    (hn : size value largest = some n) : 0 < n := by
  cases value with
  | none => simp [size] at hn
  | some v =>
    simp only [size, Option.bind_some] at hn
    split at hn
    · cases hn
      omega
    · simp at hn

/-- A size that `size` grants is at most the `largest` one. -/
theorem size_le {value : Option Int} {largest n : Nat}
    (hn : size value largest = some n) : n ≤ largest := by
  cases value with
  | none => simp [size] at hn
  | some v =>
    simp only [size, Option.bind_some] at hn
    split at hn
    · cases hn
      omega
    · simp at hn

/-- The level of reduction is one of the four known levels, and zero for any other `value`. -/
def level (value : Option Int) : Nat :=
  match value with
  | some n => if 0 ≤ n ∧ n ≤ 3 then n.toNat else 0
  | none => 0

/-- An empty font name counts as unset, so that the `ordinaryFont` stands in for it. -/
def fontName (value : Option String) : String :=
  match value with
  | some name => if name = "" then ordinaryFont else name
  | none => ordinaryFont

/-- Grant every wish in the `Options` that can be granted and fill in the rest. -/
def ofOptions (o : Options) : Config where
  icecolors := switch o.icecolors false
  bits := (o.bits.bind Bits.parse?).getD .eight
  columns := size o.columns maxColumns
  font := fontName o.font
  thumbnail := level o.thumbnail
  doubleDensity := switch o.double false
  imageData := switch o.imagedata false
  rows := (size o.rows maxRows).getD ordinaryRows
  honorsClear := switch o.clearScreen true
  filetype := o.filetype.getD "ans"
  mode := o.mode

/-- The settings of a user who asks for nothing: `ofOptions` without wishes. -/
def ordinary : Config := ofOptions {}

/-- The width of a screen for art that declares a width, or none: the user's choice in `columns`
    first, the `declared` width next, and the width of the `mode` last. -/
def columnsFor (c : Config) (declared : Option Nat) : Nat :=
  match c.columns with
  | some n => n
  | none =>
    match declared with
    -- a declared width of zero is one that is not declared
    | some (n + 1) => min (n + 1) maxColumns
    | _ => if c.mode = some "ced" then editorColumns else ordinaryColumns

/-- A screen has at least one column, whatever `columnsFor` chooses by. -/
theorem columnsFor_pos (o : Options) (declared : Option Nat) :
    0 < (ofOptions o).columnsFor declared := by
  unfold columnsFor
  split
  · next n hn => exact size_pos (by decide) hn
  · split
    · exact Nat.lt_min.2 ⟨Nat.succ_pos _, by decide⟩
    · split <;> decide

/-- A screen is never wider than `maxColumns`. -/
theorem columnsFor_le (o : Options) (declared : Option Nat) :
    (ofOptions o).columnsFor declared ≤ maxColumns := by
  unfold columnsFor
  split
  · next n hn => exact size_le hn
  · split
    · exact Nat.min_le_right _ _
    · split <;> decide

/-- A screen has at least one row, whatever `ofOptions` is asked for. -/
theorem rows_ofOptions_pos (o : Options) : 0 < (ofOptions o).rows := by
  simp only [ofOptions]
  cases h : size o.rows maxRows with
  | none => decide
  | some n => exact size_pos (by decide) h

/-- A screen is never taller than `maxRows`. -/
theorem rows_ofOptions_le (o : Options) : (ofOptions o).rows ≤ maxRows := by
  simp only [ofOptions]
  cases h : size o.rows maxRows with
  | none => decide
  | some n => exact size_le h

end Config

end TextArt
