namespace TextArt

/-!
# Options — what a caller or a settings file asks for

* `Options` — eleven wishes, each of which may be left unset, none of them checked;
* `Options.orElse` — wishes of one source, completed by those of another;
* `Options.orElse_assoc`, `Options.orElse_empty`, `Options.empty_orElse` — completing
  is a monoid with the empty wishes as its unit, so sources may be stacked in order
  of precedence without regard to grouping.

The checked form, in which every field has a value, is `Config`.
-/

/-- Render wishes as they were given; a field that is `none` leaves the choice open. -/
structure Options where
  /-- Bright backgrounds in place of blinking, if it is `some 1`. -/
  icecolors : Option Int := none
  /-- The colour depth, by a name that `Bits.parse?` knows. -/
  bits : Option String := none
  /-- The width of the screen in cells; see `Config.columnsFor`. -/
  columns : Option Int := none
  /-- The font, by a name that `Font.preset` knows. -/
  font : Option String := none
  /-- The level of reduction, for `Raster.blockFactor`. -/
  thumbnail : Option Int := none
  /-- Whether the picture is meant for a display of double density, if it is `some 1`. -/
  double : Option Int := none
  /-- Bare pixels in place of an encoded picture, if it is `some 1`. -/
  imagedata : Option Int := none
  /-- The height of the screen in cells; see `Config.size`. -/
  rows : Option Int := none
  /-- Whether the clear-screen escape is obeyed, unless it is `some 0`. -/
  clearScreen : Option Int := none
  /-- The kind of file, by extension; nothing is made of it but `Config.filetype`. -/
  filetype : Option String := none
  /-- The editor the art was drawn with, of which only `"ced"` has a meaning. -/
  mode : Option String := none
  deriving DecidableEq, Inhabited, Repr

namespace Options

/-- The wishes of `o`, and those of `base` where `o` has none. -/
def orElse (o base : Options) : Options where
  icecolors := o.icecolors.or base.icecolors
  bits := o.bits.or base.bits
  columns := o.columns.or base.columns
  font := o.font.or base.font
  thumbnail := o.thumbnail.or base.thumbnail
  double := o.double.or base.double
  imagedata := o.imagedata.or base.imagedata
  rows := o.rows.or base.rows
  clearScreen := o.clearScreen.or base.clearScreen
  filetype := o.filetype.or base.filetype
  mode := o.mode.or base.mode

@[simp] theorem empty_orElse (o : Options) : orElse {} o = o := by
  simp [orElse]

@[simp] theorem orElse_empty (o : Options) : o.orElse {} = o := by
  simp [orElse]

theorem orElse_assoc (a b c : Options) :
    (a.orElse b).orElse c = a.orElse (b.orElse c) := by
  simp [orElse, Option.or_assoc]

end Options

end TextArt
