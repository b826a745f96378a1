import TextArt.Color

namespace TextArt

/-!
# Palettes — the sixteen colours of a text screen

* `Bits` — the colour depth option, which picks a palette and, for `nine`, cells of
  nine pixel columns;
* `Palette` — the three colour tables, `Palette.ofBits` choosing among them;
* `Palette.color` — an index read modulo sixteen, so every index names a colour.
-/

/-- The colour depth, which decides on the `Palette` and on the width of a cell. -/
inductive Bits where
  /-- Eight pixel columns a cell, in the `ansi` colours. -/
  | eight
  /-- Nine pixel columns a cell, in the `ansi` colours. -/
  | nine
  /-- The `ced` colours of an editor with black ink on gray paper. -/
  | ced
  /-- The `workbench` colours of a desktop. -/
  | workbench
  deriving DecidableEq, Inhabited, Repr

/-- The depth a user names; any other word gives `none`. -/
def Bits.parse? : String → Option Bits
  | "8" => some .eight
  | "9" => some .nine
  | "ced" => some .ced
  | "workbench" => some .workbench
  | _ => none

/-- The three colour tables, with their entries in `colors`. -/
inductive Palette where
  | ansi
  | ced
  | workbench
  deriving DecidableEq, Inhabited, Repr

namespace Palette

/-- The table that each of the `Bits` draws with. -/
def ofBits : Bits → Palette
  | .eight => .ansi
  | .nine => .ansi
  | .ced => .ced
  | .workbench => .workbench

/-- The name a `Palette` is shown under. -/
def name : Palette → String
  | .ansi => "ANSI"
  | .ced => "CED"
  | .workbench => "Workbench"

/-- Text-mode colours in the order of the colour escapes, the dim half first, all of them `rgb`. -/
def ansiColors : Vector Color 16 := #v[
  .rgb 0 0 0, .rgb 170 0 0, .rgb 0 170 0, .rgb 170 85 0,
  .rgb 0 0 170, .rgb 170 0 170, .rgb 0 170 170, .rgb 170 170 170,
  .rgb 85 85 85, .rgb 255 85 85, .rgb 85 255 85, .rgb 255 255 85,
  .rgb 85 85 255, .rgb 255 85 255, .rgb 85 255 255, .rgb 255 255 255]

/-- Gray paper and black ink; the other fourteen colours are the `ansiColors`. -/
def cedColors : Vector Color 16 :=
  (ansiColors.set 0 (.rgb 170 170 170)).set 1 (.rgb 0 0 0)

/-- The eight desktop colours, of which `colors` makes sixteen. -/
def workbenchHalf : Vector Color 8 := #v[
  .rgb 170 170 170, .rgb 0 0 0, .rgb 255 255 255, .rgb 102 136 187,
  .rgb 0 0 255, .rgb 255 0 255, .rgb 0 255 255, .rgb 255 255 255]

/-- The colours of a table, in order; `workbench` repeats its eight for the bright half. -/
def colors : Palette → Vector Color 16
  | .ansi => ansiColors
  | .ced => cedColors
  | .workbench => workbenchHalf ++ workbenchHalf

/-- The one of the `colors` at an index, read modulo sixteen. -/
def color (p : Palette) (index : Nat) : Color :=
  p.colors.get ⟨index % 16, Nat.mod_lt _ (by decide)⟩

/-- Every `color` of every table is solid. -/
@[simp] theorem alpha_color (p : Palette) (index : Nat) : (p.color index).alpha = 255 := by
  have h : ∀ i : Fin 16, (p.colors.get i).alpha = 255 := by
    cases p <;> decide
  exact h ⟨index % 16, Nat.mod_lt _ (by decide)⟩

/-- Indices sixteen apart name the same `color`. -/
@[simp] theorem color_add_sixteen (p : Palette) (index : Nat) :
    p.color (index + 16) = p.color index := by
  simp [color]

end Palette

end TextArt
