namespace TextArt.Glyph

/-!
# Junctions — the lines that frames are drawn with

A line character is four arms that meet in the middle of the cell, each of them
absent, single or double.

* `Stroke`, `Junction` — an arm and a character;
* `Junction.inked` — where the ink of the arms falls, for a cell of eight columns and
  any height; an arm reaches across the middle far enough to close the corner with
  its neighbours;
* `junctions` — the forty characters in code order.
-/

/-- The weight of an arm of a `Junction`. -/
inductive Stroke where
  | absent
  | single
  | double
  deriving DecidableEq, Inhabited, Repr

/-- Four arms around the middle of a cell, each of them a `Stroke`. -/
structure Junction where
  up : Stroke
  down : Stroke
  left : Stroke
  right : Stroke
  deriving DecidableEq, Inhabited, Repr

namespace Stroke

/-- The columns that an upright arm of the weight `s` fills. -/
def column (s : Stroke) (x : Nat) : Bool :=
  match s with
  | absent => false
  | single => x == 3 || x == 4
  | double => x == 2 || x == 5

/-- The rows that a level arm fills when the middle row is `middle`. -/
def row (s : Stroke) (middle y : Nat) : Bool :=
  match s with
  | absent => false
  | single => y == middle
  | double => y + 1 == middle || y == middle + 1

/-- How far an arm of this weight passes the place where a `single` one ends. -/
def overshoot : Stroke → Nat
  | double => 1
  | _ => 0

end Stroke

namespace Junction

/-- Whether a character has ink in column `x` of row `y` of a cell of `height` rows. -/
def inked (j : Junction) (height x y : Nat) : Bool :=
  let middle := height / 2 - 1
  (j.up.column x && y ≤ middle + j.up.overshoot)
    || (j.down.column x && middle - j.down.overshoot ≤ y)
    || (j.left.row middle y && x ≤ 4 + j.left.overshoot)
    || (j.right.row middle y && 3 - j.right.overshoot ≤ x)

/-- Without arms there is no ink, and nothing is `inked`. -/
theorem inked_absent (height x y : Nat) :
    (⟨.absent, .absent, .absent, .absent⟩ : Junction).inked height x y = false := by
  simp [inked, Stroke.column, Stroke.row]

end Junction

open Stroke (absent single double)

/-- The line characters in code order, each of them a `Junction`. -/
def junctions : Array Junction := #[
  ⟨single, single, absent, absent⟩, ⟨single, single, single, absent⟩,
  ⟨single, single, double, absent⟩, ⟨double, double, single, absent⟩,
  ⟨absent, double, single, absent⟩, ⟨absent, single, double, absent⟩,
  ⟨double, double, double, absent⟩, ⟨double, double, absent, absent⟩,
  ⟨absent, double, double, absent⟩, ⟨double, absent, double, absent⟩,
  ⟨double, absent, single, absent⟩, ⟨single, absent, double, absent⟩,
  ⟨absent, single, single, absent⟩, ⟨single, absent, absent, single⟩,
  ⟨single, absent, single, single⟩, ⟨absent, single, single, single⟩,
  ⟨single, single, absent, single⟩, ⟨absent, absent, single, single⟩,
  ⟨single, single, single, single⟩, ⟨single, single, absent, double⟩,
  ⟨double, double, absent, single⟩, ⟨double, absent, absent, double⟩,
  ⟨absent, double, absent, double⟩, ⟨double, absent, double, double⟩,
  ⟨absent, double, double, double⟩, ⟨double, double, absent, double⟩,
  ⟨absent, absent, double, double⟩, ⟨double, double, double, double⟩,
  ⟨single, absent, double, double⟩, ⟨double, absent, single, single⟩,
  ⟨absent, single, double, double⟩, ⟨absent, double, single, single⟩,
  ⟨double, absent, absent, single⟩, ⟨single, absent, absent, double⟩,
  ⟨absent, single, absent, double⟩, ⟨absent, double, absent, single⟩,
  ⟨double, double, single, single⟩, ⟨single, single, double, double⟩,
  ⟨single, absent, single, absent⟩, ⟨absent, single, absent, single⟩]

theorem size_junctions : junctions.size = 40 := rfl

end TextArt.Glyph
