import TextArt.Raster.Basic

namespace TextArt.Raster

/-!
# Box filter — smaller pictures by averaging blocks

* `block` — the pixels of one square block, row after row; blocks on the right and
  lower edge hold what the raster has of them;
* `average` — the mean of some colours, each channel for itself, halves going up;
* `reduce` — the raster of the averages of all blocks;
* `blockFactor` — the side of a block for each level of reduction.
-/

/-- The side of the blocks of `reduce` at a level of reduction: a side of one leaves a picture as it
    is. -/
def blockFactor : Nat → Nat
  | 1 => 8
  | 2 => 4
  | 3 => 2
  | _ => 1

theorem blockFactor_pos (level : Nat) : 0 < blockFactor level := by
  unfold blockFactor
  split <;> decide

/-- The number of blocks of side `factor` that cover a length. -/
def blocks (length factor : Nat) : Nat :=
  (length + factor - 1) / factor

/-- The pixels of the block in column `bx` and row `by'` of the blocks of a side. -/
def block (r : Raster) (factor bx by' : Nat) : List Color :=
  (r.rows.extract (by' * factor) (by' * factor + factor)).toList.flatMap fun row =>
    (row.extract (bx * factor) (bx * factor + factor)).toList

/-- The `mean` of one `channel` to the nearest integer, halves going up. -/
def mean (channel : Color → UInt8) (cs : List Color) : UInt8 :=
  UInt8.ofNat
    ((cs.foldl (fun sum c => sum + (channel c).toNat) 0 + cs.length / 2) / cs.length)

/-- The `mean` of some colours, channel by channel. -/
def average (cs : List Color) : Color where
  red := mean Color.red cs
  green := mean Color.green cs
  blue := mean Color.blue cs
  alpha := mean Color.alpha cs

/-- One pixel for every block of side `factor`; sides up to one change nothing. -/
def reduce (r : Raster) (factor : Nat) : Raster :=
  if factor ≤ 1 then r
  else generate (blocks r.width factor) (blocks r.height factor) fun bx by' =>
    average (r.block factor bx by')

@[simp] theorem reduce_one (r : Raster) : r.reduce 1 = r := rfl

end TextArt.Raster
