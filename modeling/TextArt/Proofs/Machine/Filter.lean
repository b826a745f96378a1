import TextArt.Proofs.Machine.Flat
import TextArt.Raster.BoxFilter

namespace TextArt

/-!
# The box filter of a machine — sums of bytes

A block of pixels is averaged in a run of bytes: the bytes of its rows are added up in four bytes
for every channel, and the sums are divided by the number of pixels.

* `Raster.flatMap_rowPart` — the parts of rows that make up a block;
* `Machine.Sums`, `Machine.Sums.addPixels_pack` — the sums of the four channels;
* `Machine.Flat.blockMean`, `Machine.Flat.rowMeans`, `Machine.Flat.reduce` — the bytes of an
  average, of those of a row of blocks, and of all averages;
* `Machine.Flat.reduce_of` — on rasters that there is room for, and for blocks whose sums can be
  counted in four bytes, nothing of this fails, no divisor is zero, and it comes to the raster of
  all averages;
* `Machine.blockFactor_eq` — the sides of the blocks, by shifting.
-/

/-! ### Blocks -/

namespace Raster

variable {r : Raster}

/-- A `rowPart` shows the pixels of its part of the row. -/
theorem getElem?_rowPart {left right row i : Nat} (hright : right ≤ r.width)
    (hi : i < right - left) : (r.rowPart left right row)[i]? = r.pixel? (left + i) row := by
  rw [rowPart, List.getElem?_drop, List.getElem?_take_of_lt (by omega), Nat.add_assoc,
    getElem?_colors_of_lt (by omega)]

/-- A `block` is made up of a `rowPart` of each of its rows. -/
theorem flatMap_rowPart (r : Raster) (factor bx by' : Nat) :
    (List.range (min (by' * factor + factor) r.height - by' * factor)).flatMap (fun k =>
        r.rowPart (bx * factor) (min (bx * factor + factor) r.width) (by' * factor + k))
      = r.block factor bx by' := by
  let left := bx * factor
  let top := by' * factor
  have hrows : (r.rows.extract top (top + factor)).toList
      = (List.range (min (top + factor) r.rows.size - top)).map fun k =>
          r.rows.getD (top + k) #[] := by
    refine List.ext_getElem? fun k => ?_
    rw [Array.getElem?_toList, Array.getElem?_extract, List.getElem?_map]
    by_cases hk : k < min (top + factor) r.rows.size - top
    · have hlt : top + k < r.rows.size := by omega
      rw [if_pos hk, List.getElem?_range hk, Option.map_some, Array.getElem?_eq_getElem hlt,
        Array.getD, dif_pos hlt]
      rfl
    · rw [if_neg hk, List.getElem?_eq_none (by rw [List.length_range]; omega)]
      rfl
  -- a raster without columns has no rows, although it may have a height
  have hsize := r.size_rows
  by_cases hw : r.width = 0
  · have hempty : r.colors = [] :=
      List.eq_nil_of_length_eq_zero (by rw [length_colors, hw, Nat.zero_mul])
    have hpart : ∀ left right row, r.rowPart left right row = [] := by
      intro left right row
      rw [rowPart, hempty, List.take_nil, List.drop_nil]
    rw [if_pos hw] at hsize
    rw [hsize, Nat.min_zero, Nat.zero_sub] at hrows
    rw [block, hrows]
    exact List.flatMap_eq_nil_iff.mpr fun k _ => hpart ..
  · rw [if_neg hw] at hsize
    rw [block, hrows, hsize, List.flatMap_map]
    refine List.flatMap_congr fun k hk => List.ext_getElem? fun i => ?_
    have hk := List.mem_range.mp hk
    have hlt : top + k < r.rows.size := by omega
    have hrow : r.rows.getD (top + k) #[] = r.rows[top + k] := by
      rw [Array.getD, dif_pos hlt]
      rfl
    have hextract : (r.rows[top + k].extract left (left + factor)).toList[i]?
        = if i < min (left + factor) r.width - left then r.rows[top + k][left + i]? else none := by
      rw [Array.getElem?_toList, Array.getElem?_extract, r.size_row]
    rw [hrow, hextract]
    by_cases hi : i < min (left + factor) r.width - left
    · rw [if_pos hi, getElem?_rowPart (Nat.min_le_right ..) hi, pixel?,
        Array.getElem?_eq_getElem hlt]
      rfl
    · rw [if_neg hi, List.getElem?_eq_none]
      rw [length_rowPart (Nat.min_le_right ..) (by omega)]
      omega

/-- The pixels of a `block` are those of its rows and columns that are on the raster. -/
theorem length_block (r : Raster) (factor bx by' : Nat) :
    (r.block factor bx by').length
      = (min (by' * factor + factor) r.height - by' * factor)
        * (min (bx * factor + factor) r.width - bx * factor) := by
  have hpart : ∀ k ∈ List.range (min (by' * factor + factor) r.height - by' * factor),
      (r.rowPart (bx * factor) (min (bx * factor + factor) r.width) (by' * factor + k)).length
        = min (bx * factor + factor) r.width - bx * factor := by
    intro k hk
    have hk := List.mem_range.mp hk
    exact length_rowPart (Nat.min_le_right ..) (by omega)
  rw [← flatMap_rowPart, length_flatMap_of_length hpart, List.length_range]

/-- Only `blocks` that begin on a raster are needed to cover it. -/
theorem mul_lt_of_lt_blocks {length factor n : Nat} (hfactor : 0 < factor)
    (h : n < blocks length factor) : n * factor < length := by
  have hle : (n + 1) * factor ≤ length + factor - 1 := (Nat.le_div_iff_mul_le hfactor).mp h
  rw [Nat.add_mul] at hle
  omega

/-- No more `blocks` than pixels are needed to cover a length. -/
theorem blocks_le (length : Nat) {factor : Nat} (hfactor : 0 < factor) :
    blocks length factor ≤ length := by
  have hless : length ≤ factor * length := Nat.le_mul_of_pos_left length hfactor
  rw [blocks, Nat.div_le_iff_le_mul_add_pred hfactor]
  omega

end Raster

namespace Machine

/-! ### Sums -/

/-- The sum of one `channel` of some pixels. -/
def channelSum (channel : Color → UInt8) (cs : List Color) : Nat :=
  cs.foldl (fun sum c => sum + (channel c).toNat) 0

theorem channelSum_concat (channel : Color → UInt8) (cs : List Color) (c : Color) :
    channelSum channel (cs ++ [c]) = channelSum channel cs + (channel c).toNat := by
  rw [channelSum, List.foldl_append]
  rfl

theorem channelSum_le (channel : Color → UInt8) (cs : List Color) :
    channelSum channel cs ≤ 255 * cs.length := by
  induction cs using List.reverseRecOn with
  | nil => exact Nat.zero_le _
  | append_singleton cs c ih =>
    have hbyte : (channel c).toNat < 256 := (channel c).toNat_lt
    rw [channelSum_concat, List.length_append, List.length_singleton]
    omega

/-- The sums of the four channels. -/
structure Sums where
  red : Nat
  green : Nat
  blue : Nat
  alpha : Nat

namespace Sums

/-- The `Sums` of some pixels. -/
def of (cs : List Color) : Sums where
  red := channelSum Color.red cs
  green := channelSum Color.green cs
  blue := channelSum Color.blue cs
  alpha := channelSum Color.alpha cs

/-- Add the bytes of pixels to the `sums`, which are counted in four bytes. -/
def addPixels : Bytes → Sums → Option Sums
  | red :: green :: blue :: alpha :: rest, sums => do
    let red ← quad (sums.red + red.toNat)
    let green ← quad (sums.green + green.toNat)
    let blue ← quad (sums.blue + blue.toNat)
    let alpha ← quad (sums.alpha + alpha.toNat)
    addPixels rest { red, green, blue, alpha }
  | _, sums => some sums

/-- The sums of so few pixels can be counted by `addPixels`. -/
theorem addPixels_pack (ds : List Color) {cs : List Color}
    (h : 255 * (cs ++ ds).length < UInt32.size) :
    addPixels (pack ds) (of cs) = some (of (cs ++ ds)) := by
  induction ds generalizing cs with
  | nil => rw [List.append_nil]; rfl
  | cons d ds ih =>
    -- no sum along the way is larger than the largest byte times the number of pixels
    have hsum : ∀ channel : Color → UInt8, quad (channelSum channel cs + (channel d).toNat)
        = some (channelSum channel (cs ++ [d])) := by
      intro channel
      have hle := channelSum_le channel (cs ++ [d])
      rw [List.length_append, List.length_cons] at h
      rw [List.length_append, List.length_singleton] at hle
      rw [← channelSum_concat]
      exact quad_eq (by omega)
    have happend : cs ++ d :: ds = cs ++ [d] ++ ds := List.append_cons ..
    rw [happend] at h ⊢
    rw [← ih h]
    show (do
      let red ← quad (channelSum Color.red cs + d.red.toNat)
      let green ← quad (channelSum Color.green cs + d.green.toNat)
      let blue ← quad (channelSum Color.blue cs + d.blue.toNat)
      let alpha ← quad (channelSum Color.alpha cs + d.alpha.toNat)
      addPixels (pack ds) { red, green, blue, alpha }) = _
    rw [hsum Color.red, hsum Color.green, hsum Color.blue, hsum Color.alpha]
    rfl

/-- The mean of one channel, to the nearest integer, halves going up. -/
def mean (total count : Nat) : Option UInt8 := do
  let half ← quotient count 2
  let sum ← quad (total + half)
  let q ← quotient sum count
  let b ← byte q
  pure (UInt8.ofNat b)

/-- The `mean` of some pixels is not larger than the largest byte. -/
theorem mean_of (channel : Color → UInt8) {cs : List Color} (hne : cs.length ≠ 0)
    (h : 255 * cs.length + cs.length / 2 < UInt32.size) :
    mean (channelSum channel cs) cs.length = some (Raster.mean channel cs) := by
  have hle := channelSum_le channel cs
  -- the mean of bytes, with half a divisor more, is still less than 256 of them
  have hbyte : (channelSum channel cs + cs.length / 2) / cs.length < UInt8.size := by
    rw [Nat.div_lt_iff_lt_mul (Nat.pos_of_ne_zero hne)]
    have hsize : UInt8.size * cs.length = 255 * cs.length + cs.length := Nat.succ_mul ..
    omega
  rw [mean, quotient_eq (by decide)]
  simp only [Option.bind_eq_bind, Option.bind_some]
  rw [quad_eq (by omega), Option.bind_some, quotient_eq hne, Option.bind_some, byte_eq hbyte,
    Option.bind_some]
  rfl

end Sums

namespace Flat

/-! ### Averages -/

/-- Add the pixels of a part of a row to some `sums`. -/
def addRow (f : Flat) (left right row : Nat) (sums : Sums) : Option Sums := do
  let start ← f.offset left row
  let stop ← f.offset right row
  let span ← slice f.data start stop
  sums.addPixels span

/-- The bytes of the average of a block, of which the rows from `top` to `bottom` are known. -/
def blockMean (f : Flat) (factor top bottom bx : Nat) : Option Bytes := do
  let left ← word (bx * factor)
  let beyond ← word (left + factor)
  let right := min beyond f.width
  let sums ← loop (f.addRow left right) top (bottom - top) (Sums.of [])
  let columns ← minus right left
  let rows ← minus bottom top
  let pixels ← word (columns * rows)
  let count ← quad pixels
  let red ← Sums.mean sums.red count
  let green ← Sums.mean sums.green count
  let blue ← Sums.mean sums.blue count
  let alpha ← Sums.mean sums.alpha count
  pure [red, green, blue, alpha]

/-- The bytes of `blockMean` for all blocks of a row of blocks. -/
def rowMeans (f : Flat) (factor columns by' : Nat) : Option (List Bytes) := do
  let top ← word (by' * factor)
  let below ← word (top + factor)
  (List.range columns).mapM (f.blockMean factor top (min below f.height))

/-- The raster of the averages of all blocks of side `factor`; sides up to one change nothing. -/
def reduce (f : Flat) (factor : Nat) : Option Flat :=
  if factor ≤ 1 then some f
  else do
    let columns ← ceilQuotient f.width factor
    let rows ← ceilQuotient f.height factor
    let pixels ← word (columns * rows)
    let _room ← word (pixels * 4)
    let means ← (List.range rows).mapM (f.rowMeans factor columns)
    let blank ← Flat.new columns rows
    blank.put 0 0 columns rows means.flatten.flatten

variable {r : Raster}

/-- The area of the largest blocks of a raster is so small that the sums of their pixels can be
    counted in four bytes. -/
def Summable (r : Raster) (factor : Nat) : Prop :=
  let area := min factor r.width * min factor r.height
  255 * area + area / 2 < UInt32.size

/-- The bytes of the rows of a block are added up by a loop of `addRow`. -/
theorem loop_addRow (hr : r.Countable) {left right top bottom : Nat} (hleft : left ≤ right)
    (hright : right ≤ r.width) (hbottom : bottom ≤ r.height)
    (harea : 255 * ((bottom - top) * (right - left)) < UInt32.size) :
    loop ((of r).addRow left right) top (bottom - top) (Sums.of [])
      = some (Sums.of ((List.range (bottom - top)).flatMap fun k =>
          r.rowPart left right (top + k))) := by
  let part : Nat → List Color := fun k => r.rowPart left right (top + k)
  let sums : Nat → Sums := fun n => Sums.of ((List.range n).flatMap part)
  refine loop_eq sums top fun k hk => ?_
  have hpart : ∀ j ∈ List.range (k + 1), (part j).length = right - left := by
    intro j hj
    have hj := List.mem_range.mp hj
    exact Raster.length_rowPart hright (by omega)
  have hnext : (List.range (k + 1)).flatMap part = (List.range k).flatMap part ++ part k := by
    rw [List.range_succ, List.flatMap_append, List.flatMap_singleton]
  -- the pixels so far are some of the block, so their sums are not larger than its own
  have hfew : ((List.range k).flatMap part ++ part k).length ≤ (bottom - top) * (right - left) := by
    rw [← hnext, length_flatMap_of_length hpart, List.length_range]
    exact Nat.mul_le_mul_right _ (by omega)
  have hadded : Sums.addPixels (pack (part k)) (sums k) = some (sums (k + 1)) := by
    show _ = some (Sums.of ((List.range (k + 1)).flatMap part))
    rw [hnext]
    exact Sums.addPixels_pack _ (by omega)
  have hspan : slice (of r).data _ _ = _ :=
    Raster.slice_rowPart hleft hright (show top + k < r.height by omega)
  rw [addRow, offset_of hr (by omega) (by omega), offset_of hr hright (by omega)]
  simp only [Option.bind_eq_bind, Option.bind_some]
  rw [hspan, Option.bind_some]
  exact hadded

/-- The average of a block of a raster is what `blockMean` finds in its bytes. -/
theorem blockMean_of (hr : r.Countable) {factor bx by' : Nat}
    (hbeyond : bx * factor + factor < UInt64.size) (hsummable : Summable r factor)
    (hx : bx * factor < r.width) (hy : by' * factor < r.height) (hfactor : 0 < factor) :
    (of r).blockMean factor (by' * factor) (min (by' * factor + factor) r.height) bx
      = some (Raster.average (r.block factor bx by')).bytes := by
  let left := bx * factor
  let top := by' * factor
  let right := min (left + factor) r.width
  let bottom := min (top + factor) r.height
  -- the block is as large as the places it has on the raster, which are not none
  have hlength : (r.block factor bx by').length = (right - left) * (bottom - top) := by
    rw [Raster.length_block, Nat.mul_comm]
  have harea : (right - left) * (bottom - top) ≤ min factor r.width * min factor r.height :=
    Nat.mul_le_mul (by omega) (by omega)
  have hsum : 255 * (r.block factor bx by').length + (r.block factor bx by').length / 2
      < UInt32.size := by
    unfold Summable at hsummable
    dsimp only at hsummable
    rw [hlength]
    omega
  have hne : (r.block factor bx by').length ≠ 0 := by
    rw [hlength]
    exact Nat.mul_ne_zero (by omega) (by omega)
  have hfour : UInt32.size < UInt64.size := by decide
  -- the loop over the rows leaves the sums of all pixels of the block
  have hloop : loop ((of r).addRow left right) top (bottom - top) (Sums.of [])
      = some (Sums.of (r.block factor bx by')) := by
    rw [loop_addRow hr (show left ≤ right by omega) (Nat.min_le_right ..) (Nat.min_le_right ..)]
    · exact congrArg (fun cs => some (Sums.of cs)) (Raster.flatMap_rowPart ..)
    · rw [Nat.mul_comm (bottom - top), ← hlength]
      omega
  have hmean : ∀ channel, Sums.mean (channelSum channel (r.block factor bx by'))
      (r.block factor bx by').length = some (Raster.mean channel (r.block factor bx by')) :=
    fun channel => Sums.mean_of channel hne hsum
  have hwidth : (of r).width = r.width := rfl
  rw [blockMean, hwidth, word_eq (show bx * factor < UInt64.size by omega)]
  simp only [Option.bind_eq_bind, Option.bind_some]
  rw [word_eq hbeyond, Option.bind_some]
  rw [hloop, Option.bind_some, minus_eq (show left ≤ right by omega), Option.bind_some,
    minus_eq (show top ≤ bottom by omega), Option.bind_some, ← hlength, word_eq (by omega),
    Option.bind_some, quad_eq (by omega), Option.bind_some]
  show (Sums.mean (channelSum Color.red _) _).bind _ = _
  rw [hmean Color.red, Option.bind_some]
  show (Sums.mean (channelSum Color.green _) _).bind _ = _
  rw [hmean Color.green, Option.bind_some]
  show (Sums.mean (channelSum Color.blue _) _).bind _ = _
  rw [hmean Color.blue, Option.bind_some]
  show (Sums.mean (channelSum Color.alpha _) _).bind _ = _
  rw [hmean Color.alpha, Option.bind_some]
  rfl

/-- To `put` the `colors` of a raster on a blank one of its size is to make that raster. -/
theorem put_colors (s : Raster) (hs : s.width * s.height * 4 < UInt64.size) :
    (Raster.blank s.width s.height).put 0 0 s.width s.height s.colors.toArray = s := by
  have hblank : Raster.blank s.width s.height = .solid s.width s.height .transparent := if_pos hs
  rw [hblank]
  refine Raster.ext_pixel rfl rfl fun x y => ?_
  rw [Raster.pixel?_put]
  by_cases hin : x < s.width ∧ y < s.height
  · have hend := Raster.place_le (Nat.le_refl s.width) hin.2
    have hheld : (y - 0) * s.width + (min (0 + s.width) s.width - 0) ≤ s.colors.toArray.size := by
      rw [List.size_toArray, Raster.length_colors, Nat.sub_zero]
      omega
    have hinside : Raster.Inside 0 0 s.width s.height x y := by
      unfold Raster.Inside
      omega
    have hput : Raster.Inside 0 0 s.width s.height x y ∧ x < s.width ∧ y < s.height
        ∧ (y - 0) * s.width + (min (0 + s.width) s.width - 0) ≤ s.colors.toArray.size :=
      ⟨hinside, hin.1, hin.2, hheld⟩
    refine (if_pos hput).trans ?_
    rw [List.getElem?_toArray, Nat.sub_zero, Nat.sub_zero, Raster.getElem?_colors_of_lt hin.1]
  · have hoff : s.width ≤ x ∨ s.height ≤ y := by omega
    have hnone := (Raster.pixel?_eq_none_iff (.solid s.width s.height .transparent) x y).mpr hoff
    rw [if_neg (fun h => hin ⟨h.2.1, h.2.2.1⟩), (s.pixel?_eq_none_iff x y).mpr hoff, hnone]

/-- The end of a block can be counted in a word if the side of the raster can be, and by far. -/
theorem end_lt {factor n side : Nat} (hside : side < 2 ^ 61) (hfactor : factor < UInt64.size)
    (h : n * factor < side) : n * factor + factor < UInt64.size := by
  have hlimit : UInt64.size = 2 ^ 64 := rfl
  rcases Nat.eq_zero_or_pos n with rfl | hpos
  · omega
  · -- a block that is not the first one begins behind another, which is as large
    have hbefore : factor ≤ n * factor := Nat.le_mul_of_pos_left _ hpos
    omega

/-- The averages of a row of blocks are what `rowMeans` finds in the bytes of a raster that there is
    room for. If the raster has no columns, there is room for any height, but its rows must be
    counted to the end of the last block. -/
theorem rowMeans_of {factor by' : Nat} (hr : r.Countable)
    (hroom : r.width * r.height * 4 < 2 ^ 63) (hword : factor < UInt64.size)
    (hend : r.width = 0 → Raster.blocks r.height factor * factor < UInt64.size)
    (hsummable : Summable r factor) (hfactor : 0 < factor)
    (hby : by' < Raster.blocks r.height factor) :
    (of r).rowMeans factor (Raster.blocks r.width factor) by'
      = some ((List.range (Raster.blocks r.width factor)).map fun bx =>
          (Raster.average (r.block factor bx by')).bytes) := by
  have hy := Raster.mul_lt_of_lt_blocks hfactor hby
  have hwidth : r.width ≤ r.width * r.height := Nat.le_mul_of_pos_right _ (by omega)
  -- an empty raster may be of any height, so its rows are bounded by assumption
  have hbelow : by' * factor + factor < UInt64.size := by
    rcases Nat.eq_zero_or_pos r.width with hzero | hpos
    · calc by' * factor + factor = (by' + 1) * factor := (Nat.succ_mul by' factor).symm
        _ ≤ Raster.blocks r.height factor * factor := Nat.mul_le_mul_right factor hby
        _ < UInt64.size := hend hzero
    · have hheight : r.height ≤ r.width * r.height := Nat.le_mul_of_pos_left _ hpos
      exact end_lt (by omega) hword hy
  have hsides : (of r).height = r.height := rfl
  rw [rowMeans, hsides, word_eq (show by' * factor < UInt64.size by omega)]
  simp only [Option.bind_eq_bind, Option.bind_some]
  rw [word_eq hbelow, Option.bind_some]
  refine mapM_eq fun bx hbx => ?_
  have hx := Raster.mul_lt_of_lt_blocks hfactor (List.mem_range.mp hbx)
  exact blockMean_of hr (end_lt (by omega) hword hx) hsummable hx hy hfactor

/-- A raster that there is room for is reduced in its bytes, if it is `Summable`: no number is too
    large, no place is off the raster, and no block is empty. -/
theorem reduce_of {factor : Nat} (hr : r.Countable) (hroom : r.width * r.height * 4 < 2 ^ 63)
    (hword : factor < UInt64.size)
    (hend : r.width = 0 → Raster.blocks r.height factor * factor < UInt64.size)
    (hsummable : Summable r factor) :
    (of r).reduce factor = some (of (r.reduce factor)) := by
  have hlimit : (2 : Nat) ^ 63 < UInt64.size := by decide
  unfold reduce Raster.reduce
  split
  · rfl
  · next hfactor =>
    have hpos : 0 < factor := by omega
    let columns := Raster.blocks r.width factor
    let rows := Raster.blocks r.height factor
    let mean : Nat → Nat → Color := fun bx by' => Raster.average (r.block factor bx by')
    -- there are no more blocks than pixels
    have hcolumns : columns ≤ r.width := Raster.blocks_le r.width hpos
    have hrows : rows ≤ r.height := Raster.blocks_le r.height hpos
    have hfew : columns * rows ≤ r.width * r.height := Nat.mul_le_mul hcolumns hrows
    have hmeans : ∀ by' ∈ List.range rows, (of r).rowMeans factor columns by'
        = some ((List.range columns).map fun bx => (mean bx by').bytes) :=
      fun by' hby => rowMeans_of hr hroom hword hend hsummable hpos (List.mem_range.mp hby)
    have hwide : ceilQuotient (of r).width factor = some columns :=
      ceilQuotient_eq (by omega) hr.width
    have htall : ceilQuotient (of r).height factor = some rows :=
      ceilQuotient_eq (by omega) hr.height
    let reduced := Raster.generate columns rows mean
    have hput : (of (.blank columns rows)).put 0 0 columns rows (pack reduced.colors.toArray.toList)
        = some (of reduced) := by
      have hbytes : columns * rows * 4 < UInt64.size := by omega
      have hblank : (Raster.blank columns rows).Countable := by
        rw [show Raster.blank columns rows = .solid columns rows .transparent from if_pos hbytes]
        exact ⟨Nat.lt_of_le_of_lt hcolumns hr.width, Nat.lt_of_le_of_lt hrows hr.height, hbytes⟩
      rw [put_of hblank hbytes]
      exact congrArg (fun r => some (of r)) (put_colors reduced hbytes)
    rw [hwide, htall]
    simp only [Option.bind_eq_bind, Option.bind_some]
    rw [word_eq (by omega), Option.bind_some, word_eq (by omega), Option.bind_some, mapM_eq hmeans,
      Option.bind_some, new_of (by omega), Option.bind_some, flatten_bytes,
      ← Raster.colors_generate]
    exact hput

/-- The blocks of small sides are small enough: any raster is `Summable` up to a factor of 8. -/
theorem summable_of_small (r : Raster) {factor : Nat} (h : factor ≤ 8) : Summable r factor := by
  have harea : min factor r.width * min factor r.height ≤ 8 * 8 :=
    Nat.mul_le_mul (by omega) (by omega)
  unfold Summable UInt32.size
  dsimp only
  omega

end Flat

/-! ### Sides -/

/-- The side of the blocks at a `level` of reduction. -/
def blockFactor (level : Nat) : Option Nat :=
  if 1 ≤ level ∧ level ≤ 3 then do
    let places ← minus 4 level
    shiftLeft 64 1 places
  else some 1

theorem blockFactor_eq (level : Nat) : blockFactor level = some (Raster.blockFactor level) := by
  match level with
  | 0 => rfl
  | 1 => rfl
  | 2 => rfl
  | 3 => rfl
  | level + 4 => exact if_neg (by omega)

end Machine

namespace Raster

theorem blockFactor_le (level : Nat) : blockFactor level ≤ 8 := by
  unfold blockFactor
  split <;> decide

end Raster

end TextArt
