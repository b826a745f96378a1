import TextArt.Proofs.Forms
import TextArt.Proofs.Machine.Buffers

namespace TextArt

/-!
# Flat rasters — drawing in a run of bytes

What can be done to a raster, done to its bytes: the pixels are found again by counting rows and
columns, and every number and every place is one that the machine must have.

* `Machine.Flat` — a raster as a run of bytes, `Machine.Flat.of` being that of a raster;
* `Machine.Flat.new`, `Machine.Flat.fill`, `Machine.Flat.put`, `Machine.Flat.shiftUp` — what can be
  done to it;
* `Raster.Countable` — the bytes of a raster can be counted in a word;
* `Machine.Flat.new_of`, `Machine.Flat.fill_of`, `Machine.Flat.put_of`, `Machine.Flat.shiftUp_of` —
  on such rasters nothing of this fails, and it comes to what is done to the raster.
-/

/-! ### Rasters that a machine has room for -/

namespace Raster

/-- The sides of a `Raster`, and its bytes, can be counted in a word. -/
structure Countable (r : Raster) : Prop where
  width : r.width < UInt64.size
  height : r.height < UInt64.size
  bytes : r.width * r.height * 4 < UInt64.size

theorem Countable.of_sameSize {r s : Raster} (hr : r.Countable) (hs : s.SameSize r) :
    s.Countable := by
  obtain ⟨hw, hh⟩ := hs
  exact ⟨hw ▸ hr.width, hh ▸ hr.height, by rw [hw, hh]; exact hr.bytes⟩

/-- The bytes of one row of a `Countable` raster can be counted, too. -/
theorem Countable.row_lt {r : Raster} (hr : r.Countable) (hheight : 0 < r.height) :
    r.width * 4 < UInt64.size := by
  calc r.width * 4 = r.width * 1 * 4 := by rw [Nat.mul_one]
    _ ≤ r.width * r.height * 4 := Nat.mul_le_mul_right 4 (Nat.mul_le_mul_left r.width hheight)
    _ < UInt64.size := hr.bytes

variable (r : Raster) (x y w h : Nat)

/-- The pixels up to a column of a row are among the `width` times `height` of the raster. -/
theorem place_le {r : Raster} {x y : Nat} (hx : x ≤ r.width) (hy : y < r.height) :
    y * r.width + x ≤ r.width * r.height := by
  calc y * r.width + x ≤ (y + 1) * r.width := by
        rw [Nat.add_mul, Nat.one_mul]
        omega
    _ ≤ r.height * r.width := Nat.mul_le_mul_right _ hy
    _ = r.width * r.height := Nat.mul_comm ..

/-- A part of a row, among the `colors` of a raster. -/
def rowPart (r : Raster) (left right row : Nat) : List Color :=
  (r.colors.take (row * r.width + right)).drop (row * r.width + left)

theorem length_rowPart {r : Raster} {left right row : Nat} (hright : right ≤ r.width)
    (hrow : row < r.height) : (r.rowPart left right row).length = right - left := by
  have hend : row * r.width + right ≤ r.colors.length := by
    rw [length_colors]
    exact place_le hright hrow
  rw [rowPart, List.length_drop, List.length_take_of_le hend]
  omega

/-- The bytes of a `rowPart` are a `slice` of those of the raster. -/
theorem slice_rowPart {r : Raster} {left right row : Nat} (hleft : left ≤ right)
    (hright : right ≤ r.width) (hrow : row < r.height) :
    Machine.slice (Machine.pack r.colors) ((row * r.width + left) * 4) ((row * r.width + right) * 4)
      = some (Machine.pack (r.rowPart left right row)) := by
  have hend : row * r.width + right ≤ r.colors.length := by
    rw [length_colors]
    exact place_le hright hrow
  exact Machine.slice_pack (Nat.add_le_add_left hleft _) hend

/-- To `fill` an empty rectangle is not seen. -/
theorem fill_empty (c : Color) {w h : Nat} (hempty : w = 0 ∨ h = 0) : r.fill x y w h c = r := by
  refine ext_pixel (width_fill ..) (height_fill ..) fun i j => ?_
  rw [pixel?_fill, if_neg (by unfold Inside; omega)]

/-- A rectangle is filled row by row: one more row, and `fill` has one row more. -/
theorem fill_fill_below (n : Nat) (c : Color) :
    (r.fill x y w n c).fill x (y + n) w 1 c = r.fill x y w (n + 1) c := by
  refine ext_pixel ?_ ?_ fun i j => ?_
  · rw [width_fill, width_fill, width_fill]
  · rw [height_fill, height_fill, height_fill]
  · rw [pixel?_fill, pixel?_fill, pixel?_fill, width_fill, height_fill]
    by_cases hin : Inside x y w (n + 1) i j ∧ i < r.width ∧ j < r.height
    · rw [if_pos hin]
      by_cases hlast : Inside x (y + n) w 1 i j ∧ i < r.width ∧ j < r.height
      · rw [if_pos hlast]
      · rw [if_neg hlast, if_pos (by unfold Inside at *; omega)]
    · rw [if_neg hin, if_neg (by unfold Inside at *; omega), if_neg (by unfold Inside at *; omega)]

/-- Only what is on the raster is filled, so `fill` may be clipped to its sides. -/
theorem fill_clipped (c : Color) :
    r.fill x y (min (x + w) r.width - x) (min (y + h) r.height - y) c = r.fill x y w h c := by
  refine ext_pixel ?_ ?_ fun i j => ?_
  · rw [width_fill, width_fill]
  · rw [height_fill, height_fill]
  · rw [pixel?_fill, pixel?_fill]
    by_cases hin : Inside x y w h i j ∧ i < r.width ∧ j < r.height
    · rw [if_pos hin, if_pos (by unfold Inside at *; omega)]
    · rw [if_neg hin, if_neg (by unfold Inside at *; omega)]

/-- Nothing of a bitmap is `put` right of a raster or below it. -/
theorem put_off (bitmap : Array Color)
    (hoff : ¬ (x < min (x + w) r.width ∧ y < min (y + h) r.height)) : r.put x y w h bitmap = r := by
  refine ext_pixel rfl rfl fun i j => ?_
  rw [pixel?_put, if_neg (by unfold Inside; omega)]

/-- Only the rows of a bitmap that are on the raster are `put` there. -/
theorem put_clipped (bitmap : Array Color) :
    r.put x y w (min (y + h) r.height - y) bitmap = r.put x y w h bitmap := by
  refine ext_pixel rfl rfl fun i j => ?_
  rw [pixel?_put, pixel?_put]
  by_cases hin : Inside x y w h i j ∧ i < r.width ∧ j < r.height
      ∧ (j - y) * w + (min (x + w) r.width - x) ≤ bitmap.size
  · rw [if_pos hin, if_pos (by unfold Inside at *; omega)]
  · rw [if_neg hin, if_neg (by unfold Inside at *; omega)]

/-- Where a bitmap ends before a row, no row from there on is `put`. -/
theorem put_succ_of_short (bitmap : Array Color) {n : Nat}
    (hshort : bitmap.size < n * w + (min (x + w) r.width - x)) :
    r.put x y w (n + 1) bitmap = r.put x y w n bitmap := by
  -- the bitmap that ends before the row `n` ends before every later one, too
  have hmissing : ∀ j, y + n ≤ j → bitmap.size < (j - y) * w + (min (x + w) r.width - x) := by
    intro j hj
    have hlater : n * w ≤ (j - y) * w := Nat.mul_le_mul_right w (by omega)
    omega
  refine ext_pixel rfl rfl fun i j => ?_
  rw [pixel?_put, pixel?_put]
  by_cases hin : Inside x y w n i j ∧ i < r.width ∧ j < r.height
      ∧ (j - y) * w + (min (x + w) r.width - x) ≤ bitmap.size
  · rw [if_pos hin, if_pos (by unfold Inside at *; omega)]
  · rw [if_neg hin, if_neg]
    intro hlast
    have hj : ¬ y + n ≤ j := fun hj => absurd (hmissing j hj) (Nat.not_lt.mpr hlast.2.2.2)
    exact hin (by unfold Inside at *; omega)

end Raster

namespace Machine

/-- A `Raster` as a run of bytes. -/
structure Flat where
  width : Nat
  height : Nat
  data : Bytes
  deriving DecidableEq

namespace Flat

/-- The bytes of a `Raster`. -/
def of (r : Raster) : Flat where
  width := r.width
  height := r.height
  data := pack r.colors

/-- The place of a pixel among the bytes of `data`. -/
def offset (f : Flat) (x y : Nat) : Option Nat := do
  let before ← word (y * f.width)
  let place ← word (before + x)
  word (place * 4)

/-- Zero bytes; there is room for less than half of what a `word` can count. -/
def zeros (n : Nat) : Option Bytes :=
  if n < 2 ^ 63 then some (List.replicate n 0) else none

/-- A raster that nothing was drawn on, without any pixels if their bytes cannot be counted in a
    `word`. -/
def new (width height : Nat) : Option Flat :=
  match (word (width * height)).bind fun n => word (n * 4) with
  | some n => (zeros n).map fun data => { width, height, data }
  | none => some { width := 0, height := 0, data := [] }

/-- Give a part of a row one colour, by `copyInto`. -/
def fillRow (f : Flat) (left right : Nat) (c : Color) (row : Nat) : Option Flat := do
  let start ← f.offset left row
  let stop ← f.offset right row
  let span ← slice f.data start stop
  let data ← copyInto f.data start (recolor c span)
  pure { f with data }

/-- Give a rectangle one colour, `fillRow` by `fillRow`. -/
def fill (f : Flat) (x y w h : Nat) (c : Color) : Option Flat :=
  let right := min (saturatedWord (x + w)) f.width
  let bottom := min (saturatedWord (y + h)) f.height
  if x < right ∧ y < bottom then
    loop (fun row f => f.fillRow x right c row) y (bottom - y) f
  else some f

/-- Take away everything that was drawn in a rectangle, by filling it with `transparent`. -/
def clear (f : Flat) (x y w h : Nat) : Option Flat :=
  f.fill x y w h .transparent

/-- Put the rows of a bitmap from the `row`-th row of the raster on, until the bitmap ends. -/
def putRows (bitmap : Bytes) (x y w span : Nat) : Nat → Nat → Flat → Option Flat
  | _, 0, f => some f
  | row, n + 1, f => do
    let above ← minus row y
    let pixels ← word (above * w)
    let start ← word (pixels * 4)
    let stop ← word (start + span)
    if bitmap.length < stop then pure f
    else do
      let source ← slice bitmap start stop
      let place ← f.offset x row
      let data ← copyInto f.data place source
      putRows bitmap x y w span (row + 1) n { f with data }

/-- Put a bitmap of `w` columns and `h` rows at a place. -/
def put (f : Flat) (x y w h : Nat) (bitmap : Bytes) : Option Flat :=
  let right := min (saturatedWord (x + w)) f.width
  let bottom := min (saturatedWord (y + h)) f.height
  if x < right ∧ y < bottom then do
    let columns ← minus right x
    let span ← word (columns * 4)
    putRows bitmap x y w span y (bottom - y) f
  else some f

/-- Move the picture up by `k` rows. -/
def shiftUp (f : Flat) (k : Nat) : Option Flat :=
  if k = 0 ∨ f.height ≤ k then some f
  else do
    let stride ← word (f.width * 4)
    let start ← word (k * stride)
    let moved ← slice f.data start f.data.length
    let data ← copyInto f.data 0 moved
    pure { f with data }

end Flat

/-- The place of a pixel of a row, counted from the first pixel, lies in a part of the row if its
    column is between `left` and `right`. -/
theorem mem_row_iff {width right : Nat} (left row i : Nat) (hright : right ≤ width) :
    row * width + left ≤ i ∧ i < row * width + right
      ↔ i / width = row ∧ left ≤ i % width ∧ i % width < right := by
  by_cases hw : width = 0
  · omega
  have hpos : 0 < width := Nat.pos_of_ne_zero hw
  have hplace : i = width * (i / width) + i % width := (Nat.div_add_mod i width).symm
  have hcolumn : i % width < width := Nat.mod_lt i hpos
  constructor
  · rintro ⟨hfrom, hto⟩
    have hrow : i / width = row := by
      have hlow : row * width ≤ i := by omega
      have hhigh : i ≤ row * width + width - 1 := by omega
      exact (Nat.div_eq_iff hpos).mpr ⟨hlow, hhigh⟩
    rw [hrow, Nat.mul_comm] at hplace
    exact ⟨hrow, by omega, by omega⟩
  · rintro ⟨hrow, hleft, hlt⟩
    rw [hrow, Nat.mul_comm] at hplace
    omega

namespace Flat

variable {r s : Raster}

/-- Where the bytes of a raster can be counted, the `offset` of each of its pixels can be. -/
theorem offset_of (hr : r.Countable) {x y : Nat} (hx : x ≤ r.width) (hy : y < r.height) :
    (of r).offset x y = some ((y * r.width + x) * 4) := by
  have hplace : y * r.width + x ≤ r.width * r.height := Raster.place_le hx hy
  have hbytes := hr.bytes
  have hrow : y * (of r).width = y * r.width := rfl
  rw [offset, hrow, word_eq (by omega)]
  simp only [Option.bind_eq_bind, Option.bind_some]
  rw [word_eq (by omega), Option.bind_some, word_eq (by omega)]

/-- To `copyInto` a part of a row is to make the raster on which the pixels are there. -/
theorem copyInto_of (hsize : s.SameSize r) {left row : Nat} {cs : List Color}
    (hrow : row < r.height) (hright : left + cs.length ≤ r.width)
    (hpixel : ∀ x y, s.pixel? x y
      = if y = row ∧ left ≤ x ∧ x < left + cs.length then cs[x - left]? else r.pixel? x y) :
    copyInto (of r).data ((row * r.width + left) * 4) (pack cs) = some (of s).data := by
  have hend : row * r.width + left + cs.length ≤ r.colors.length := by
    rw [Raster.length_colors, Nat.add_assoc]
    exact Raster.place_le hright hrow
  show copyInto (pack r.colors) _ _ = some (pack s.colors)
  -- the bytes are those of pixels on both sides, so the colours can be compared place by place
  rw [copyInto_pack hend]
  refine congrArg (fun cs => some (pack cs)) (Raster.eq_colors ?_ fun i _ => ?_)
  · rw [List.length_append, List.length_append, List.length_take, List.length_drop, hsize.1,
      hsize.2, ← Raster.length_colors]
    omega
  · rw [getElem?_copied hend, hpixel, hsize.1, Nat.add_assoc, Raster.getElem?_colors]
    have hiff := mem_row_iff left row i hright
    by_cases hin : row * r.width + left ≤ i ∧ i < row * r.width + (left + cs.length)
    · obtain ⟨hsame, hfrom, hto⟩ := hiff.mp hin
      rw [if_pos hin, if_pos ⟨hsame, hfrom, hto⟩]
      have hplace := Nat.div_add_mod i r.width
      rw [hsame, Nat.mul_comm] at hplace
      congr 1
      omega
    · rw [if_neg hin, if_neg fun h => hin (hiff.mpr h)]

/-- A `Flat` raster of the same size is known by its `data`. -/
theorem with_data_of (hsize : s.SameSize r) : { of r with data := (of s).data } = of s := by
  unfold of
  rw [hsize.1, hsize.2]

/-- A machine clips by `saturatedWord` as one does without limits. -/
theorem min_saturatedWord {n side : Nat} (h : side < UInt64.size) :
    min (saturatedWord n) side = min n side := by
  unfold saturatedWord
  omega

/-! ### Filling -/

theorem fillRow_of (hr : r.Countable) {left right row : Nat} (hleft : left ≤ right)
    (hright : right ≤ r.width) (hrow : row < r.height) (c : Color) :
    (of r).fillRow left right c row = some (of (r.fill left row (right - left) 1 c)) := by
  let filled := r.fill left row (right - left) 1 c
  have hsize : filled.SameSize r := ⟨r.width_fill .., r.height_fill ..⟩
  have hspan : slice (of r).data _ _ = _ := Raster.slice_rowPart hleft hright hrow
  have hcopied : copyInto (of r).data ((row * r.width + left) * 4)
      (pack (List.replicate (right - left) c)) = some (of filled).data := by
    refine copyInto_of hsize hrow (by rw [List.length_replicate]; omega) fun x y => ?_
    rw [Raster.pixel?_fill, List.length_replicate]
    by_cases hin : y = row ∧ left ≤ x ∧ x < left + (right - left)
    · rw [if_pos hin, if_pos (by unfold Raster.Inside; omega),
        List.getElem?_replicate_of_lt (by omega)]
    · rw [if_neg hin, if_neg (by unfold Raster.Inside; omega)]
  rw [fillRow, offset_of hr (by omega) hrow, offset_of hr hright hrow]
  simp only [Option.bind_eq_bind, Option.bind_some]
  rw [hspan, Option.bind_some, recolor_pack,
    Raster.length_rowPart hright hrow, hcopied, Option.bind_some]
  exact congrArg some (with_data_of hsize)

/-- To `fill` a rectangle of the bytes of a raster does not fail, and it fills the rectangle. -/
theorem fill_of (hr : r.Countable) (x y w h : Nat) (c : Color) :
    (of r).fill x y w h c = some (of (r.fill x y w h c)) := by
  have hright : min (saturatedWord (x + w)) (of r).width = min (x + w) r.width :=
    min_saturatedWord hr.width
  have hbottom : min (saturatedWord (y + h)) (of r).height = min (y + h) r.height :=
    min_saturatedWord hr.height
  rw [fill, hright, hbottom, ← r.fill_clipped x y w h c]
  split
  · next hseen =>
    let filled : Nat → Raster := fun n => r.fill x y (min (x + w) r.width - x) n c
    have hfirst : of r = of (filled 0) := congrArg of (r.fill_empty x y c (.inr rfl)).symm
    rw [hfirst]
    -- what the loop carries is the rectangle filled down to the row that comes next
    refine loop_eq (fun n => of (filled n)) y fun k hk => ?_
    have hsize : (filled k).SameSize r := ⟨r.width_fill .., r.height_fill ..⟩
    have hrow : (of (filled k)).fillRow x (min (x + w) r.width) c (y + k)
        = some (of ((filled k).fill x (y + k) (min (x + w) r.width - x) 1 c)) :=
      fillRow_of (hr.of_sameSize hsize) (by omega) (by rw [hsize.1]; omega)
        (by rw [hsize.2]; omega) c
    rw [hrow, Raster.fill_fill_below]
  · next hunseen =>
    rw [r.fill_empty x y c (by omega)]

theorem clear_of (hr : r.Countable) (x y w h : Nat) :
    (of r).clear x y w h = some (of (r.clear x y w h)) :=
  fill_of hr x y w h .transparent

/-! ### Bitmaps -/

/-- Where a bitmap holds what of its next row falls on the raster, the bytes of that are copied into
    the row by `copyInto`. -/
theorem copyInto_row_of (bitmap : Array Color) {x y w k : Nat} (hx : x < min (x + w) r.width)
    (hrow : y + k < r.height)
    (hheld : k * w + (min (x + w) r.width - x) ≤ bitmap.size) :
    ∃ source, slice (pack bitmap.toList) (k * w * 4) ((k * w + (min (x + w) r.width - x)) * 4)
        = some source
      ∧ copyInto (of (r.put x y w k bitmap)).data (((y + k) * r.width + x) * 4) source
        = some (of (r.put x y w (k + 1) bitmap)).data := by
  let span := min (x + w) r.width - x
  have hstored : k * w + span ≤ bitmap.toList.length := by
    rw [Array.length_toList]
    exact hheld
  have hlength : ((bitmap.toList.take (k * w + span)).drop (k * w)).length = span := by
    rw [List.length_drop, List.length_take_of_le hstored]
    omega
  have hsize : (r.put x y w (k + 1) bitmap).SameSize (r.put x y w k bitmap) := ⟨rfl, rfl⟩
  refine ⟨_, slice_pack (by omega) hstored, copyInto_of hsize hrow ?_ fun i j => ?_⟩
  · rw [hlength]
    show x + span ≤ r.width
    omega
  · rw [hlength, Raster.pixel?_put, Raster.pixel?_put]
    -- what is put in this row, what was put in the rows above, and what was there before
    by_cases hin : j = y + k ∧ x ≤ i ∧ i < x + span
    · obtain ⟨rfl, hfrom, hto⟩ := hin
      have hk : y + k - y = k := by omega
      rw [if_pos (show y + k = y + k ∧ x ≤ i ∧ i < x + span from ⟨rfl, hfrom, hto⟩), hk,
        if_pos (by unfold Raster.Inside; omega), List.getElem?_drop,
        List.getElem?_take_of_lt (by omega), Array.getElem?_toList]
    · rw [if_neg hin]
      by_cases habove : Raster.Inside x y w k i j ∧ i < r.width ∧ j < r.height
          ∧ (j - y) * w + (min (x + w) r.width - x) ≤ bitmap.size
      · rw [if_pos habove, if_pos (by unfold Raster.Inside at *; omega)]
      · rw [if_neg habove, if_neg (by unfold Raster.Inside at *; omega)]

/-- The rows of a bitmap are put by `putRows` one after the other, as long as there are any. -/
theorem putRows_of (hr : r.Countable) (bitmap : Array Color) {x w h : Nat}
    (hbitmap : w * h * 4 < UInt64.size) (hx : x < min (x + w) r.width) (y k n : Nat)
    (hrows : k + n ≤ h) (hheight : y + k + n ≤ r.height) :
    putRows (pack bitmap.toList) x y w ((min (x + w) r.width - x) * 4) (y + k) n
        (of (r.put x y w k bitmap))
      = some (of (r.put x y w (k + n) bitmap)) := by
  induction n generalizing k with
  | zero => rfl
  | succ n ih =>
    let span := min (x + w) r.width - x
    have hbefore : (r.put x y w k bitmap).Countable := hr.of_sameSize ⟨rfl, rfl⟩
    have hsize : (r.put x y w (k + 1) bitmap).SameSize (r.put x y w k bitmap) := ⟨rfl, rfl⟩
    have hnext := ih (k + 1) (by omega) (by omega)
    -- the places in the bitmap are among those that it should have
    have hend : k * w + span ≤ w * h := by
      calc k * w + span ≤ (k + 1) * w := by
            rw [Nat.add_mul, Nat.one_mul]
            omega
        _ ≤ h * w := Nat.mul_le_mul_right w (by omega)
        _ = w * h := Nat.mul_comm ..
    have habove : minus (y + k) y = some k := by
      rw [minus_eq (by omega), Nat.add_sub_cancel_left]
    have hstop : k * w * 4 + span * 4 = (k * w + span) * 4 := (Nat.add_mul ..).symm
    have hlength : (pack bitmap.toList).length = bitmap.size * 4 := by
      rw [length_pack, Array.length_toList]
    have hoffset : (of (r.put x y w k bitmap)).offset x (y + k)
        = some (((y + k) * r.width + x) * 4) :=
      offset_of hbefore (show x ≤ r.width by omega) (show y + k < r.height by omega)
    rw [putRows, habove]
    simp only [Option.bind_eq_bind, Option.bind_some]
    rw [word_eq (show k * w < UInt64.size by omega), Option.bind_some,
      word_eq (show k * w * 4 < UInt64.size by omega), Option.bind_some, hstop,
      word_eq (show (k * w + span) * 4 < UInt64.size by omega), Option.bind_some, hlength,
      hoffset]
    have hrest : k + (n + 1) = k + 1 + n := by omega
    by_cases hshort : bitmap.size * 4 < (k * w + span) * 4
    -- the machine stops where the bitmap ends, and the rows that are left are never put
    · have hmissing : bitmap.size < k * w + span := by omega
      have hsame : ∀ m, r.put x y w (k + m) bitmap = r.put x y w k bitmap := by
        intro m
        induction m with
        | zero => rfl
        | succ m ihm =>
          have hlater : k * w ≤ (k + m) * w := Nat.mul_le_mul_right w (by omega)
          rw [← Nat.add_assoc, r.put_succ_of_short x y w bitmap (by omega), ihm]
      rw [if_pos hshort, hsame]
      rfl
    · obtain ⟨source, hslice, hcopied⟩ :=
        copyInto_row_of bitmap hx (show y + k < r.height by omega) (by omega)
      rw [if_neg hshort, hslice, Option.bind_some, Option.bind_some, hcopied, Option.bind_some,
        with_data_of hsize, Nat.add_assoc y, hnext, hrest]

/-- To `put` the bytes of a bitmap on those of a raster does not fail, if the bytes of the bitmap
    can be counted, and it puts the bitmap on the raster. -/
theorem put_of (hr : r.Countable) {x y w h : Nat} (hbitmap : w * h * 4 < UInt64.size)
    (bitmap : Array Color) :
    (of r).put x y w h (pack bitmap.toList) = some (of (r.put x y w h bitmap)) := by
  have hright : min (saturatedWord (x + w)) (of r).width = min (x + w) r.width :=
    min_saturatedWord hr.width
  have hbottom : min (saturatedWord (y + h)) (of r).height = min (y + h) r.height :=
    min_saturatedWord hr.height
  rw [put, hright, hbottom]
  split
  · next hseen =>
    -- the part of a row that falls on the raster is not longer than the row
    have hspan : (min (x + w) r.width - x) * 4 < UInt64.size := by
      have hrow := hr.row_lt (by omega)
      omega
    have hempty : r.put x y w 0 bitmap = r := by
      refine Raster.ext_pixel rfl rfl fun i j => ?_
      rw [Raster.pixel?_put, if_neg (by unfold Raster.Inside; omega)]
    have hrows := putRows_of hr bitmap hbitmap hseen.1 y 0 (min (y + h) r.height - y)
      (by omega) (by omega)
    rw [hempty, Nat.zero_add, Nat.add_zero, r.put_clipped] at hrows
    rw [minus_eq (show x ≤ min (x + w) r.width by omega)]
    simp only [Option.bind_eq_bind, Option.bind_some]
    rw [word_eq hspan, Option.bind_some]
    exact hrows
  · next hunseen =>
    rw [r.put_off x y w h bitmap hunseen]

/-! ### Moving -/

/-- The colours of a raster that has moved up are those of the rows from `k` on, and in the rows
    that are left the old ones. -/
theorem colors_shiftUp {k : Nat} (hk : 0 < k ∧ k < r.height) :
    r.colors.take 0 ++ r.colors.drop (k * r.width)
        ++ r.colors.drop (0 + (r.colors.drop (k * r.width)).length)
      = (r.shiftUp k).colors := by
  have hsize : (r.shiftUp k).SameSize r := ⟨r.width_shiftUp k, r.height_shiftUp k⟩
  have hrows : k * r.width + (r.height - k) * r.width = r.width * r.height := by
    rw [← Nat.add_mul, Nat.add_sub_cancel' (by omega), Nat.mul_comm]
  have hmoved : (r.colors.drop (k * r.width)).length = (r.height - k) * r.width := by
    rw [List.length_drop, Raster.length_colors]
    omega
  have hend : 0 + (r.colors.drop (k * r.width)).length ≤ r.colors.length := by
    rw [List.length_drop]
    omega
  refine Raster.eq_colors ?_ fun i _ => ?_
  · rw [hsize.1, hsize.2, List.length_append, List.length_append, List.length_take, hmoved,
      List.length_drop, Raster.length_colors]
    omega
  · rw [getElem?_copied hend, hmoved, Raster.pixel?_shiftUp, hsize.1, Nat.sub_zero,
      List.getElem?_drop, Raster.getElem?_colors, Raster.getElem?_colors]
    by_cases hw : r.width = 0
    · have hnone : ∀ x y, r.pixel? x y = none := fun x y =>
        (r.pixel?_eq_none_iff x y).mpr (.inl (by omega))
      rw [hnone, hnone, hnone, ite_self, ite_self]
    -- the place `k` rows on is in the same column, and it is there if its row is
    have hpos : 0 < r.width := Nat.pos_of_ne_zero hw
    have hcolumn : (k * r.width + i) % r.width = i % r.width := Nat.mul_add_mod' ..
    have hrow : (k * r.width + i) / r.width = i / r.width + k := by
      rw [Nat.mul_comm, Nat.mul_add_div hpos, Nat.add_comm]
    have hiff : i / r.width < r.height - k ↔ i < (r.height - k) * r.width :=
      Nat.div_lt_iff_lt_mul hpos
    rw [hcolumn, hrow]
    by_cases hin : i < (r.height - k) * r.width
    · have hless := hiff.mpr hin
      rw [if_pos ⟨Nat.zero_le i, by omega⟩, if_pos (by omega)]
    · have hmore := fun h => hin (hiff.mp h)
      rw [if_neg (by omega), if_neg (by omega)]

/-- To `shiftUp` the bytes of a raster does not fail, and it moves the picture up. -/
theorem shiftUp_of (hr : r.Countable) (k : Nat) :
    (of r).shiftUp k = some (of (r.shiftUp k)) := by
  have hsize : (r.shiftUp k).SameSize r := ⟨r.width_shiftUp k, r.height_shiftUp k⟩
  by_cases hk : 0 < k ∧ k < r.height
  · have hplaces : k * r.width ≤ r.colors.length := by
      rw [Raster.length_colors, Nat.mul_comm]
      exact Nat.mul_le_mul_left r.width (Nat.le_of_lt hk.2)
    have hbytes : r.colors.length * 4 < UInt64.size := by
      rw [Raster.length_colors]
      exact hr.bytes
    have hstride : r.width * 4 < UInt64.size := hr.row_lt (by omega)
    have hplace : k * (r.width * 4) = k * r.width * 4 := (Nat.mul_assoc ..).symm
    -- all rows from the `k`-th on are read before they are written, so nothing is lost
    have hmoved : slice (of r).data (k * r.width * 4) (of r).data.length
        = some (pack (r.colors.drop (k * r.width))) := by
      have hpart := slice_pack hplaces (Nat.le_refl _)
      rw [List.take_length, ← length_pack] at hpart
      exact hpart
    have hcopied : copyInto (of r).data 0 (pack (r.colors.drop (k * r.width)))
        = some (of (r.shiftUp k)).data := by
      have hend : 0 + (r.colors.drop (k * r.width)).length ≤ r.colors.length := by
        rw [List.length_drop]
        omega
      have hcopy := copyInto_pack hend
      rw [colors_shiftUp hk] at hcopy
      exact hcopy
    have hsome : ¬ (k = 0 ∨ (of r).height ≤ k) := by
      show ¬ (k = 0 ∨ r.height ≤ k)
      omega
    have hwidth : (of r).width = r.width := rfl
    rw [shiftUp, if_neg hsome, hwidth, word_eq hstride]
    simp only [Option.bind_eq_bind, Option.bind_some]
    rw [hplace, word_eq (by omega), Option.bind_some, hmoved, Option.bind_some, hcopied,
      Option.bind_some]
    exact congrArg some (with_data_of hsize)
  -- a shift by nothing, or by all rows, leaves the bytes as they are
  · have hnone : k = 0 ∨ (of r).height ≤ k := by
      show k = 0 ∨ r.height ≤ k
      omega
    have hsame : r.shiftUp k = r := if_neg hk
    rw [shiftUp, if_pos hnone, hsame]

/-! ### New rasters -/

/-- Making a `new` raster whose bytes there is room for does not fail. -/
theorem new_of {width height : Nat} (h : width * height * 4 < 2 ^ 63) :
    new width height = some (of (.blank width height)) := by
  have hlimit : (2 : Nat) ^ 63 < UInt64.size := by decide
  have hcount : (word (width * height)).bind (fun n => word (n * 4))
      = some (width * height * 4) := by
    rw [word_eq (by omega), Option.bind_some, word_eq (by omega)]
  have hblank : Raster.blank width height = .solid width height .transparent :=
    if_pos (show width * height * 4 < UInt64.size by omega)
  rw [new, hcount, hblank]
  dsimp only
  rw [zeros, if_pos h, ← pack_transparent, ← Raster.colors_solid width height]
  rfl

end Flat

end Machine

end TextArt
