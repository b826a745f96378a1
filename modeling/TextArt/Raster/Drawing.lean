import TextArt.Raster.Basic

namespace TextArt.Raster

/-!
# Drawing — what can be done to the pixels of a raster

Every operation clips to the raster and leaves its size alone.

* `fill`, `clear` — one colour over a rectangle;
* `put` — a bitmap, row by row, as far as it holds whole rows;
* `shiftUp` — the picture moved towards the top, its last rows left behind;
* `overlay` — another raster laid over this one;
* `copy` — the pixels of another raster in place of these.

The `pixel?_…` statements say of each of them which pixels it changes, and to what.
-/

/-- Write the colours of `f`, which are counted like the columns, over `n` columns
    from `x` on. -/
def overwrite (f : Nat → Color) (row : Array Color) (x : Nat) : Nat → Array Color
  | 0 => row
  | n + 1 => overwrite f (row.setIfInBounds x (f x)) (x + 1) n

@[simp] theorem size_overwrite (f : Nat → Color) (row : Array Color) (x n : Nat) :
    (overwrite f row x n).size = row.size := by
  induction n generalizing row x with
  | zero => rfl
  | succ n ih => simp [overwrite, ih]

/-- The columns of the span get the colours of `f`, the others keep theirs. -/
theorem getElem?_overwrite (f : Nat → Color) (row : Array Color) (x n i : Nat) :
    (overwrite f row x n)[i]?
      = if x ≤ i ∧ i < x + n ∧ i < row.size then some (f i) else row[i]? := by
  induction n generalizing row x with
  | zero =>
    rw [if_neg (by omega)]
    rfl
  | succ n ih =>
    rw [overwrite, ih, Array.getElem?_setIfInBounds, Array.size_setIfInBounds]
    by_cases hi : x = i
    -- the pixel at `x` is set by this step, and no later one comes back to it
    · subst hi
      by_cases hs : x < row.size
      · rw [if_neg (by omega), if_pos rfl, if_pos hs, if_pos (by omega)]
      · rw [if_neg (by omega), if_pos rfl, if_neg hs, if_neg (by omega)]
        simp [hs]
    · rw [if_neg hi]
      by_cases hin : x + 1 ≤ i ∧ i < x + 1 + n ∧ i < row.size
      · rw [if_pos hin, if_pos (by omega)]
      · rw [if_neg hin, if_neg (by omega)]

/-- Whether a place lies in the rectangle of `w` columns and `h` rows whose upper left
    corner is `x`, `y`. -/
abbrev Inside (x y w h i j : Nat) : Prop :=
  x ≤ i ∧ i < x + w ∧ y ≤ j ∧ j < y + h

variable (r : Raster)

/-! ### One colour -/

/-- Give a rectangle one colour, by `update`.  A rectangle as wide as the raster gets whole rows,
    which then share their storage. -/
def fill (x y w h : Nat) (c : Color) : Raster :=
  if x = 0 ∧ r.width ≤ w ∧ 0 < r.height then
    let row := Array.replicate r.width c
    r.update (fun _ _ => row) (fun _ _ _ => Array.size_replicate) y (y + h)
  else
    let span := min (x + w) r.width - x
    r.update (fun _ row => overwrite (fun _ => c) row x span)
      (fun _ _ hrow => by simpa using hrow) y (y + h)

@[simp] theorem width_fill (x y w h : Nat) (c : Color) : (r.fill x y w h c).width = r.width := by
  unfold fill
  split <;> rfl

@[simp] theorem height_fill (x y w h : Nat) (c : Color) :
    (r.fill x y w h c).height = r.height := by
  unfold fill
  split <;> rfl

/-- A pixel changes under `fill` exactly if it lies `Inside` the rectangle. -/
theorem pixel?_fill (x y w h : Nat) (c : Color) (i j : Nat) :
    (r.fill x y w h c).pixel? i j
      = if Inside x y w h i j ∧ i < r.width ∧ j < r.height then some c else r.pixel? i j := by
  by_cases hj : j < r.rows.size
  · have hsize := r.size_row j hj
    -- a raster without columns has no rows, so only one with columns has them up to its height
    have hh : r.width ≠ 0 → j < r.height := by
      intro hw
      have := r.size_rows
      rw [if_neg hw] at this
      omega
    unfold fill
    split
    · next hx =>
      -- where the rectangle is as wide as the raster, the row is replaced as a whole
      rw [pixel?_update]
      by_cases hin : y ≤ j ∧ j < y + h
      · rw [if_pos hin]
        simp only [Array.getElem?_eq_getElem hj, Option.bind_some, Array.getElem?_replicate]
        by_cases hi : i < r.width
        · have := hh (by omega)
          rw [if_pos hi, if_pos (by unfold Inside; omega)]
        · rw [if_neg hi, if_neg (by unfold Inside; omega), eq_comm, pixel?_eq_none_iff]
          omega
      · rw [if_neg hin, if_neg (by unfold Inside; omega)]
    · rw [pixel?_update]
      by_cases hin : y ≤ j ∧ j < y + h
      · rw [if_pos hin]
        simp only [Array.getElem?_eq_getElem hj, Option.bind_some, getElem?_overwrite, hsize]
        by_cases hi : Inside x y w h i j ∧ i < r.width ∧ j < r.height
        · rw [if_pos hi, if_pos (by unfold Inside at hi; omega)]
        · rw [if_neg hi, if_neg, pixel?, Array.getElem?_eq_getElem hj, Option.bind_some]
          intro hc
          have := hh (by omega)
          exact hi ⟨by unfold Inside; omega, by omega, this⟩
      · rw [if_neg hin, if_neg (by unfold Inside; omega)]
  -- below the last row neither raster has a pixel
  · have hnone : ∀ s : Raster, s.rows.size = r.rows.size → s.pixel? i j = none := by
      intro s hs
      simp [pixel?, hs, hj]
    have hfill : (r.fill x y w h c).rows.size = r.rows.size := by
      unfold fill
      split <;> simp [update]
    rw [hnone _ hfill, if_neg, hnone r rfl]
    rintro ⟨_, hi, hlt⟩
    have := r.size_rows
    rw [if_neg (by omega)] at this
    omega

/-- Take away everything that was drawn in a rectangle: `fill` it with `Color.transparent`. -/
def clear (x y w h : Nat) : Raster :=
  r.fill x y w h .transparent

@[simp] theorem width_clear (x y w h : Nat) : (r.clear x y w h).width = r.width :=
  r.width_fill ..

@[simp] theorem height_clear (x y w h : Nat) : (r.clear x y w h).height = r.height :=
  r.height_fill ..

/-! ### Bitmaps -/

/-- Put a bitmap of `w` columns and `h` rows at a place.  A row of the bitmap is drawn
    if the bitmap holds all of it that falls on the raster. -/
def put (x y w h : Nat) (bitmap : Array Color) : Raster :=
  let span := min (x + w) r.width - x
  r.update
    (fun j row =>
      let first := (j - y) * w
      if first + span ≤ bitmap.size then
        overwrite (fun i => bitmap.getD (first + (i - x)) .transparent) row x span
      else row)
    (fun _ _ hrow => by dsimp only; split <;> simpa using hrow) y (y + h)

@[simp] theorem width_put (x y w h : Nat) (b : Array Color) :
    (r.put x y w h b).width = r.width := rfl

@[simp] theorem height_put (x y w h : Nat) (b : Array Color) :
    (r.put x y w h b).height = r.height := rfl

/-- A pixel changes under `put` exactly if it lies `Inside` the rectangle and the bitmap `b` holds
    its row as far as the row falls on the raster; it then shows the bitmap. -/
theorem pixel?_put (x y w h : Nat) (b : Array Color) (i j : Nat) :
    (r.put x y w h b).pixel? i j
      = if Inside x y w h i j ∧ i < r.width ∧ j < r.height
            ∧ (j - y) * w + (min (x + w) r.width - x) ≤ b.size
        then b[(j - y) * w + (i - x)]? else r.pixel? i j := by
  rw [put, pixel?_update]
  by_cases hj : j < r.rows.size
  · have hsize := r.size_row j hj
    by_cases hin : y ≤ j ∧ j < y + h
    · rw [if_pos hin]
      simp only [Array.getElem?_eq_getElem hj, Option.bind_some]
      by_cases hb : (j - y) * w + (min (x + w) r.width - x) ≤ b.size
      · rw [if_pos hb, getElem?_overwrite, hsize]
        by_cases hi : x ≤ i ∧ i < x + w ∧ i < r.width
        -- only a raster with columns has rows up to its height, and this place has a column
        · have hh : j < r.height := by
            have := r.size_rows
            rw [if_neg (by omega)] at this
            omega
          rw [if_pos (by omega), if_pos ⟨by unfold Inside; omega, by omega, hh, hb⟩]
          have hlt : (j - y) * w + (i - x) < b.size := by omega
          simp [Array.getD, hlt]
        · rw [if_neg (by omega), if_neg (by unfold Inside; omega), pixel?,
            Array.getElem?_eq_getElem hj, Option.bind_some]
      · rw [if_neg hb, if_neg (by omega), pixel?, Array.getElem?_eq_getElem hj, Option.bind_some]
    · rw [if_neg hin, if_neg (by unfold Inside; omega)]
  · have hnone : r.pixel? i j = none := by simp [pixel?, hj]
    have hneg : ¬ (i < r.width ∧ j < r.height) := by
      rintro ⟨hi, hlt⟩
      have := r.size_rows
      rw [if_neg (by omega)] at this
      omega
    have hout : ¬ (Inside x y w h i j ∧ i < r.width ∧ j < r.height
        ∧ (j - y) * w + (min (x + w) r.width - x) ≤ b.size) :=
      fun hc => hneg ⟨hc.2.1, hc.2.2.1⟩
    rw [if_neg hout, hnone]
    simp [hj]

/-! ### Moving -/

/-- Move the picture up by `k` rows.  The last `k` rows keep what they show; a shift
    by no row or by the whole height does nothing. -/
def shiftUp (k : Nat) : Raster :=
  if 0 < k ∧ k < r.height then
    { r with
      rows := r.rows.extract k r.rows.size
        ++ r.rows.extract (r.rows.size - k) r.rows.size
      size_rows := by
        have := r.size_rows
        simp only [Array.size_append, Array.size_extract]
        split at this
        · next hw => rw [if_pos hw]; omega
        · next hw => rw [if_neg hw]; omega
      size_row := by
        intro y h
        rw [Array.getElem_append]
        split
        · rw [Array.getElem_extract]
          exact r.size_row ..
        · rw [Array.getElem_extract]
          exact r.size_row .. }
  else r

@[simp] theorem width_shiftUp (k : Nat) : (r.shiftUp k).width = r.width := by
  unfold shiftUp
  split <;> rfl

@[simp] theorem height_shiftUp (k : Nat) : (r.shiftUp k).height = r.height := by
  unfold shiftUp
  split <;> rfl

/-- A pixel comes from `k` rows below if there is such a row, and stays otherwise. -/
theorem pixel?_shiftUp (k i j : Nat) :
    (r.shiftUp k).pixel? i j
      = if k < r.height ∧ j + k < r.height then r.pixel? i (j + k) else r.pixel? i j := by
  -- without columns there is no pixel to be moved
  by_cases hw : r.width = 0
  · have hnone : ∀ (s : Raster) (y : Nat), s.width = r.width → s.pixel? i y = none := by
      intro s y hs
      rw [pixel?_eq_none_iff]
      omega
    rw [hnone _ _ (r.width_shiftUp k), hnone r _ rfl, hnone r _ rfl]
    simp
  · have hsize := r.size_rows
    rw [if_neg hw] at hsize
    unfold shiftUp
    split
    · next hk =>
      simp only [pixel?, Array.getElem?_append, Array.size_extract, Array.getElem?_extract]
      by_cases hj : j + k < r.height
      · rw [if_pos (by omega), if_pos (by omega), if_pos (by omega), Nat.add_comm k j]
      · rw [if_neg (by omega), if_neg (show ¬ (k < r.height ∧ j + k < r.height) by omega)]
        -- the last rows are left as they were, since there is nothing below to take
        by_cases hj' : j < r.height
        · rw [if_pos (by omega)]
          congr 2
          omega
        · rw [if_neg (by omega)]
          simp [show ¬ j < r.rows.size by omega]
    · by_cases hk : k = 0
      · subst hk
        simp
      · rw [if_neg (by omega)]

/-! ### Two rasters -/

/-- Whether two rasters have one size, which is a `width` and a `height`. -/
def SameSize (r s : Raster) : Prop :=
  r.width = s.width ∧ r.height = s.height

instance (r s : Raster) : Decidable (r.SameSize s) := inferInstanceAs (Decidable (_ ∧ _))

/-- Rasters of the `SameSize` store the same number of rows. -/
theorem SameSize.size_rows {r s : Raster} (h : r.SameSize s) : r.rows.size = s.rows.size := by
  rw [r.size_rows, s.size_rows, h.1, h.2]

/-- Lay `top` over this raster, if it has the same size. -/
def overlay (r top : Raster) : Raster :=
  if h : r.SameSize top then
    { r with
      rows := Array.zipWith (Array.zipWith fun t b => t.onto b) top.rows r.rows
      size_rows := by rw [Array.size_zipWith, h.size_rows, Nat.min_self, ← h.size_rows, r.size_rows]
      size_row := by
        intro y hy
        rw [Array.getElem_zipWith, Array.size_zipWith, top.size_row, r.size_row, h.1,
          Nat.min_self] }
  else r

@[simp] theorem width_overlay (top : Raster) : (r.overlay top).width = r.width := by
  unfold overlay
  split <;> rfl

@[simp] theorem height_overlay (top : Raster) : (r.overlay top).height = r.height := by
  unfold overlay
  split <;> rfl

/-- Every pixel of an `overlay` is the pixel of the top laid `Color.onto` the one below. -/
theorem pixel?_overlay {top : Raster} (h : r.SameSize top) (i j : Nat) :
    (r.overlay top).pixel? i j
      = (top.pixel? i j).bind fun t => (r.pixel? i j).map fun b => t.onto b := by
  rw [overlay, dif_pos h]
  simp only [pixel?, Array.getElem?_zipWith]
  cases htop : top.rows[j]? with
  | none => simp
  | some trow =>
    cases hrow : r.rows[j]? with
    | none =>
      have h1 : j < top.rows.size := (Array.getElem?_eq_some_iff.1 htop).1
      have h2 : r.rows.size ≤ j := by simpa using hrow
      have := h.size_rows
      omega
    | some brow =>
      simp only [Option.bind_some, Array.getElem?_zipWith]
      cases trow[i]? <;> cases brow[i]? <;> rfl

/-- The pixels of `source` in place of these, if it has the same size. -/
def copy (r source : Raster) : Raster :=
  if r.SameSize source then source else r

@[simp] theorem width_copy (source : Raster) : (r.copy source).width = r.width := by
  unfold copy
  split
  · next h => exact h.1.symm
  · rfl

@[simp] theorem height_copy (source : Raster) : (r.copy source).height = r.height := by
  unfold copy
  split
  · next h => exact h.2.symm
  · rfl

end TextArt.Raster
