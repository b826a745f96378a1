import TextArt.Color

namespace TextArt

/-!
# Rasters — rectangles of pixels

* `Raster` — rows of colours, all as wide as the raster says;
* `Raster.pixel?` — the view of a raster: the colour at a place, if the place is on it;
* `Raster.ext_pixel` — two rasters of one size with the same pixels are equal;
* `Raster.update` — the one way to change rows; `Raster.pixel?_update` says what the
  view makes of it, and every drawing operation is an instance of the two.

A raster without columns stores no rows however tall it is.
-/

/-- A rectangle of pixels, of which `pixel?` is the view. -/
structure Raster where
  width : Nat
  height : Nat
  /-- The pixel rows from the top down, or none if the raster has no columns; each of them is as
      long as `width`. -/
  rows : Array (Array Color)
  size_rows : rows.size = if width = 0 then 0 else height
  size_row : ∀ (y : Nat) (h : y < rows.size), rows[y].size = width
  deriving DecidableEq

namespace Raster

/-- The colour at column `x` of row `y`, counted from the upper left corner. -/
def pixel? (r : Raster) (x y : Nat) : Option Color :=
  r.rows[y]?.bind (·[x]?)

/-- A place on the raster has a colour, which is stored in `rows`. -/
theorem pixel?_eq_some_getElem (r : Raster) {x y : Nat} (hx : x < r.width) (hy : y < r.height) :
    ∃ (h : y < r.rows.size) (h' : x < (r.rows[y]).size),
      r.pixel? x y = some ((r.rows[y])[x]) := by
  have hr : y < r.rows.size := by
    rw [r.size_rows, if_neg (by omega)]
    exact hy
  have hc : x < (r.rows[y]).size := by rw [r.size_row y hr]; exact hx
  exact ⟨hr, hc, by simp [pixel?, hr, hc]⟩

/-- Exactly the places within `width` and `height` have a colour. -/
theorem isSome_pixel?_iff (r : Raster) (x y : Nat) :
    (r.pixel? x y).isSome ↔ x < r.width ∧ y < r.height := by
  constructor
  · intro h
    by_cases hy : y < r.rows.size
    · simp only [pixel?, Array.getElem?_eq_getElem hy, Option.bind_some] at h
      have hx : x < (r.rows[y]).size := by simpa using h
      rw [r.size_row y hy] at hx
      have hs := r.size_rows
      rw [if_neg (by omega)] at hs
      exact ⟨hx, by omega⟩
    · simp [pixel?, hy] at h
  · rintro ⟨hx, hy⟩
    obtain ⟨_, _, h⟩ := r.pixel?_eq_some_getElem hx hy
    simp [h]

/-- A place beyond `width` or `height` has no colour. -/
theorem pixel?_eq_none_iff (r : Raster) (x y : Nat) :
    r.pixel? x y = none ↔ r.width ≤ x ∨ r.height ≤ y := by
  have h := r.isSome_pixel?_iff x y
  cases hp : r.pixel? x y with
  | none =>
    simp only [hp, Option.isSome_none, Bool.false_eq_true, false_iff] at h
    constructor
    · intro _
      by_cases hx : r.width ≤ x
      · exact .inl hx
      · exact .inr (Nat.not_lt.1 fun hy => h ⟨by omega, hy⟩)
    · intro _; rfl
  | some c =>
    simp only [hp, Option.isSome_some, true_iff] at h
    constructor
    · intro h'; simp at h'
    · rintro (h' | h') <;> omega

/-- Rasters of one size are equal if `pixel?` is the same for both. -/
theorem ext_pixel {r s : Raster} (hw : r.width = s.width) (hh : r.height = s.height)
    (h : ∀ x y, r.pixel? x y = s.pixel? x y) : r = s := by
  -- the sides agree, so the rows are compared one by one and pixel by pixel
  have hsize : r.rows.size = s.rows.size := by rw [r.size_rows, s.size_rows, hw, hh]
  have hrows : r.rows = s.rows := by
    apply Array.ext hsize
    intro y hy hy'
    apply Array.ext (by rw [r.size_row y hy, s.size_row y hy', hw])
    intro x hx hx'
    have := h x y
    simpa [pixel?, hy, hy', hx, hx'] using this
  obtain ⟨rw', rh, rr, _, _⟩ := r
  obtain ⟨sw, sh, sr, _, _⟩ := s
  simp only at hw hh hrows
  subst hw hh hrows
  rfl

/-! ### Making rasters -/

/-- The raster of a size whose colours a function `f` gives, by column and row. -/
def generate (width height : Nat) (f : Nat → Nat → Color) : Raster where
  width := width
  height := height
  rows := Array.ofFn fun y : Fin (if width = 0 then 0 else height) =>
    Array.ofFn fun x : Fin width => f x y
  size_rows := Array.size_ofFn
  size_row := by
    intro y h
    simp

/-- A raster from `generate` shows the function `f` on all its places. -/
theorem pixel?_generate {width height x y : Nat} (f : Nat → Nat → Color)
    (hx : x < width) (hy : y < height) :
    (generate width height f).pixel? x y = some (f x y) := by
  have hw : ¬ width = 0 := by omega
  simp [pixel?, generate, hx, hy, hw]

/-- One more than the largest number of bytes that a raster may take up; see `blank`. -/
def byteLimit : Nat := UInt64.size

/-- The raster of one colour `c` and a size. -/
def solid (width height : Nat) (c : Color) : Raster where
  width := width
  height := height
  rows :=
    -- no row is made that is not kept, as it may be a very long one
    if height = 0 then #[]
    else Array.replicate (if width = 0 then 0 else height) (Array.replicate width c)
  size_rows := by
    split
    · next h => simp [h]
    · exact Array.size_replicate
  size_row := by
    intro y h
    split at h
    · simp at h
    · simp [*]

/-- A raster that is `solid` shows its colour on all its places. -/
theorem pixel?_solid {width height x y : Nat} (c : Color) (hx : x < width) (hy : y < height) :
    (solid width height c).pixel? x y = some c := by
  have hw : ¬ width = 0 := by omega
  have hh : ¬ height = 0 := by omega
  simp [pixel?, solid, hx, hy, hw, hh]

/-- A raster that nothing was drawn on.  A size whose bytes cannot be counted below `byteLimit`
    gives the raster without any pixels. -/
def blank (width height : Nat) : Raster :=
  if width * height * 4 < byteLimit then solid width height .transparent
  else solid 0 0 .transparent

/-- The four bytes of every pixel, row after row of `rows`. -/
def toBytes (r : Raster) : ByteArray :=
  r.rows.foldl (fun out row => row.foldl
    (fun out c => (((out.push c.red).push c.green).push c.blue).push c.alpha) out)
    (ByteArray.emptyWithCapacity (r.rows.size * r.width * 4))

/-- The pixels in a run of bytes, four of them to a `Color`; up to three bytes at the end that make
    no pixel are passed over. -/
def colorsOfBytes : List UInt8 → List Color
  | red :: green :: blue :: alpha :: rest => ⟨red, green, blue, alpha⟩ :: colorsOfBytes rest
  | _ => []

/-- Every four bytes make one of the `colorsOfBytes`. -/
theorem length_colorsOfBytes (bytes : List UInt8) :
    (colorsOfBytes bytes).length = bytes.length / 4 := by
  induction bytes using colorsOfBytes.induct with
  | case1 red green blue alpha rest ih =>
    simp only [colorsOfBytes, List.length_cons, ih]
    omega
  | case2 bytes h =>
    -- fewer than four bytes make no pixel
    match bytes, h with
    | [], _ => rfl
    | [_], _ => simp [colorsOfBytes]
    | [_, _], _ => simp [colorsOfBytes]
    | [_, _, _], _ => simp [colorsOfBytes]
    | a :: b :: c :: d :: rest, h => exact absurd rfl (h a b c d rest)

/-! ### Changing rows -/

/-- Apply `f` to the `n` rows from `y` on. -/
def changeRows (f : Nat → Array Color → Array Color) (rows : Array (Array Color)) (y : Nat) :
    Nat → Array (Array Color)
  | 0 => rows
  | n + 1 => changeRows f (rows.modify y (f y)) (y + 1) n

@[simp] theorem size_changeRows (f : Nat → Array Color → Array Color)
    (rows : Array (Array Color)) (y n : Nat) :
    (changeRows f rows y n).size = rows.size := by
  induction n generalizing rows y with
  | zero => rfl
  | succ n ih => simp [changeRows, ih]

/-- With `changeRows` the rows of the span are changed, each according to its place, and no
    others. -/
theorem getElem?_changeRows (f : Nat → Array Color → Array Color)
    (rows : Array (Array Color)) (y n j : Nat) :
    (changeRows f rows y n)[j]?
      = if y ≤ j ∧ j < y + n then rows[j]?.map (f j) else rows[j]? := by
  induction n generalizing rows y with
  | zero =>
    rw [if_neg (by omega)]
    rfl
  | succ n ih =>
    rw [changeRows, ih, Array.getElem?_modify]
    by_cases hj : y = j
    -- the row at `y` is changed by this step, and the others by the steps after it
    · subst hj
      rw [if_neg (by omega), if_pos rfl, if_pos (by omega)]
    · rw [if_neg hj]
      by_cases hin : y + 1 ≤ j ∧ j < y + 1 + n
      · rw [if_pos hin, if_pos (by omega)]
      · rw [if_neg hin, if_neg (by omega)]

/-- Apply `f` to the rows from `y` up to `y'`, as far as they exist. -/
def update (r : Raster) (f : Nat → Array Color → Array Color)
    (hf : ∀ y row, row.size = r.width → (f y row).size = r.width) (y y' : Nat) : Raster where
  width := r.width
  height := r.height
  rows := changeRows f r.rows y (min y' r.rows.size - y)
  size_rows := by rw [size_changeRows, r.size_rows]
  size_row := by
    intro j h
    have hj : j < r.rows.size := by simpa using h
    have hget := getElem?_changeRows f r.rows y (min y' r.rows.size - y) j
    rw [Array.getElem?_eq_getElem h, Array.getElem?_eq_getElem hj] at hget
    split at hget
    · simp only [Option.map_some, Option.some.injEq] at hget
      rw [hget]
      exact hf j _ (r.size_row j hj)
    · simp only [Option.some.injEq] at hget
      rw [hget]
      exact r.size_row j hj

variable (r : Raster) (f : Nat → Array Color → Array Color)
  (hf : ∀ y row, row.size = r.width → (f y row).size = r.width)

@[simp] theorem width_update (y y' : Nat) : (r.update f hf y y').width = r.width := rfl

@[simp] theorem height_update (y y' : Nat) : (r.update f hf y y').height = r.height := rfl

/-- Inside the span of an `update` a pixel is read from the changed row, outside of it nothing has
    happened. -/
theorem pixel?_update (y y' i j : Nat) :
    (r.update f hf y y').pixel? i j
      = if y ≤ j ∧ j < y' then r.rows[j]?.bind (fun row => (f j row)[i]?)
        else r.pixel? i j := by
  simp only [pixel?, update, getElem?_changeRows]
  by_cases hj : j < r.rows.size
  · by_cases hin : y ≤ j ∧ j < y'
    · rw [if_pos (by omega), if_pos hin]
      simp [hj]
    · rw [if_neg (by omega), if_neg hin]
  · rw [if_neg (by omega)]
    simp [hj]

end Raster

end TextArt
