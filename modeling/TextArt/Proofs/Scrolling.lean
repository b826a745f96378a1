import Mathlib.Logic.Function.Iterate
import TextArt.Proofs.Frames
import TextArt.Proofs.Machine.Surface

namespace TextArt

/-!
# Scrolling — many rows up at once

A scroll moves the rasters in place and leaves the last rows of the picture where they were; then
it empties the last row of cells.  The two together move everything up by a row, also on a screen
of one row, whose rasters do not move at all.

* `Raster.raised` — a raster moved up by any number of pixel rows, one colour coming in from
  below; `Raster.raised_raised` says that two such moves are one;
* `Screen.scroll_eq_raised` — a scroll raises the three rasters by the height of a cell;
* `Screen.iterate_scroll` — so any number of scrolls raises them once;
* `Screen.scrolled_iterate` — **what many scrolls make of a screen**, whatever is on it, and that
  a machine makes the same of its surface.
-/

namespace Raster

variable (r : Raster)

/-- The raster moved up by `n` rows.  Where nothing is left to move up it has the colour `c`. -/
def raised (n : Nat) (c : Color) : Raster :=
  generate r.width r.height fun x y => (r.pixel? x (y + n)).getD c

theorem sameSize_raised (n : Nat) (c : Color) : (r.raised n c).SameSize r :=
  ⟨rfl, rfl⟩

variable {r}

theorem pixel?_raised (n : Nat) (c : Color) {x y : Nat} (hx : x < r.width) (hy : y < r.height) :
    (r.raised n c).pixel? x y
      = if y + n < r.height then r.pixel? x (y + n) else some c := by
  rw [raised, pixel?_generate _ hx hy]
  split
  · next hbelow =>
    have hsome : (r.pixel? x (y + n)).isSome := (r.isSome_pixel?_iff x (y + n)).mpr ⟨hx, hbelow⟩
    obtain ⟨color, hcolor⟩ := Option.isSome_iff_exists.mp hsome
    rw [hcolor, Option.getD_some]
  · next hbelow =>
    rw [(r.pixel?_eq_none_iff x (y + n)).mpr (.inr (Nat.not_lt.mp hbelow)), Option.getD_none]

/-- A raster of the `SameSize` as `r` that has the right colours on it is `raised` from `r`. -/
theorem eq_raised {s : Raster} {n : Nat} {c : Color} (hsize : s.SameSize r)
    (h : ∀ x y, x < r.width → y < r.height →
      s.pixel? x y = if y + n < r.height then r.pixel? x (y + n) else some c) :
    s = r.raised n c := by
  refine ext_pixel hsize.1 hsize.2 fun x y => ?_
  by_cases hon : x < r.width ∧ y < r.height
  · rw [h x y hon.1 hon.2, pixel?_raised n c hon.1 hon.2]
  · have hoff : r.width ≤ x ∨ r.height ≤ y := by omega
    rw [(s.pixel?_eq_none_iff x y).mpr (hsize.1 ▸ hsize.2 ▸ hoff),
      ((r.raised n c).pixel?_eq_none_iff x y).mpr hoff]

variable (r)

theorem raised_zero (c : Color) : r.raised 0 c = r := by
  refine (eq_raised (.refl r) fun x y _ hy => ?_).symm
  rw [Nat.add_zero, if_pos hy]

/-- A raster that is `raised` twice is raised by both numbers of rows. -/
theorem raised_raised (m n : Nat) (c : Color) :
    (r.raised m c).raised n c = r.raised (m + n) c := by
  refine eq_raised (r.sameSize_raised m c) fun x y hx hy => ?_
  rw [pixel?_raised (r := r.raised m c) n c hx hy]
  show (if y + n < r.height then (r.raised m c).pixel? x (y + n) else some c) = _
  by_cases hn : y + n < r.height
  · rw [if_pos hn, pixel?_raised m c hx hn, Nat.add_assoc, Nat.add_comm n m]
  · rw [if_neg hn, if_neg (by omega)]

/-- Nothing is left of a raster that is `raised` by its height. -/
theorem fill_eq_raised {n : Nat} (h : r.height ≤ n) (c : Color) :
    r.fill 0 0 r.width r.height c = r.raised n c := by
  refine eq_raised ⟨width_fill .., height_fill ..⟩ fun x y hx hy => ?_
  have hinside : Inside 0 0 r.width r.height x y := by
    unfold Inside
    omega
  rw [pixel?_fill, if_pos ⟨hinside, hx, hy⟩, if_neg (by omega)]

/-- A raster is `raised` by moving its rows with `shiftUp` and filling the band at the bottom. Where
    the band is the whole raster, its rows stay, but none of them is seen. -/
theorem fill_shiftUp_eq_raised {n last : Nat} (h : last + n = r.height) (c : Color) :
    (r.shiftUp n).fill 0 last r.width n c = r.raised n c := by
  refine eq_raised ⟨(width_fill ..).trans (width_shiftUp ..),
    (height_fill ..).trans (height_shiftUp ..)⟩ fun x y hx hy => ?_
  rw [pixel?_fill, width_shiftUp, height_shiftUp, pixel?_shiftUp]
  by_cases hband : last ≤ y
  · have hinside : Inside 0 last r.width n x y := by
      unfold Inside
      omega
    rw [if_pos ⟨hinside, hx, hy⟩, if_neg (by omega)]
  · have hout : ¬ Inside 0 last r.width n x y := by
      unfold Inside
      omega
    rw [if_neg fun hin => hout hin.1, if_pos (by omega), if_pos (by omega)]

end Raster

namespace Screen

/-! ### Raised screens -/

/-- All rasters moved up by `n` rows, where the background comes in from below, and nothing that
    blinks. -/
def raised (s : Screen) (n : Nat) : Screen :=
  { s with
    visible := s.visible.raised n s.background
    onMask := s.onMask.raised n .transparent
    offMask := s.offMask.raised n .transparent
    composedLast := none }

variable (s : Screen)

theorem sameForm_raised (n : Nat) : (s.raised n).SameForm s :=
  ⟨rfl, rfl, rfl, rfl, rfl, s.visible.sameSize_raised .., s.onMask.sameSize_raised ..,
    s.offMask.sameSize_raised ..⟩

theorem mask_raised (n : Nat) (phase : Phase) :
    (s.raised n).mask phase = (s.mask phase).raised n .transparent := by
  cases phase <;> rfl

theorem raised_raised (m n : Nat) : (s.raised m).raised n = s.raised (m + n) := by
  simp only [raised, Raster.raised_raised]

variable {s}

/-- Empty cells are all that is left of a screen which is `raised` by its height, so it is
    `clearAll`. -/
theorem clearAll_eq_raised (heven : s.Even) {n : Nat} (h : s.visible.height ≤ n) :
    s.clearAll = s.raised n := by
  have hmask : ∀ r : Raster, r.SameSize s.visible →
      r.clear 0 0 s.visible.width s.visible.height = r.raised n .transparent := by
    intro r hr
    rw [Raster.clear, ← hr.1, ← hr.2]
    exact r.fill_eq_raised (hr.2 ▸ h) _
  rw [clearAll, clearArea, s.visible.fill_eq_raised h, hmask _ heven.onMask, hmask _ heven.offMask]
  rfl

namespace Representable

/-- Above the last row of cells there are all `rows` but one. -/
theorem lastRow_add (h : s.Representable) (hrows : 1 ≤ s.rows) :
    (s.rows - 1) * s.cellHeight + s.cellHeight = s.visible.height := by
  rw [h.height_eq, ← Nat.succ_mul, Nat.succ_eq_add_one, Nat.sub_add_cancel hrows]

end Representable

/-- A `scroll` raises the three rasters by the height of a cell. -/
theorem scroll_eq_raised (h : s.Representable) (hrows : 1 ≤ s.rows) :
    s.scroll = s.raised s.cellHeight := by
  have hraised : ∀ (r : Raster) (c : Color), r.SameSize s.visible →
      (r.shiftUp s.cellHeight).fill 0 ((s.rows - 1) * s.cellHeight)
          (s.visible.shiftUp s.cellHeight).width s.cellHeight c
        = r.raised s.cellHeight c := by
    intro r c hr
    rw [Raster.width_shiftUp, ← hr.1]
    exact r.fill_shiftUp_eq_raised ((h.lastRow_add hrows).trans hr.2.symm) c
  rw [scroll, clearArea, Raster.clear, Raster.clear]
  dsimp only
  rw [hraised _ _ (.refl _), hraised _ _ h.even.onMask, hraised _ _ h.even.offMask]
  rfl

/-- Any number of times `scroll` raises the rasters once. To scroll at least once is to forget the
    kept picture, so the screen that was not scrolled is not one of these. -/
theorem iterate_scroll (h : s.Representable) (hrows : 1 ≤ s.rows) (k : Nat) :
    scroll^[k + 1] s = s.raised ((k + 1) * s.cellHeight) := by
  induction k with
  | zero =>
    rw [Nat.zero_add, Nat.one_mul, Function.iterate_one]
    exact scroll_eq_raised h hrows
  | succ k ih =>
    have hform := s.sameForm_raised ((k + 1) * s.cellHeight)
    rw [Function.iterate_succ_apply', ih, scroll_eq_raised (h.of_sameForm hform) hrows,
      hform.cellHeight_eq, raised_raised, ← Nat.succ_mul]

theorem sameForm_iterate_scroll (s : Screen) (k : Nat) : (scroll^[k] s).SameForm s := by
  induction k with
  | zero => exact .refl s
  | succ k ih =>
    rw [Function.iterate_succ_apply']
    exact (sameForm_scroll _).trans ih

end Screen

/-- A machine scrolls its `Surface` any number of times, by induction with `scroll_of`. -/
theorem Machine.Surface.iterate_scroll {s : Screen} (h : s.Representable) (k : Nat) :
    (· >>= scroll)^[k] (some (of s)) = some (of (Screen.scroll^[k] s)) := by
  induction k with
  | zero => rfl
  | succ k ih =>
    rw [Function.iterate_succ_apply', ih, Function.iterate_succ_apply']
    exact scroll_of (h.of_sameForm (Screen.sameForm_iterate_scroll s k))

namespace Screen

/-! ### Many scrolls -/

/-- `u` is what `k` scrolls make of the screen `s`. -/
structure Scrolled (s : Screen) (k : Nat) (u : Screen) : Prop where
  /-- The sizes are those of before, and so is the `background`. -/
  form : u.SameForm s
  /-- The blink goes on. -/
  next_eq : u.next = s.next
  shown_eq : u.shown = s.shown
  /-- The picture has moved up by the height of `k` cells, and below it is background. -/
  visible : ∀ x y, x < s.visible.width → y < s.visible.height →
    u.visible.pixel? x y
      = if y + k * s.cellHeight < s.visible.height then s.visible.pixel? x (y + k * s.cellHeight)
        else some s.background
  /-- The masks have moved with the picture, and nothing blinks below them. -/
  mask : ∀ phase x y, x < s.visible.width → y < s.visible.height →
    (u.mask phase).pixel? x y
      = if y + k * s.cellHeight < s.visible.height then
          (s.mask phase).pixel? x (y + k * s.cellHeight)
        else some .transparent
  /-- Once all `rows` have left the screen, it is an emptied one. -/
  cleared : s.rows ≤ k → u = s.clearAll

variable {s : Screen}

/-- A screen that is raised by the height of `k` cells is scrolled `k` times. -/
theorem scrolled_raised (h : s.Representable) (k : Nat) :
    s.Scrolled k (s.raised (k * s.cellHeight)) where
  form := s.sameForm_raised _
  next_eq := rfl
  shown_eq := rfl
  visible := fun x y hx hy => Raster.pixel?_raised _ _ hx hy
  mask := by
    intro phase x y hx hy
    have hsize := h.even.mask phase
    rw [mask_raised, hsize.2]
    exact Raster.pixel?_raised _ _ (hsize.1 ▸ hx) (hsize.2 ▸ hy)
  cleared := by
    intro hk
    -- a screen raised by all of its rows, or by more, has nothing left of them
    refine (clearAll_eq_raised h.even ?_).symm
    rw [h.height_eq]
    exact Nat.mul_le_mul_right _ hk

/-- **What many scrolls make of a screen.** A screen on which `scroll` is called `k` times is
    `Scrolled`: the picture and the masks have moved up, background and nothing that blinks coming
    in, and after as many scrolls as the screen has rows it is empty. Nothing of that fails on a
    machine. -/
theorem scrolled_iterate (h : s.Representable) (hrows : 1 ≤ s.rows) (k : Nat) :
    s.Scrolled k (scroll^[k] s)
      ∧ (· >>= Machine.Surface.scroll)^[k] (some (.of s)) = some (.of (scroll^[k] s)) := by
  refine ⟨?_, Machine.Surface.iterate_scroll h k⟩
  cases k with
  | zero =>
    -- a screen that is not scrolled keeps its picture, which no scroll can tell
    have hstill : s.raised (0 * s.cellHeight) = { s with composedLast := none } := by
      rw [Nat.zero_mul, raised, Raster.raised_zero, Raster.raised_zero, Raster.raised_zero]
    have hscrolled := scrolled_raised h 0
    rw [hstill] at hscrolled
    exact { hscrolled with form := .refl s, cleared := fun hk => absurd hrows (by omega) }
  | succ k =>
    rw [iterate_scroll h hrows]
    exact scrolled_raised h (k + 1)

/-- A case of `scrolled_iterate`: a cell of the second row moves to the first, where it goes on
    blinking, and then away. -/
theorem scrolled_of_two_rows :
    let paper : Color := .rgb 0 0 0
    let ink : Color := .rgb 255 0 0
    let s := ((new 3 2 2 2 paper).draw 1 1 (.replicate 4 ink)).drawBlink 1 1
      (.replicate 4 ink) (.replicate 4 paper)
    s.Representable ∧ 1 ≤ s.rows
      ∧ scroll s ≠ s ∧ s.Scrolled 1 (scroll s)
      ∧ (scroll s).visible.pixel? 2 0 = some ink ∧ (scroll s).visible.pixel? 2 2 = some paper
      ∧ ((scroll s).mask .on).pixel? 2 0 = some ink
      ∧ scroll (scroll s) = s.clearAll := by
  intro paper ink s
  have hform : s.SameForm (new 3 2 2 2 paper) :=
    ⟨rfl, rfl, rfl, rfl, rfl, ⟨rfl, rfl⟩, ⟨rfl, rfl⟩, ⟨rfl, rfl⟩⟩
  have hs : s.Representable :=
    (Representable.new (by decide) (by decide) (by decide) paper).of_sameForm hform
  have hrows : 1 ≤ s.rows := by decide
  exact ⟨hs, hrows, by decide +kernel, (scrolled_iterate hs hrows 1).1, by decide +kernel,
    by decide +kernel, by decide +kernel,
    (scrolled_iterate hs hrows 2).1.cleared (by decide)⟩

end Screen

end TextArt
