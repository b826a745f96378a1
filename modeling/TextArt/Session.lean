import TextArt.Pen

namespace TextArt

/-!
# Sessions — cursor and pen

* `Cursor` — a place on the screen, column and row counted from one;
* `Session` — the size of the screen, the cursor, a saved cursor and the pen;
* the cursor moves, all of which stop at the edges of the screen;
* `Session.InBounds` — both cursors are on the screen; the `inBounds_…` statements
  say that no move leaves it.
-/

/-- A place on the screen, counted from one: `x` is the column, and `y` the row. -/
structure Cursor where
  x : Nat := 1
  y : Nat := 1
  deriving DecidableEq, Inhabited, Repr

/-- The nearest number from one to `high`, or one if `high` is less than that. -/
def nearest (value : Int) (high : Nat) : Nat :=
  (max 1 (min value (max 1 (high : Int)))).toNat

theorem one_le_nearest (value : Int) (high : Nat) : 1 ≤ nearest value high := by
  unfold nearest
  omega

theorem nearest_le (value : Int) {high : Nat} (h : 1 ≤ high) : nearest value high ≤ high := by
  unfold nearest
  omega

/-- A number in the range is its own `nearest` one. -/
theorem nearest_eq {n high : Nat} (h : 1 ≤ n) (h' : n ≤ high) : nearest n high = n := by
  unfold nearest
  omega

/-- The state of a drawing session: the size of the screen, the `cursor`, the `pen` and a place that
    is `saved`. -/
structure Session where
  columns : Nat
  rows : Nat
  cursor : Cursor := {}
  saved : Option Cursor := none
  pen : Pen := {}
  deriving DecidableEq, Repr

namespace Session

/-- A session in its first state, with `Pen.initial` on a screen of at least one cell. -/
def new (columns rows : Nat) : Session where
  columns := max 1 columns
  rows := max 1 rows

/-- Go to a place, or to the `nearest` one on the screen. -/
def moveTo (s : Session) (x y : Int) : Session :=
  { s with cursor := ⟨nearest x s.columns, nearest y s.rows⟩ }

/-- Go up, by `nearest` at most to the first row. -/
def up (s : Session) (n : Int) : Session :=
  { s with cursor := { s.cursor with y := nearest (s.cursor.y - n) s.rows } }

/-- Go down, at most to the row `rows - 1`, which is the one above the last. -/
def down (s : Session) (n : Int) : Session :=
  -- the last row does not count, so a cursor that is there goes up by a row instead
  { s with cursor := { s.cursor with y := nearest (s.cursor.y + n) (s.rows - 1) } }

/-- Go right, by `nearest` at most to the last column. -/
def forward (s : Session) (n : Int) : Session :=
  { s with cursor := { s.cursor with x := nearest (s.cursor.x + n) s.columns } }

/-- Go left, by `nearest` at most to the first column. -/
def backward (s : Session) (n : Int) : Session :=
  { s with cursor := { s.cursor with x := nearest (s.cursor.x - n) s.columns } }

/-- Remember the place of the `cursor` as the one that is `saved`. -/
def save (s : Session) : Session :=
  { s with saved := some s.cursor }

/-- Go back to the place that is `saved`, if there is one. -/
def restore (s : Session) : Session :=
  { s with cursor := s.saved.getD s.cursor }

/-- Whether the `cursor` is in the last of the `rows`. -/
def atLastRow (s : Session) : Bool :=
  s.rows ≤ s.cursor.y

theorem atLastRow_iff (s : Session) : s.atLastRow ↔ s.rows ≤ s.cursor.y :=
  decide_eq_true_iff

/-- Whether the `cursor` is in the last of the `columns`. -/
def atLastColumn (s : Session) : Bool :=
  s.columns ≤ s.cursor.x

theorem atLastColumn_iff (s : Session) : s.atLastColumn ↔ s.columns ≤ s.cursor.x :=
  decide_eq_true_iff

/-- The `cursor` and the `pen` as at the beginning; the place that is `saved` stays. -/
def reset (s : Session) : Session :=
  { s with cursor := {}, pen := {} }

/-! ### The edges of the screen -/

/-- Whether a place is on the screen, within `columns` and `rows`. -/
def Contains (s : Session) (c : Cursor) : Prop :=
  1 ≤ c.x ∧ c.x ≤ s.columns ∧ 1 ≤ c.y ∧ c.y ≤ s.rows

/-- The `cursor` is on the screen, and so is the place that is `saved`. -/
def InBounds (s : Session) : Prop :=
  s.Contains s.cursor ∧ ∀ c, s.saved = some c → s.Contains c

theorem inBounds_new (columns rows : Nat) : (new columns rows).InBounds := by
  refine ⟨?_, ?_⟩
  · simp only [Contains, new]
    omega
  · intro c hc
    simp [new] at hc

namespace InBounds

variable {s : Session}

/-- The `cursor` may be put anywhere on the screen that the session `Contains`. -/
theorem withCursor (h : s.InBounds) {c : Cursor} (hc : s.Contains c) :
    ({ s with cursor := c } : Session).InBounds :=
  ⟨hc, h.2⟩

theorem toFirstColumn (h : s.InBounds) :
    ({ s with cursor := { s.cursor with x := 1 } } : Session).InBounds :=
  h.withCursor ⟨Nat.le_refl 1, Nat.le_trans h.1.1 h.1.2.1, h.1.2.2⟩

theorem toNextRow (h : s.InBounds) (hlast : s.cursor.y < s.rows) :
    ({ s with cursor := ⟨1, s.cursor.y + 1⟩ } : Session).InBounds :=
  h.withCursor ⟨Nat.le_refl 1, Nat.le_trans h.1.1 h.1.2.1, Nat.le_add_left .., hlast⟩

theorem toNextColumn (h : s.InBounds) (hlast : s.cursor.x < s.columns) :
    ({ s with cursor := { s.cursor with x := s.cursor.x + 1 } } : Session).InBounds :=
  h.withCursor ⟨Nat.le_add_left .., hlast, h.1.2.2⟩

end InBounds

theorem inBounds_moveTo {s : Session} (h : s.InBounds) (x y : Int) : (s.moveTo x y).InBounds := by
  obtain ⟨⟨h1, h2, h3, h4⟩, hs⟩ := h
  exact ⟨⟨one_le_nearest .., nearest_le _ (by omega), one_le_nearest .., nearest_le _ (by omega)⟩,
    hs⟩

theorem inBounds_up {s : Session} (h : s.InBounds) (n : Int) : (s.up n).InBounds := by
  obtain ⟨⟨h1, h2, h3, h4⟩, hs⟩ := h
  exact ⟨⟨h1, h2, one_le_nearest .., nearest_le _ (by omega)⟩, hs⟩

theorem inBounds_down {s : Session} (h : s.InBounds) (n : Int) : (s.down n).InBounds := by
  obtain ⟨⟨h1, h2, h3, h4⟩, hs⟩ := h
  refine ⟨⟨h1, h2, one_le_nearest .., ?_⟩, hs⟩
  show nearest _ (s.rows - 1) ≤ s.rows
  unfold nearest
  omega

theorem inBounds_forward {s : Session} (h : s.InBounds) (n : Int) : (s.forward n).InBounds := by
  obtain ⟨⟨h1, h2, h3, h4⟩, hs⟩ := h
  exact ⟨⟨one_le_nearest .., nearest_le _ (by omega), h3, h4⟩, hs⟩

theorem inBounds_backward {s : Session} (h : s.InBounds) (n : Int) : (s.backward n).InBounds := by
  obtain ⟨⟨h1, h2, h3, h4⟩, hs⟩ := h
  exact ⟨⟨one_le_nearest .., nearest_le _ (by omega), h3, h4⟩, hs⟩

theorem inBounds_save {s : Session} (h : s.InBounds) : s.save.InBounds := by
  refine ⟨h.1, ?_⟩
  intro c hc
  simp only [save, Option.some.injEq] at hc
  exact hc ▸ h.1

theorem inBounds_restore {s : Session} (h : s.InBounds) : s.restore.InBounds := by
  refine ⟨?_, h.2⟩
  cases hs : s.saved with
  | none => simpa [restore, Contains, hs] using h.1
  | some c => simpa [restore, Contains, hs] using h.2 c hs

theorem inBounds_reset {s : Session} (h : s.InBounds) : s.reset.InBounds := by
  obtain ⟨⟨h1, h2, h3, h4⟩, hs⟩ := h
  refine ⟨?_, hs⟩
  simp only [Contains, reset]
  omega

end Session

end TextArt
