import TextArt.Proofs.Script

namespace TextArt

/-!
# Grids — a value in every cell of a screen

A grid keeps a value of any kind for each cell.  The edits of a script act on it cell by
cell, once it is known what an empty cell holds and what a character makes of the value
in its cell.

* `Grid.edit` — one edit; `Script.grid` — all edits of a script;
* `Grid.map_change`, `Grid.map_eraseRest` and their like — a view of the values may be
  taken before or after an edit;
* `Grid.Forall₂.foldr_edit_of` — what relates the values of two grids before and after every
  character relates them after any edits.
-/

/-- A value for every cell, column first.  Only the cells of the first `rows` rows are on
    the screen. -/
structure Grid (α : Type) where
  rows : Nat
  cell : Nat → Nat → α

namespace Grid

variable {α β : Type}

@[ext] theorem ext_cell {g k : Grid α} (hrows : g.rows = k.rows)
    (hcell : ∀ column row, g.cell column row = k.cell column row) : g = k := by
  obtain ⟨grows, gcell⟩ := g
  obtain ⟨krows, kcell⟩ := k
  have : gcell = kcell := funext fun column => funext fun row => hcell column row
  subst hrows this
  rfl

/-- The grid with the same value `empty` in every cell. -/
def blank (rows : Nat) (empty : α) : Grid α where
  rows := rows
  cell := fun _ _ => empty

/-- Change the value of one cell by `f`. -/
def change (g : Grid α) (column row : Nat) (f : α → α) : Grid α :=
  { g with
    cell := fun i j => if i = column ∧ j = row then f (g.cell i j) else g.cell i j }

/-- Put `empty` in the cells of a row from a column on. -/
def eraseRest (g : Grid α) (empty : α) (column row : Nat) : Grid α :=
  { g with cell := fun i j => if column ≤ i ∧ j = row then empty else g.cell i j }

/-- Put `empty` in all cells. -/
def eraseAll (g : Grid α) (empty : α) : Grid α :=
  blank g.rows empty

/-- Drop the top row and add an `empty` one below the last. -/
def scroll (g : Grid α) (empty : α) : Grid α :=
  { g with cell := fun i j => if j + 1 < g.rows then g.cell i (j + 1) else empty }

/-- Make an edit, where `write` says what a character drawn with a pen makes of the value
    in its cell. -/
def edit (empty : α) (write : UInt8 → Pen → α → α) : Edit → Grid α → Grid α
  | .glyph column row code pen, g => g.change column row (write code pen)
  | .eraseRest column row, g => g.eraseRest empty column row
  | .eraseAll, g => g.eraseAll empty
  | .scroll, g => g.scroll empty

@[simp] theorem rows_edit (empty : α) (write : UInt8 → Pen → α → α) (e : Edit) (g : Grid α) :
    (g.edit empty write e).rows = g.rows := by
  cases e <;> rfl

theorem cell_change (g : Grid α) (column row : Nat) (f : α → α) (i j : Nat) :
    (g.change column row f).cell i j
      = if i = column ∧ j = row then f (g.cell i j) else g.cell i j := rfl

theorem cell_eraseRest (g : Grid α) (empty : α) (column row i j : Nat) :
    (g.eraseRest empty column row).cell i j
      = if column ≤ i ∧ j = row then empty else g.cell i j := rfl

theorem cell_scroll (g : Grid α) (empty : α) (i j : Nat) :
    (g.scroll empty).cell i j = if j + 1 < g.rows then g.cell i (j + 1) else empty := rfl

/-! ### Views -/

/-- The grid of what `f` makes of the values. -/
def map (f : α → β) (g : Grid α) : Grid β where
  rows := g.rows
  cell := fun i j => f (g.cell i j)

/-- A change by `id` is no change. -/
theorem change_id (g : Grid α) (column row : Nat) : g.change column row id = g := by
  ext i j
  · rfl
  · exact ite_self _

theorem map_change {f : α → β} {write : α → α} {write' : β → β}
    (h : ∀ a, f (write a) = write' (f a)) (g : Grid α) (column row : Nat) :
    (g.change column row write).map f = (g.map f).change column row write' := by
  ext i j
  · rfl
  · rw [cell_change]
    show f (if i = column ∧ j = row then _ else _) = _
    rw [apply_ite f, h]
    rfl

theorem map_change_const {f : α → β} {write : α → α} {b : β} (h : ∀ a, f (write a) = b)
    (g : Grid α) (column row : Nat) :
    (g.change column row write).map f = (g.map f).change column row fun _ => b :=
  map_change h g column row

theorem map_eraseRest (f : α → β) (g : Grid α) (empty : α) (column row : Nat) :
    (g.eraseRest empty column row).map f = (g.map f).eraseRest (f empty) column row := by
  ext i j
  · rfl
  · exact apply_ite f ..

theorem map_eraseAll (f : α → β) (g : Grid α) (empty : α) :
    (g.eraseAll empty).map f = (g.map f).eraseAll (f empty) := rfl

theorem map_scroll (f : α → β) (g : Grid α) (empty : α) :
    (g.scroll empty).map f = (g.map f).scroll (f empty) := by
  ext i j
  · rfl
  · exact apply_ite f ..

/-! ### Two grids under the same edits -/

/-- The values of two grids of one height are related by `R` in every cell. -/
structure Forall₂ (R : α → β → Prop) (g : Grid α) (k : Grid β) : Prop where
  rows_eq : g.rows = k.rows
  cell : ∀ column row, R (g.cell column row) (k.cell column row)

theorem forall₂_blank {R : α → β → Prop} {empty : α} {empty' : β} (h : R empty empty')
    (rows : Nat) : Forall₂ R (blank rows empty) (blank rows empty') :=
  ⟨rfl, fun _ _ => h⟩

variable {R : α → β → Prop} {empty : α} {empty' : β}
  {write : UInt8 → Pen → α → α} {write' : UInt8 → Pen → β → β} {P : Pen → Prop}

/-- An `Edit` keeps related what empty cells and characters keep related. Every other edit moves
    cells or empties them. -/
theorem Forall₂.edit {g : Grid α} {k : Grid β} (h : Forall₂ R g k) (hempty : R empty empty')
    (hwrite : ∀ code pen a b, P pen → R a b → R (write code pen a) (write' code pen b))
    {e : Edit} (he : e.DrawsWith P) :
    Forall₂ R (g.edit empty write e) (k.edit empty' write' e) := by
  refine ⟨by rw [rows_edit, rows_edit, h.rows_eq], fun i j => ?_⟩
  -- an edit empties, writes or keeps a cell in both grids alike
  cases e with
  | glyph column row code pen =>
    simp only [Grid.edit, cell_change]
    split
    · exact hwrite code pen _ _ he (h.cell i j)
    · exact h.cell i j
  | eraseRest column row =>
    simp only [Grid.edit, cell_eraseRest]
    split
    · exact hempty
    · exact h.cell i j
  | eraseAll => exact hempty
  | scroll =>
    simp only [Grid.edit, cell_scroll, h.rows_eq]
    split
    · exact h.cell i (j + 1)
    · exact hempty

/-- Any number of edits keeps cells related, too, if characters drawn with the pens of these edits
    do; by induction with `Forall₂.edit`. -/
theorem Forall₂.foldr_edit_of {g : Grid α} {k : Grid β} (h : Forall₂ R g k)
    (hempty : R empty empty')
    (hwrite : ∀ code pen a b, P pen → R a b → R (write code pen a) (write' code pen b))
    {edits : List Edit} (hedits : ∀ e ∈ edits, e.DrawsWith P) :
    Forall₂ R (edits.foldr (Grid.edit empty write) g)
      (edits.foldr (Grid.edit empty' write') k) := by
  induction edits with
  | nil => exact h
  | cons e edits ih =>
    obtain ⟨he, hrest⟩ := List.forall_mem_cons.mp hedits
    exact (ih hrest).edit hempty hwrite he

theorem Forall₂.foldr_edit {g : Grid α} {k : Grid β} (h : Forall₂ R g k)
    (hempty : R empty empty')
    (hwrite : ∀ code pen a b, R a b → R (write code pen a) (write' code pen b))
    (edits : List Edit) :
    Forall₂ R (edits.foldr (Grid.edit empty write) g)
      (edits.foldr (Grid.edit empty' write') k) := by
  have hany : ∀ e ∈ edits, e.DrawsWith fun _ => True := by
    intro e _
    cases e <;> trivial
  exact h.foldr_edit_of hempty (fun code pen a b _ => hwrite code pen a b) hany

end Grid

/-- The grid that the edits of a `Script` make of empty cells. -/
def Script.grid {α : Type} (c : Script) (rows : Nat) (empty : α)
    (write : UInt8 → Pen → α → α) : Grid α :=
  c.edits.foldr (Grid.edit empty write) (.blank rows empty)

@[simp] theorem Script.rows_grid {α : Type} (c : Script) (rows : Nat) (empty : α)
    (write : UInt8 → Pen → α → α) : (c.grid rows empty write).rows = rows := by
  unfold Script.grid
  induction c.edits with
  | nil => rfl
  | cons e edits ih => rw [List.foldr_cons, Grid.rows_edit, ih]

end TextArt
