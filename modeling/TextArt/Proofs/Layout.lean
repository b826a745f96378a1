import TextArt.Proofs.Cells
import TextArt.Proofs.Tokens
import Mathlib.Algebra.GroupWithZero.Nat

namespace TextArt

/-!
# Layout — where the characters of a plain text are

A text of plain characters and ends of lines is set on a page, line by line from the top.  A line
that is longer than a row goes on in the next one, and it does so as soon as it has filled a row,
whether more of it comes or not.  The screen shows the last rows of the page.

* `Lines` — a text in lines, and `Lines.text`, its bytes;
* `rowsOf`, `LaidOut` — the rows that some lines take, and the character at a place of the page;
* `Script.Shows`, `Script.IsAt` — a script shows the last rows of a page, and is at a place of it;
  a character and a new line lead to the next places (`Script.IsAt.draw`, `Script.IsAt.newLine`);
* `Script.HasSet` — the page is that of some lines, which every byte preserves;
* `Terminal.shows_lines` — what a terminal shows of a text in lines.
-/

/-! ### Texts in lines -/

/-- A text in lines: the `first` one, and the `later` ones, each with whether a carriage return
    comes before the line feed that parts it from the one above. -/
structure Lines where
  first : Bytes
  later : List (Bool × Bytes)

namespace Lines

variable (lines : Lines)

/-- The lines without what parts them. -/
def all : List Bytes :=
  lines.first :: lines.later.map Prod.snd

/-- The last of the lines, which is the `first` one if there are no `later` ones. -/
def last : Bytes :=
  lines.all.getLast (List.cons_ne_nil _ _)

/-- The bytes of the text. -/
def text : Bytes :=
  lines.first ++ lines.later.flatMap fun line => (Token.newLine line.1).text ++ line.2

/-- The lines are made of characters: no byte of them is a `lineFeed`, a `carriageReturn`, an
    `endMark` or an `escape`. -/
def Plain : Prop :=
  ∀ line ∈ lines.all, ∀ b ∈ line,
    b ∉ [Terminal.lineFeed, Terminal.carriageReturn, ByteStream.endMark, Terminal.escape]

/-- The text as a list of `Token`. -/
def tokens : List Token :=
  lines.first.map .glyph
    ++ lines.later.flatMap fun line => .newLine line.1 :: line.2.map .glyph

end Lines

/-! ### Pages -/

/-- The rows of a page that some lines take. A line takes a row for every time that it fills one of
    `columns` characters, and one more. -/
def rowsOf (columns : Nat) (lines : List Bytes) : Nat :=
  (lines.map fun line => line.length / columns + 1).sum

/-- The character at a place of the page of some lines: every line begins in a row of its own, below
    those of the lines before, and fills rows of `columns` cells. -/
def LaidOut (columns : Nat) (lines : List Bytes) (row column : Nat) (code : UInt8) : Prop :=
  ∃ i j codes, lines[i]? = some codes ∧ codes[j]? = some code
    ∧ row = rowsOf columns (lines.take i) + j / columns ∧ column = j % columns

section

variable {columns row column : Nat} {lines : List Bytes} {codes : Bytes} {code : UInt8}

theorem getElem?_concat_eq_some_iff {α : Type} {l : List α} {a b : α} {i : Nat} :
    (l ++ [a])[i]? = some b ↔ l[i]? = some b ∨ i = l.length ∧ a = b := by
  rw [List.getElem?_append]
  by_cases hi : i < l.length
  · rw [if_pos hi]
    exact (or_iff_left fun h => absurd h.1 (Nat.ne_of_lt hi)).symm
  · have hnone : l[i]? = none := List.getElem?_eq_none (Nat.not_lt.mp hi)
    have hzero : i - l.length = 0 ↔ i = l.length := by omega
    rw [if_neg hi, hnone, List.getElem?_singleton, Option.ite_none_right_eq_some, hzero,
      Option.some.injEq]
    exact (or_iff_right (Option.some_ne_none b).symm).symm

@[simp] theorem rowsOf_concat (columns : Nat) (lines : List Bytes) (line : Bytes) :
    rowsOf columns (lines ++ [line]) = rowsOf columns lines + (line.length / columns + 1) := by
  simp [rowsOf]

/-- What `rowsOf` counts are the rows that the lines fill, and one for each line. -/
theorem rowsOf_eq (columns : Nat) (lines : List Bytes) :
    rowsOf columns lines = (lines.map fun line => line.length / columns).sum + lines.length := by
  induction lines with
  | nil => rfl
  | cons line lines ih =>
    have hcons : rowsOf columns (line :: lines)
        = line.length / columns + 1 + rowsOf columns lines := List.sum_cons
    rw [hcons, ih, List.map_cons, List.sum_cons, List.length_cons]
    omega

/-- A line below some others leaves them where `LaidOut` has them. -/
theorem laidOut_concat :
    LaidOut columns (lines ++ [codes]) row column code
      ↔ LaidOut columns lines row column code
        ∨ ∃ j, codes[j]? = some code ∧ row = rowsOf columns lines + j / columns
          ∧ column = j % columns := by
  constructor
  · rintro ⟨i, j, found, hcodes, hcode, hrow, hcolumn⟩
    rcases getElem?_concat_eq_some_iff.mp hcodes with hcodes | ⟨rfl, rfl⟩
    · -- the rows above a line do not depend on what comes below it
      have hi := (List.getElem?_eq_some_iff.mp hcodes).1
      rw [List.take_append_of_le_length (Nat.le_of_lt hi)] at hrow
      exact .inl ⟨i, j, found, hcodes, hcode, hrow, hcolumn⟩
    · rw [List.take_left] at hrow
      exact .inr ⟨j, hcode, hrow, hcolumn⟩
  · rintro (⟨i, j, found, hcodes, hcode, hrow, hcolumn⟩ | ⟨j, hcode, hrow, hcolumn⟩)
    · have hi := (List.getElem?_eq_some_iff.mp hcodes).1
      refine ⟨i, j, found, getElem?_concat_eq_some_iff.mpr (.inl hcodes), hcode, ?_, hcolumn⟩
      rw [List.take_append_of_le_length (Nat.le_of_lt hi), hrow]
    · refine ⟨lines.length, j, codes, getElem?_concat_eq_some_iff.mpr (.inr ⟨rfl, rfl⟩), hcode, ?_,
        hcolumn⟩
      rw [List.take_left, hrow]

/-- An empty line has no characters, so it adds nothing to `LaidOut`. -/
theorem laidOut_concat_nil :
    LaidOut columns (lines ++ [[]]) row column code ↔ LaidOut columns lines row column code := by
  rw [laidOut_concat]
  exact or_iff_left fun ⟨j, hcode, _⟩ => by simp at hcode

/-- A character at the end of the last line is `LaidOut` next to the one before it, or below. -/
theorem laidOut_concat_concat {b : UInt8} :
    LaidOut columns (lines ++ [codes ++ [b]]) row column code
      ↔ LaidOut columns (lines ++ [codes]) row column code
        ∨ (row = rowsOf columns lines + codes.length / columns ∧ column = codes.length % columns)
          ∧ b = code := by
  rw [laidOut_concat, laidOut_concat, or_assoc]
  refine or_congr_right ⟨?_, ?_⟩
  · rintro ⟨j, hcode, hrow, hcolumn⟩
    rcases getElem?_concat_eq_some_iff.mp hcode with hcode | ⟨rfl, rfl⟩
    · exact .inl ⟨j, hcode, hrow, hcolumn⟩
    · exact .inr ⟨⟨hrow, hcolumn⟩, rfl⟩
  · rintro (⟨j, hcode, hrow, hcolumn⟩ | ⟨⟨hrow, hcolumn⟩, rfl⟩)
    · exact ⟨j, getElem?_concat_eq_some_iff.mpr (.inl hcode), hrow, hcolumn⟩
    · exact ⟨codes.length, getElem?_concat_eq_some_iff.mpr (.inr ⟨rfl, rfl⟩), hrow, hcolumn⟩

end

/-- The characters of a page by row and column. -/
abbrev Page := Nat → Nat → Option UInt8

/-- Set a character at a place of the `Page`. -/
def Page.set (page : Page) (row column : Nat) (code : UInt8) : Page :=
  fun i j => if i = row ∧ j = column then some code else page i j

/-- Where there was no character, there is the one that `Page.set` puts. -/
theorem Page.set_eq_some_iff {page : Page} {row column : Nat} (h : page row column = none)
    {code : UInt8} {i j : Nat} {other : UInt8} :
    page.set row column code i j = some other
      ↔ page i j = some other ∨ (i = row ∧ j = column) ∧ code = other := by
  unfold set
  by_cases hhere : i = row ∧ j = column
  · obtain ⟨rfl, rfl⟩ := hhere
    rw [if_pos ⟨rfl, rfl⟩, h, Option.some.injEq]
    constructor
    · exact fun hcode => .inr ⟨⟨rfl, rfl⟩, hcode⟩
    · rintro (hsome | ⟨-, hcode⟩)
      · exact absurd hsome (Option.some_ne_none other).symm
      · exact hcode
  · rw [if_neg hhere]
    exact (or_iff_left fun hset => hhere hset.1).symm

/-- The next character goes into the same row if it does not fill the `columns` of it. -/
theorem succ_div_mod_of_lt {n columns : Nat} (h : n % columns + 1 < columns) :
    (n + 1) / columns = n / columns ∧ (n + 1) % columns = n % columns + 1 := by
  have hn := Nat.mod_add_div n columns
  exact (Nat.div_mod_unique (by omega)).mpr ⟨by omega, h⟩

/-- The one that comes after a full row of `columns` characters begins the next row. -/
theorem succ_div_mod_of_not_lt {n columns : Nat} (hcolumns : 1 ≤ columns)
    (h : ¬ n % columns + 1 < columns) :
    (n + 1) / columns = n / columns + 1 ∧ (n + 1) % columns = 0 := by
  have hn := Nat.mod_add_div n columns
  have hlast := Nat.mod_lt n hcolumns
  refine (Nat.div_mod_unique hcolumns).mpr ⟨?_, hcolumns⟩
  rw [Nat.mul_succ]
  omega

/-! ### Scripts that show a page -/

namespace Script

variable {α : Type}

/-- A `Script` shows the last rows of a `Page` that it has gone down to a row of, in the pen of the
    beginning. -/
structure Shows (empty : α) (write : UInt8 → Pen → α → α) (columns rows : Nat) (page : Page)
    (row : Nat) (c : Script) : Prop where
  columns_eq : c.session.columns = columns
  rows_eq : c.session.rows = rows
  one_le_rows : 1 ≤ rows
  pen_eq : c.session.pen = {}
  y_eq : c.session.cursor.y = min rows (row + 1)
  scrolls_eq : c.scrolls = row + 1 - rows
  /-- Nothing has been set further down than `row`. -/
  below : ∀ i j, row < i → page i j = none
  cell : ∀ i j, j < rows → (c.grid rows empty write).cell i j
    = (page (j + c.scrolls) i).elim empty fun code => write code {} empty

/-- A script is at a place of the `Page` where nothing has been set, nor later in the row. -/
structure IsAt (empty : α) (write : UInt8 → Pen → α → α) (columns rows : Nat) (page : Page)
    (row column : Nat) (c : Script) : Prop extends
    Shows empty write columns rows page row c where
  column_lt : column < columns
  x_eq : c.session.cursor.x = column + 1
  ahead : ∀ j, column ≤ j → page row j = none

variable {empty : α} {write : UInt8 → Pen → α → α} {columns rows row column : Nat} {page : Page}
  {c : Script}

theorem isAt_fresh (empty : α) (write : UInt8 → Pen → α → α) (hcolumns : 1 ≤ columns)
    (hrows : 1 ≤ rows) (honorsClear : Bool) :
    (fresh columns rows honorsClear).IsAt empty write columns rows (fun _ _ => none) 0 0 where
  columns_eq := Nat.max_eq_right hcolumns
  rows_eq := Nat.max_eq_right hrows
  one_le_rows := hrows
  pen_eq := rfl
  y_eq := (Nat.min_eq_right hrows).symm
  scrolls_eq := (Nat.sub_eq_zero_of_le hrows).symm
  below := fun _ _ _ => rfl
  cell := fun _ _ _ => rfl
  column_lt := hcolumns
  x_eq := rfl
  ahead := fun _ _ => rfl

/-- `Script.newLine` leads to the next row of the page, at the lower edge of the screen by a
    scroll. -/
theorem Shows.newLine (h : c.Shows empty write columns rows page row) (hcolumns : 1 ≤ columns) :
    c.newLine.IsAt empty write columns rows page (row + 1) 0 := by
  have hone := h.one_le_rows
  have hy := h.y_eq
  have hscrolls := h.scrolls_eq
  have hlast : c.session.atLastRow ↔ rows ≤ row + 1 := by
    rw [Session.atLastRow_iff, h.rows_eq, hy]
    omega
  have hempty : ∀ i j, row + 1 < i → page i j = none := fun i j hi => h.below i j (by omega)
  -- at the lower edge the page moves up under the cursor, and elsewhere the cursor moves down
  by_cases hrow : rows ≤ row + 1
  · have hnew : c.newLine
        = { c with
            session := { c.session with cursor := { c.session.cursor with x := 1 } }
            scrolls := c.scrolls + 1
            edits := .scroll :: c.edits } := if_pos (hlast.mpr hrow)
    rw [hnew]
    exact
      { h with
        y_eq := by
          show c.session.cursor.y = _
          omega
        scrolls_eq := by
          show c.scrolls + 1 = _
          omega
        below := hempty
        cell := by
          intro i j hj
          show ((c.grid rows empty write).scroll empty).cell i j = _
          rw [Grid.cell_scroll, rows_grid, show j + (c.scrolls + 1) = j + 1 + c.scrolls by omega]
          by_cases hnext : j + 1 < rows
          · rw [if_pos hnext]
            exact h.cell i (j + 1) hnext
          · -- the row that comes into view is the next one of the page
            rw [if_neg hnext, h.below _ i (by omega)]
            rfl
        column_lt := hcolumns
        x_eq := rfl
        ahead := fun j _ => h.below _ j (Nat.lt_succ_self row) }
  · have hnew : c.newLine
        = { c with
            session := { c.session with cursor := ⟨1, c.session.cursor.y + 1⟩ } } :=
      if_neg fun hdown => hrow (hlast.mp hdown)
    rw [hnew]
    exact
      { h with
        y_eq := by
          show c.session.cursor.y + 1 = _
          omega
        scrolls_eq := by
          show c.scrolls = _
          omega
        below := hempty
        column_lt := hcolumns
        x_eq := rfl
        ahead := fun j _ => h.below _ j (Nat.lt_succ_self row) }

namespace IsAt

theorem one_le_columns (h : c.IsAt empty write columns rows page row column) : 1 ≤ columns :=
  Nat.one_le_of_lt h.column_lt

/-- A character is set by `Script.drawCell` at the place that the script `IsAt`. -/
theorem drawCell (h : c.IsAt empty write columns rows page row column) (code : UInt8) :
    (c.drawCell code).Shows empty write columns rows (page.set row column code) row := by
  have hone := h.one_le_rows
  have hy := h.y_eq
  have hscrolls := h.scrolls_eq
  exact
    { h.toShows with
      below := by
        intro i j hi
        have hother : ¬ (i = row ∧ j = column) := by omega
        show (if i = row ∧ j = column then some code else page i j) = none
        rw [if_neg hother]
        exact h.below i j hi
      cell := by
        intro i j hj
        show ((c.grid rows empty write).change (c.session.cursor.x - 1) (c.session.cursor.y - 1)
          (write code c.session.pen)).cell i j = Option.elim
            (if j + c.scrolls = row ∧ i = column then some code else page (j + c.scrolls) i) _ _
        -- the cell of the cursor is the place on the page
        have hplace : i = c.session.cursor.x - 1 ∧ j = c.session.cursor.y - 1
            ↔ j + c.scrolls = row ∧ i = column := by
          rw [h.x_eq]
          omega
        rw [Grid.cell_change, h.cell i j hj, h.pen_eq]
        by_cases hhere : j + c.scrolls = row ∧ i = column
        · have hvacant : page (j + c.scrolls) i = none := by
            rw [hhere.1, hhere.2]
            exact h.ahead column (Nat.le_refl column)
          rw [if_pos (hplace.mpr hhere), if_pos hhere, hvacant]
          rfl
        · rw [if_neg (hplace.not.mpr hhere), if_neg hhere] }

/-- The next character of a line leads to the next place of the row, or to the next row when it
    fills the row. -/
theorem draw {start n : Nat}
    (h : c.IsAt empty write columns rows page (start + n / columns) (n % columns))
    (code : UInt8) :
    (c.draw code).IsAt empty write columns rows
      (page.set (start + n / columns) (n % columns) code)
      (start + (n + 1) / columns) ((n + 1) % columns) := by
  have hdrawn := h.drawCell code
  have hlast : (c.drawCell code).session.atLastColumn = true ↔ ¬ n % columns + 1 < columns := by
    rw [Session.atLastColumn_iff, Nat.not_lt]
    show c.session.columns ≤ c.session.cursor.x ↔ _
    rw [h.columns_eq, h.x_eq]
  by_cases hnext : n % columns + 1 < columns
  · obtain ⟨hrow, hcolumn⟩ := succ_div_mod_of_lt hnext
    have hstays : c.draw code = { c.drawCell code with
        session := { (c.drawCell code).session with
          cursor := { (c.drawCell code).session.cursor with
            x := (c.drawCell code).session.cursor.x + 1 } } } :=
      if_neg fun hfull => hlast.mp hfull hnext
    rw [hrow, hcolumn, hstays]
    exact
      { hdrawn with
        column_lt := hnext
        x_eq := by
          show c.session.cursor.x + 1 = _
          rw [h.x_eq]
        ahead := by
          intro j hj
          have hother : ¬ (start + n / columns = start + n / columns ∧ j = n % columns) := by omega
          exact (if_neg hother).trans (h.ahead j (by omega)) }
  · -- a full row is left at once, whether more of the line comes or not
    obtain ⟨hrow, hcolumn⟩ := succ_div_mod_of_not_lt h.one_le_columns hnext
    have hwraps : c.draw code = (c.drawCell code).newLine := if_pos (hlast.mpr hnext)
    rw [hrow, hcolumn, hwraps]
    exact hdrawn.newLine h.one_le_columns

end IsAt

/-! ### Scripts that have set some lines -/

/-- A script has set some `lines` and is at the end of another `line`. -/
def HasSet (empty : α) (write : UInt8 → Pen → α → α) (columns rows : Nat) (lines : List Bytes)
    (line : Bytes) (c : Script) : Prop :=
  ∃ page : Page,
    c.IsAt empty write columns rows page (rowsOf columns lines + line.length / columns)
      (line.length % columns)
    ∧ ∀ i j code, page i j = some code ↔ LaidOut columns (lines ++ [line]) i j code

namespace HasSet

variable {lines : List Bytes} {line : Bytes}

theorem draw (h : c.HasSet empty write columns rows lines line) (code : UInt8) :
    (c.draw code).HasSet empty write columns rows lines (line ++ [code]) := by
  obtain ⟨page, hat, hpage⟩ := h
  have hdrawn := hat.draw code
  refine ⟨page.set (rowsOf columns lines + line.length / columns) (line.length % columns) code, ?_,
    fun i j other => ?_⟩
  · rw [List.length_append, List.length_singleton]
    exact hdrawn
  · rw [Page.set_eq_some_iff (hat.ahead _ (Nat.le_refl _)), hpage, laidOut_concat_concat]

theorem newLine (h : c.HasSet empty write columns rows lines line) :
    c.newLine.HasSet empty write columns rows (lines ++ [line]) [] := by
  obtain ⟨page, hat, hpage⟩ := h
  refine ⟨page, ?_, fun i j code => ?_⟩
  · have hbelow := hat.toShows.newLine hat.one_le_columns
    rw [rowsOf_concat, List.length_nil, Nat.zero_div, Nat.zero_mod]
    exact hbelow
  · rw [laidOut_concat_nil]
    exact hpage i j code

/-- Characters go to the end of the line that the script `HasSet`, by induction on them. -/
theorem foldl_draw (h : c.HasSet empty write columns rows lines line) (more : Bytes) :
    (more.foldl Script.draw c).HasSet empty write columns rows lines (line ++ more) := by
  induction more generalizing c line with
  | nil => rwa [List.append_nil]
  | cons b more ih =>
    have hrest := ih (h.draw b)
    rwa [List.append_assoc, List.singleton_append] at hrest

end HasSet

/-- Set the `Lines` of a text by `newLine` and `draw`. -/
def setLines (c : Script) (lines : Lines) : Script :=
  lines.later.foldl (fun c line => line.2.foldl draw c.newLine) (lines.first.foldl draw c)

/-- The lines of a text are set one after the other; by induction on the `later` ones. -/
theorem HasSet.foldl_lines {lines : List Bytes} {line : Bytes}
    (h : c.HasSet empty write columns rows lines line) (later : List (Bool × Bytes)) :
    (later.foldl (fun c line => line.2.foldl Script.draw c.newLine) c).HasSet empty write columns
      rows
      (lines ++ (line :: later.map Prod.snd).dropLast)
      ((line :: later.map Prod.snd).getLast (List.cons_ne_nil _ _)) := by
  induction later generalizing c lines line with
  | nil => simpa using h
  | cons next later ih =>
    have hrest := ih (h.newLine.foldl_draw next.2)
    simpa using hrest

/-- A `fresh` script sets the lines of a text from the beginning. -/
theorem hasSet_setLines (empty : α) (write : UInt8 → Pen → α → α) (hcolumns : 1 ≤ columns)
    (hrows : 1 ≤ rows) (honorsClear : Bool) (lines : Lines) :
    ((fresh columns rows honorsClear).setLines lines).HasSet empty write columns rows
      lines.all.dropLast lines.last := by
  have hfresh : (fresh columns rows honorsClear).HasSet empty write columns rows [] [] := by
    refine ⟨fun _ _ => none, ?_, fun i j code => ?_⟩
    · rw [List.length_nil, Nat.zero_div, Nat.zero_mod]
      exact isAt_fresh empty write hcolumns hrows honorsClear
    · rw [laidOut_concat_nil]
      exact ⟨fun hsome => absurd hsome (Option.some_ne_none code).symm,
        fun ⟨i, j, codes, hcodes, _⟩ => by simp at hcodes⟩
  exact (hfresh.foldl_draw lines.first).foldl_lines lines.later

end Script

/-! ### Terminals that take a text in lines -/

/-- A character in the pen of the beginning is in the colours of the beginning, and has no
    `blinker`. -/
theorem Cell.write_blank (palette : Palette) (icecolors : Bool) (code : UInt8) :
    Cell.write palette icecolors code {} {}
      = { face := some ⟨code, palette.color 7, palette.color 0⟩ } := by
  cases icecolors <;> rfl

namespace Token

/-- Tokens each of which `Fits` whatever comes after it are spelled by the text of all of them, in
    the sense of `Spells`. -/
theorem spells_flatMap {tokens : List Token} (h : ∀ token ∈ tokens, ∀ next, token.Fits next) :
    Spells tokens (tokens.flatMap text) := by
  induction tokens with
  | nil => exact .nil
  | cons token tokens ih =>
    obtain ⟨hfits, hrest⟩ := List.forall_mem_cons.mp h
    exact .cons (hfits _) (ih hrest)

end Token

namespace Lines

variable {lines : Lines}

/-- The `tokens` of a text in plain lines spell it. -/
theorem Plain.spells (h : lines.Plain) : Token.Spells lines.tokens lines.text := by
  have hglyphs : ∀ line : Bytes, (line.map Token.glyph).flatMap Token.text = line := by
    intro line
    rw [List.flatMap_map]
    exact List.flatMap_singleton' line
  have htext : lines.tokens.flatMap Token.text = lines.text := by
    rw [tokens, text, List.flatMap_append, hglyphs, List.flatMap_assoc]
    simp only [List.flatMap_cons, hglyphs]
  have hglyph : ∀ line ∈ lines.all, ∀ token ∈ line.map Token.glyph, ∀ next, token.Fits next := by
    intro line hline token htoken next
    obtain ⟨code, hcode, rfl⟩ := List.mem_map.mp htoken
    have hplain := h line hline code hcode
    simp only [List.mem_cons, List.not_mem_nil, or_false, not_or] at hplain
    refine ⟨by simp [hplain], fun hopen => hplain.2.2.2 hopen.1⟩
  rw [← htext]
  refine Token.spells_flatMap fun token htoken next => ?_
  rcases List.mem_append.mp htoken with hfirst | hlater
  · exact hglyph _ (List.mem_cons_self ..) token hfirst next
  · obtain ⟨line, hline, htoken⟩ := List.mem_flatMap.mp hlater
    rcases List.mem_cons.mp htoken with rfl | hline'
    · trivial
    · exact hglyph _ (List.mem_cons_of_mem _ (List.mem_map_of_mem hline)) token hline' next

/-- The `tokens` of a text in lines leave no sequence open. -/
theorem leftOpenBy_tokens (lines : Lines) : Token.leftOpenBy lines.tokens = none := by
  rw [Token.leftOpenBy, Option.bind_eq_none_iff]
  intro token hlast
  rcases List.mem_append.mp (List.mem_of_getLast? hlast) with hfirst | hlater
  · obtain ⟨code, -, rfl⟩ := List.mem_map.mp hfirst
    rfl
  · obtain ⟨line, -, htoken⟩ := List.mem_flatMap.mp hlater
    rcases List.mem_cons.mp htoken with rfl | hglyph
    · rfl
    · obtain ⟨code, -, rfl⟩ := List.mem_map.mp hglyph
      rfl

end Lines

namespace Terminal

/-- A terminal sets a line as its `Script` does. -/
theorem foldl_obey_glyphs (t : Terminal) (c : Script) (line : Bytes) :
    (line.map Token.glyph).foldl obey (t.after c) = t.after (line.foldl Script.draw c) := by
  induction line generalizing c with
  | nil => rfl
  | cons code line ih =>
    have hdraw : (t.after c).obey (.glyph code) = t.after (c.draw code) := t.draw_after c code
    rw [List.map_cons, List.foldl_cons, List.foldl_cons, hdraw, ih]

/-- A terminal that obeys the `tokens` sets a text in lines as `setLines` does in a script. -/
theorem foldl_obey_tokens (t : Terminal) (c : Script) (lines : Lines) :
    lines.tokens.foldl obey (t.after c) = t.after (c.setLines lines) := by
  obtain ⟨first, later⟩ := lines
  rw [Lines.tokens, Script.setLines, List.foldl_append, foldl_obey_glyphs]
  -- the induction is on the other lines, from wherever the one before has ended
  generalize first.foldl Script.draw c = c
  induction later generalizing c with
  | nil => rfl
  | cons line later ih =>
    have hnew : (t.after c).obey (.newLine line.1) = t.after c.newLine := t.newLine_after c
    rw [List.flatMap_cons, List.foldl_append, List.foldl_cons, hnew, foldl_obey_glyphs,
      List.foldl_cons]
    exact ih _

/-- **Plain texts are laid out.**  A terminal of one column and one row or more, in its first state
    and with a screen of its size, reads to the end a file without a record that is a text in plain
    lines.  Let `down` be how often the lines fill a row, and the number of line ends.  Then the
    terminal has scrolled `down - (rows - 1)` times, the cursor is where the next character of the
    last line would be, and each cell of the screen shows the character that is laid out at its
    place, further down on the page by the scrolls, in the colours of the beginning; or it is
    blank if there is none. -/
theorem shows_lines (font : Font) (palette : Palette) (icecolors honorsClear : Bool)
    {columns rows : Nat} (hcolumns : 1 ≤ columns) (hrows : 1 ≤ rows) (lines : Lines)
    (hplain : lines.Plain) (hrecord : Sauce.ofBytes? lines.text = none) :
    let t := ((fresh font palette icecolors honorsClear columns rows).readToEnd
      (.ofFile lines.text)).terminal
    let down := (lines.all.map fun line => line.length / columns).sum + lines.later.length
    t.scrolls = down - (rows - 1)
      ∧ t.session.cursor = ⟨lines.last.length % columns + 1, min rows (down + 1)⟩
      ∧ ∃ cells : Grid Cell, t.screen.Depicts font palette columns cells
        ∧ ∀ column < columns, ∀ row < rows,
          (∀ code, LaidOut columns lines.all (row + t.scrolls) column code →
            cells.cell column row = { face := some ⟨code, palette.color 7, palette.color 0⟩ })
          ∧ ((∀ code, ¬ LaidOut columns lines.all (row + t.scrolls) column code) →
            cells.cell column row = {}) := by
  intro t down
  let c := (Script.fresh columns rows honorsClear).setLines lines
  have ht : t = (fresh font palette icecolors honorsClear columns rows).after
      { c with pending := none } := by
    have hobeyed : lines.tokens.foldl obey (fresh font palette icecolors honorsClear columns rows)
        = (fresh font palette icecolors honorsClear columns rows).after c :=
      foldl_obey_tokens (fresh font palette icecolors honorsClear columns rows)
        (.fresh columns rows honorsClear) lines
    show (readToEnd _ _).terminal = _
    rw [terminal_readToEnd, ByteStream.rest_ofFile_of_none hrecord,
      takeText_of_spells hplain.spells rfl, lines.leftOpenBy_tokens, hobeyed]
    rfl
  obtain ⟨page, hat, hpage⟩ := Script.hasSet_setLines ({} : Cell) (Cell.write palette icecolors)
    hcolumns hrows honorsClear lines
  -- the lines before the last one, and the last one, are all of them
  have hall : lines.all.dropLast ++ [lines.last] = lines.all := List.dropLast_append_getLast _
  have hdown : rowsOf columns lines.all.dropLast + lines.last.length / columns = down := by
    have hrowsOf := rowsOf_concat columns lines.all.dropLast lines.last
    have hcount : lines.all.length = lines.later.length + 1 := by
      rw [Lines.all, List.length_cons, List.length_map]
    rw [hall, rowsOf_eq] at hrowsOf
    omega
  rw [hdown] at hat
  rw [hall] at hpage
  have hscrolls : t.scrolls = c.scrolls := congrArg Terminal.scrolls ht
  refine ⟨?_, ?_, c.cells palette icecolors rows, ?_, fun column hcolumn row hrow => ?_⟩
  · rw [hscrolls, hat.scrolls_eq]
    omega
  · have hcursor : t.session.cursor = c.session.cursor :=
      congrArg (fun t : Terminal => t.session.cursor) ht
    rw [hcursor, ← hat.x_eq, ← hat.y_eq]
  · rw [ht]
    exact (Screen.depicts_new font palette columns rows).foldr_edit icecolors _
  · have hcell := hat.cell column row hrow
    rw [hscrolls]
    refine ⟨fun code hcode => ?_, fun hnone => ?_⟩
    · rw [(hpage _ _ _).mpr hcode] at hcell
      exact hcell.trans (Cell.write_blank palette icecolors code)
    · have hvacant : page (row + c.scrolls) column = none :=
        Option.eq_none_iff_forall_ne_some.mpr fun code hcode =>
          hnone code ((hpage _ _ _).mp hcode)
      rw [hvacant] at hcell
      exact hcell

/-- A case of `shows_lines`, with three lines on two rows of three columns: the first line fills a
    row, so that the next one begins a row further down, and the screen shows what the last two rows
    of the page do. -/
theorem shows_three_lines :
    let font := Font.preset Config.ordinary.font Config.ordinary.bits
    let lines : Lines := ⟨[0x41, 0x42, 0x43], [(true, [0x44, 0x45, 0x46, 0x47]), (false, [])]⟩
    let t := ((fresh font .ansi false true 3 2).readToEnd (.ofFile lines.text)).terminal
    (1 ≤ 3 ∧ 1 ≤ 2 ∧ lines.Plain ∧ Sauce.ofBytes? lines.text = none)
      ∧ t.scrolls = 3 ∧ t.session.cursor = ⟨1, 2⟩
      ∧ ∃ cells : Grid Cell, t.screen.Depicts font .ansi 3 cells
        ∧ cells.cell 0 0 = { face := some ⟨0x47, Palette.ansi.color 7, Palette.ansi.color 0⟩ } := by
  intro font lines t
  have hplain : lines.Plain := by
    simp [Lines.Plain, Lines.all, lines, lineFeed, carriageReturn, ByteStream.endMark, escape]
  have hrecord : Sauce.ofBytes? lines.text = none := Sauce.ofBytes?_of_short (by decide)
  obtain ⟨hscrolls, hcursor, cells, hdepicts, hcells⟩ := shows_lines font .ansi false true
    (by decide : 1 ≤ 3) (by decide : 1 ≤ 2) lines hplain hrecord
  have hthree : t.scrolls = 3 := hscrolls.trans (by decide)
  refine ⟨⟨by decide, by decide, hplain, hrecord⟩, hthree, hcursor.trans (by decide),
    cells, hdepicts, ?_⟩
  refine (hcells 0 (by decide) 0 (by decide)).1 0x47 ?_
  show LaidOut 3 lines.all (0 + t.scrolls) 0 0x47
  rw [hthree]
  exact ⟨1, 3, _, rfl, rfl, by decide, by decide⟩

end Terminal

end TextArt
