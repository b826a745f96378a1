import TextArt.Font
import TextArt.Proofs.Machine.Buffers
import Mathlib.Data.Nat.Bitwise

namespace TextArt.Machine

/-!
# The glyphs of a machine — rows as bits

A machine keeps the ink of a font as one number for every row of every character, whose bits are
the pixels of the row, and looks the rows of the drawn characters up in a table of bytes.

* `Marks` — the bits of a number are the ink of a row;
* `maskFrom`, `blockRow`, `junctionRow`, `baseRow` — the eight pixels of a row, made of masks or
  looked up; `baseRow_marks` says that this does not fail and that they are those of the shape;
* `Glyphs` — the rows of all characters, `Glyphs.of` being those of a font and `Glyphs.preset`
  those that a machine makes; `Glyphs.preset_eq` says that these are the same for the built-in
  fonts;
* `Glyphs.paint`, `Glyphs.paint_of` — the bytes of the pixels of a character, which are those of the
  font.
-/

/-! ### Masks -/

/-- The lowest `width` bits of a number are the ink of a row, the leftmost pixel being the highest
    of them, and there are no others. -/
structure Marks (width mask : Nat) (ink : Nat → Bool) : Prop where
  lt : mask < 2 ^ width
  bit : ∀ x < width, mask.testBit (width - 1 - x) = ink x

namespace Marks

variable {width m n : Nat} {ink other : Nat → Bool}

theorem congr (h : Marks width m ink) (hsame : ∀ x < width, ink x = other x) :
    Marks width m other :=
  ⟨h.lt, fun x hx => (h.bit x hx).trans (hsame x hx)⟩

/-- Masks are laid over each other: the disjunction of two numbers `Marks` the ink of both. -/
theorem or (h : Marks width m ink) (h' : Marks width n other) :
    Marks width (m ||| n) fun x => ink x || other x := by
  refine ⟨Nat.or_lt_two_pow h.lt h'.lt, fun x hx => ?_⟩
  rw [Nat.testBit_or, h.bit x hx, h'.bit x hx]

/-- A number is known by the ink of the row that it `Marks`. -/
theorem unique (h : Marks width m ink) (h' : Marks width n ink) : m = n := by
  refine Nat.eq_of_testBit_eq fun i => ?_
  by_cases hi : i < width
  · have hplace : width - 1 - (width - 1 - i) = i := by omega
    have hm := h.bit (width - 1 - i) (by omega)
    have hn := h'.bit (width - 1 - i) (by omega)
    rw [hplace] at hm hn
    rw [hm, hn]
  · have hpow : 2 ^ width ≤ 2 ^ i := Nat.pow_le_pow_right (by decide) (Nat.le_of_not_lt hi)
    rw [Nat.testBit_lt_two_pow (Nat.lt_of_lt_of_le h.lt hpow),
      Nat.testBit_lt_two_pow (Nat.lt_of_lt_of_le h'.lt hpow)]

theorem zero (width : Nat) : Marks width 0 fun _ => false :=
  ⟨Nat.two_pow_pos width, fun _ _ => Nat.zero_testBit _⟩

/-- A mask that is only there under a `condition`. -/
theorem ite (h : Marks width m ink) (condition : Bool) :
    Marks width (if condition then m else 0) fun x => ink x && condition := by
  cases condition with
  | true => exact h.congr fun x _ => (Bool.and_true _).symm
  | false => exact (zero width).congr fun x _ => (Bool.and_false _).symm

end Marks

/-- The mask of one pixel is `0x80`, shifted. -/
theorem marks_shiftRight {k : Nat} (hk : k < 8) : Marks 8 (0x80 >>> k) fun x => x == k := by
  refine ⟨Nat.lt_of_le_of_lt (Nat.shiftRight_le ..) (by decide), fun x hx => ?_⟩
  have hpow : (0x80 : Nat) = 2 ^ 7 := rfl
  rw [Nat.testBit_shiftRight, hpow, Nat.testBit_two_pow, Bool.eq_iff_iff, decide_eq_true_iff,
    beq_iff_eq]
  omega

/-- The mask of the pixels that pass the test `ink`. -/
def maskFrom (ink : Nat → Bool) : Option Nat :=
  (List.range 8).foldlM (fun mask x => do
    if ink x then
      let bit ← shiftRight 8 0x80 x
      pure (mask ||| bit)
    else pure mask) 0

theorem maskFrom_marks (ink : Nat → Bool) :
    ∃ mask, maskFrom ink = some mask ∧ Marks 8 mask ink := by
  -- after `k` pixels the mask has the marks of these
  have hfirst : ∀ k ≤ 8, ∃ mask, (List.range k).foldlM (fun mask x => do
      if ink x then
        let bit ← shiftRight 8 0x80 x
        pure (mask ||| bit)
      else pure mask) 0 = some mask ∧ Marks 8 mask fun x => decide (x < k) && ink x := by
    intro k
    induction k with
    | zero => exact fun _ => ⟨0, rfl, (Marks.zero 8).congr fun x _ => rfl⟩
    | succ k ih =>
      intro hk
      obtain ⟨mask, hmask, hmarks⟩ := ih (by omega)
      have hgrows : ∀ x, x ≠ k → decide (x < k) = decide (x < k + 1) := fun x hne =>
        decide_eq_decide.mpr (by omega)
      rw [List.range_succ, List.foldlM_append, hmask, Option.bind_eq_bind, Option.bind_some,
        List.foldlM_cons]
      by_cases hink : ink k
      · refine ⟨mask ||| 0x80 >>> k, ?_,
          (hmarks.or (marks_shiftRight (by omega))).congr fun x _ => ?_⟩
        · rw [if_pos hink, shiftRight_eq (by omega)]
          rfl
        · by_cases hx : x = k
          · simp [hx, hink]
          · simp [hx, hgrows x hx]
      · refine ⟨mask, ?_, hmarks.congr fun x _ => ?_⟩
        · rw [if_neg hink]
          rfl
        · by_cases hx : x = k
          · simp [hx, hink]
          · rw [hgrows x hx]
  obtain ⟨mask, hmask, hmarks⟩ := hfirst 8 (Nat.le_refl 8)
  refine ⟨mask, hmask, hmarks.congr fun x hx => ?_⟩
  rw [decide_eq_true hx, Bool.true_and]

/-! ### Shapes -/

/-- A row of a `Glyph.Block`. -/
def blockRow (block : Glyph.Block) (height y : Nat) : Option Nat :=
  match block with
  | .light => maskFrom fun x => x % 4 == y % 2 * 2
  | .medium => do
    let _last ← word (7 + y)
    maskFrom fun x => (x + y) % 2 == 0
  | .dark => maskFrom fun x => x % 4 != 1 + y % 2 * 2
  | .full => some 0xFF
  | .lower => some (if decide (height / 2 ≤ y) then 0xFF else 0)
  | .left => some 0xF0
  | .right => some 0x0F
  | .upper => some (if decide (y < height / 2) then 0xFF else 0)
  | .square => do
    let margin := height / 4
    let bottom ← minus height margin
    pure (if decide (margin ≤ y) && decide (y < bottom) then 0x3C else 0)

theorem blockRow_marks (block : Glyph.Block) {height y : Nat} (hy : 7 + y < UInt64.size) :
    ∃ mask, blockRow block height y = some mask ∧ Marks 8 mask fun x => block.inked height x y := by
  have hfull : Marks 8 0xFF fun _ => true := ⟨by decide, by decide⟩
  have hinner : Marks 8 0x3C fun x => decide (2 ≤ x) && decide (x < 6) := ⟨by decide, by decide⟩
  cases block with
  | light => exact maskFrom_marks _
  | medium =>
    obtain ⟨mask, hmask, hmarks⟩ := maskFrom_marks fun x => (x + y) % 2 == 0
    refine ⟨mask, ?_, hmarks⟩
    rw [blockRow, word_eq hy]
    exact hmask
  | dark => exact maskFrom_marks _
  | full => exact ⟨0xFF, rfl, hfull⟩
  | lower => exact ⟨_, rfl, (hfull.ite _).congr fun _ _ => Bool.true_and _⟩
  | left =>
    have hleft : Marks 8 0xF0 fun x => decide (x < 4) := ⟨by decide, by decide⟩
    exact ⟨0xF0, rfl, hleft⟩
  | right =>
    have hright : Marks 8 0x0F fun x => decide (4 ≤ x) := ⟨by decide, by decide⟩
    exact ⟨0x0F, rfl, hright⟩
  | upper => exact ⟨_, rfl, (hfull.ite _).congr fun _ _ => Bool.true_and _⟩
  | square =>
    have hrows := hinner.ite (decide (height / 4 ≤ y) && decide (y < height - height / 4))
    refine ⟨_, ?_, hrows.congr fun x _ => ?_⟩
    · rw [blockRow, minus_eq (Nat.div_le_self height 4)]
      rfl
    · exact (Bool.and_assoc ..).symm

open Glyph (Stroke Junction)

/-- The columns of an upright arm of some `Stroke`. -/
def upright : Stroke → Nat
  | .absent => 0
  | .single => 0x18
  | .double => 0x24

theorem upright_marks (s : Stroke) : Marks 8 (upright s) s.column := by
  cases s with
  | absent => exact ⟨by decide, by decide⟩
  | single => exact ⟨by decide, by decide⟩
  | double => exact ⟨by decide, by decide⟩

/-- Whether a level arm fills a row, the row in the `middle` and the one after both being known. -/
def isLevel (s : Stroke) (middle afterMiddle y afterRow : Nat) : Bool :=
  match s with
  | .absent => false
  | .single => y == middle
  | .double => afterRow == middle || y == afterMiddle

theorem isLevel_eq (s : Stroke) (middle y : Nat) :
    isLevel s middle (middle + 1) y (y + 1) = s.row middle y := by
  cases s <;> rfl

/-- The first row of the arm to the bottom, which a `double` arm begins one row earlier. -/
def downStart (s : Stroke) (middle : Nat) : Option Nat :=
  if s = .double then minus middle 1 else some middle

theorem downStart_eq (s : Stroke) {middle : Nat} (h : 1 ≤ middle) :
    downStart s middle = some (middle - s.overshoot) := by
  cases s with
  | absent => rfl
  | single => rfl
  | double => exact minus_eq h

/-- The mask of a level arm, which is not in the row unless the `condition` holds. -/
def levelMask (condition : Bool) (ink : Nat → Bool) : Option Nat :=
  if condition then maskFrom ink else some 0

theorem levelMask_marks (condition : Bool) (ink : Nat → Bool) :
    ∃ mask, levelMask condition ink = some mask ∧ Marks 8 mask fun x => condition && ink x := by
  cases condition with
  | true => exact maskFrom_marks ink
  | false => exact ⟨0, rfl, Marks.zero 8⟩

/-- A row of a line character, which is a `Junction` of arms. -/
def junctionRow (j : Junction) (height y : Nat) : Option Nat := do
  let middle ← minus (height / 2) 1
  let afterMiddle ← word (middle + 1)
  let afterRow ← word (y + 1)
  let upEnd := if j.up = .double then afterMiddle else middle
  let start ← downStart j.down middle
  let up := if decide (y ≤ upEnd) then upright j.up else 0
  let down := if decide (start ≤ y) then upright j.down else 0
  let left ← levelMask (isLevel j.left middle afterMiddle y afterRow) fun x =>
    decide (x ≤ if j.left = .double then 5 else 4)
  let right ← levelMask (isLevel j.right middle afterMiddle y afterRow) fun x =>
    decide ((if j.right = .double then 2 else 3) ≤ x)
  pure (up ||| down ||| left ||| right)

theorem junctionRow_marks (j : Junction) {height y : Nat} (hheight : 4 ≤ height)
    (hsmall : height < 2 ^ 32) (hy : y < height) :
    ∃ mask, junctionRow j height y = some mask ∧ Marks 8 mask fun x => j.inked height x y := by
  let middle := height / 2 - 1
  have hmiddle : minus (height / 2) 1 = some middle := minus_eq (by omega)
  have hsize : (2 : Nat) ^ 32 < UInt64.size := by decide
  have hup : (if j.up = .double then middle + 1 else middle) = middle + j.up.overshoot := by
    cases j.up <;> rfl
  have hleft : (if j.left = .double then 5 else 4) = 4 + j.left.overshoot := by
    cases j.left <;> rfl
  have hright : (if j.right = .double then 2 else 3) = 3 - j.right.overshoot := by
    cases j.right <;> rfl
  -- level arms are made pixel by pixel, upright ones are masks that some rows have
  obtain ⟨left, hleftMask, hleftMarks⟩ :=
    levelMask_marks (j.left.row middle y) fun x => decide (x ≤ 4 + j.left.overshoot)
  obtain ⟨right, hrightMask, hrightMarks⟩ :=
    levelMask_marks (j.right.row middle y) fun x => decide (3 - j.right.overshoot ≤ x)
  have hupMarks := (upright_marks j.up).ite (decide (y ≤ middle + j.up.overshoot))
  have hdownMarks := (upright_marks j.down).ite (decide (middle - j.down.overshoot ≤ y))
  refine ⟨_, ?_, ((hupMarks.or hdownMarks).or hleftMarks).or hrightMarks⟩
  rw [junctionRow, hmiddle]
  simp only [Option.bind_eq_bind, Option.bind_some]
  rw [word_eq (by omega), Option.bind_some, word_eq (by omega), Option.bind_some,
    downStart_eq j.down (show 1 ≤ height / 2 - 1 by omega), Option.bind_some, isLevel_eq, hleft,
    hleftMask, Option.bind_some, isLevel_eq, hright, hrightMask, Option.bind_some, hup]
  rfl

/-! ### Rows of characters -/

/-- The rows of some `drawings`, a byte each. -/
def table (drawings : Array Nat) (height : Nat) : List Nat :=
  rowByRow height drawings.size fun y k => drawings.getD k 0 >>> (8 * (height - 1 - y)) % 2 ^ 8

/-- A byte of the `table` has the marks of a row of a drawing. -/
theorem table_marks (drawing : Nat) {height y : Nat} (hy : y < height) :
    Marks 8 (drawing >>> (8 * (height - 1 - y)) % 2 ^ 8) fun x =>
      Glyph.inked drawing height x y := by
  refine ⟨Nat.mod_lt _ (by decide), fun x hx => ?_⟩
  have hplace : 8 * (height - 1 - y) + (8 - 1 - x) = 8 * height - 1 - (8 * y + x) := by omega
  have hin : 8 - 1 - x < 8 := by omega
  rw [Nat.testBit_mod_two_pow, decide_eq_true hin, Bool.true_and, Nat.testBit_shiftRight, hplace]
  rfl

/-- The place of a row in the `table`. -/
theorem getElem?_table {drawings : Array Nat} {height k y : Nat} (hk : k < drawings.size)
    (hy : y < height) :
    (table drawings height)[k * height + y]?
      = some (drawings.getD k 0 >>> (8 * (height - 1 - y)) % 2 ^ 8) :=
  getElem?_rowByRow_of_lt _ hy hk

/-- A row of a character in eight columns, looked up in `rows` or drawn. -/
def baseRow (rows : List Nat) (height : Nat) (code : UInt8) (y : Nat) : Option Nat :=
  let c := code.toNat
  if 0x20 ≤ c ∧ c ≤ 0x7E then do
    let k ← minus c 0x20
    let first ← word (k * height)
    let place ← word (first + y)
    rows[place]?
  else if 0xB3 ≤ c ∧ c ≤ 0xDA then do
    let k ← minus c 0xB3
    let junction ← Glyph.junctions[k]?
    junctionRow junction height y
  else match c with
    | 0xB0 => blockRow .light height y
    | 0xB1 => blockRow .medium height y
    | 0xB2 => blockRow .dark height y
    | 0xDB => blockRow .full height y
    | 0xDC => blockRow .lower height y
    | 0xDD => blockRow .left height y
    | 0xDE => blockRow .right height y
    | 0xDF => blockRow .upper height y
    | 0xFE => blockRow .square height y
    | _ => some 0

/-- The cells for which the built-in characters are drawn have a `height` that is neither too low
    nor too high. -/
structure CellHeight (height : Nat) : Prop where
  low : 4 ≤ height
  high : height ≤ 16

/-- No `baseRow` of a character fails, and each `Marks` the ink of its shape. The cases are the
    kinds of characters. -/
theorem baseRow_marks {drawings : Array Nat} (hdrawings : drawings.size = 95) {height y : Nat}
    (hheight : CellHeight height) (hy : y < height) (code : UInt8) :
    ∃ mask, baseRow (table drawings height) height code y = some mask
      ∧ Marks 8 mask fun x => Glyph.ink drawings height code x y := by
  obtain ⟨hlow, hhigh⟩ := hheight
  have hsize : (2 : Nat) ^ 32 < UInt64.size := by decide
  have hblock : ∀ block, ∃ mask, blockRow block height y = some mask
      ∧ Marks 8 mask fun x => Glyph.Block.inked block height x y :=
    fun block => blockRow_marks block (by omega)
  unfold baseRow Glyph.ink
  dsimp only
  generalize code.toNat = c
  by_cases hdrawn : 0x20 ≤ c ∧ c ≤ 0x7E
  · simp only [if_pos hdrawn]
    have hfirst : (c - 0x20) * height < 2 ^ 31 := by
      calc (c - 0x20) * height ≤ 95 * 16 := Nat.mul_le_mul (by omega) hhigh
        _ < 2 ^ 31 := by decide
    refine ⟨_, ?_, table_marks (drawings.getD (c - 0x20) 0) hy⟩
    rw [minus_eq hdrawn.1]
    simp only [Option.bind_eq_bind, Option.bind_some]
    rw [word_eq (by omega), Option.bind_some, word_eq (by omega), Option.bind_some,
      getElem?_table (by omega) hy]
  simp only [if_neg hdrawn]
  by_cases hline : 0xB3 ≤ c ∧ c ≤ 0xDA
  · simp only [if_pos hline]
    have hplace : c - 0xB3 < Glyph.junctions.size := by
      rw [Glyph.size_junctions]
      omega
    obtain ⟨mask, hmask, hmarks⟩ :=
      junctionRow_marks (Glyph.junctions.getD (c - 0xB3) default) hlow (by omega) hy
    refine ⟨mask, ?_, hmarks⟩
    rw [Array.getD, dif_pos hplace] at hmask
    rw [minus_eq hline.1]
    simp only [Option.bind_eq_bind, Option.bind_some]
    rw [Array.getElem?_eq_getElem hplace, Option.bind_some]
    exact hmask
  simp only [if_neg hline]
  -- what is left are blocks, and codes without any ink
  split
  all_goals try exact hblock _
  exact ⟨0, rfl, (Marks.zero 8).congr fun x _ => by simp only [*]⟩

/-! ### Fonts -/

/-- A row of a character in nine columns, the ninth of which is blank in cells of eight. -/
def glyphRow (rows : List Nat) (height : Nat) (nine : Bool) (code : UInt8) (y : Nat) :
    Option Nat := do
  let base ← baseRow rows height code y
  let shifted ← shiftLeft 16 base 1
  let ninth := nine && Glyph.runsOn code && base &&& 1 != 0
  pure (shifted ||| ninth.toNat)

/-- The cell size of a `Font` and the rows of its characters, nine bits each. -/
structure Glyphs where
  width : Nat
  height : Nat
  rows : List Nat

namespace Glyphs

/-- The row of a character of a `Font`. -/
def rowOf (f : Font) (code : UInt8) (y : Nat) : Nat :=
  Nat.ofBits fun i : Fin 9 => f.inked code (8 - i) y

/-- The rows of a `Font`. -/
def of (f : Font) : Glyphs where
  width := f.width
  height := f.height
  rows := rowByRow f.height 256 fun y k => rowOf f (UInt8.ofNat k) y

/-- The rows of a built-in font, looked up in `rows` or made of masks one by one. -/
def ofTable (rows : List Nat) (height : Nat) (nine : Bool) : Option Glyphs := do
  let _room ← word (256 * height)
  let rows ← (List.range 256).mapM fun k =>
    (List.range height).mapM fun y => glyphRow rows height nine (UInt8.ofNat k) y
  pure { width := if nine then 9 else 8, height, rows := rows.flatten }

/-- A built-in font, as `Font.preset` names them. -/
def preset (name : String) (bits : Bits) : Option Glyphs :=
  if name = "80x50" then ofTable (table Glyph.shortDrawings 8) 8 (bits = .nine)
  else ofTable (table Glyph.tallDrawings 16) 16 (bits = .nine)

/-- Whether a character has ink at a place: the bit of its row. -/
def pixel (g : Glyphs) (code : UInt8) (x y : Nat) : Option Bool :=
  if g.width ≤ x ∨ g.height ≤ y then some false
  else do
    let first ← word (code.toNat * g.height)
    let place ← word (first + y)
    let row ← g.rows[place]?
    let bit ← shiftRight 16 0x100 x
    pure (row &&& bit != 0)

/-- The bytes of the pixels of a character, in the colours `ink` and `paper`. -/
def paint (g : Glyphs) (code : UInt8) (ink paper : Color) : Option Bytes := do
  let pixels ← word (g.width * g.height)
  let _room ← word (pixels * 4)
  let rows ← (List.range g.height).mapM fun y => (List.range g.width).mapM fun x => do
    let inked ← g.pixel code x y
    pure (if inked then ink else paper).bytes
  pure rows.flatten.flatten

/-! ### The glyphs of a font -/

theorem rowOf_marks (f : Font) (code : UInt8) (y : Nat) :
    Marks 9 (rowOf f code y) fun x => f.inked code x y := by
  refine ⟨Nat.ofBits_lt_two_pow _, fun x hx => ?_⟩
  have hplace : 8 - (9 - 1 - x) = x := by omega
  rw [rowOf, Nat.testBit_ofBits_lt _ _ (by omega)]
  exact congrArg (f.inked code · y) hplace

/-- The first eight pixels of a `glyphRow` are those of the shape, and the ninth is inked where the
    eighth is, if the row goes on into it. -/
theorem glyphRow_marks {drawings : Array Nat} (hdrawings : drawings.size = 95) {height y : Nat}
    (hheight : CellHeight height) (hy : y < height) (nine : Bool) (code : UInt8) :
    ∃ mask, glyphRow (table drawings height) height nine code y = some mask
      ∧ Marks 9 mask fun x => if x < 8 then Glyph.ink drawings height code x y
          else nine && Glyph.runsOn code && Glyph.ink drawings height code 7 y := by
  obtain ⟨base, hbase, hmarks⟩ := baseRow_marks hdrawings hheight hy code
  let ninth := nine && Glyph.runsOn code && base &&& 1 != 0
  -- the lowest bit of eight is the eighth pixel, which moves up for the ninth
  have hlast : (base &&& 1 != 0) = Glyph.ink drawings height code 7 y := by
    rw [← hmarks.bit 7 (by decide), Nat.and_one_is_mod, Nat.testBit_zero]
    rcases Nat.mod_two_eq_zero_or_one base with h | h <;> rw [h] <;> rfl
  have hless : base < 2 ^ 8 := hmarks.lt
  have hdouble : base <<< 1 = base * 2 := Nat.shiftLeft_eq ..
  have hshifted : shiftLeft 16 base 1 = some (base <<< 1) := by
    rw [shiftLeft, if_pos (by decide)]
    exact unsigned_eq (by omega)
  refine ⟨base <<< 1 ||| ninth.toNat, ?_, ?_, fun x hx => ?_⟩
  · rw [glyphRow, hbase, Option.bind_eq_bind, Option.bind_some, hshifted]
    rfl
  · refine Nat.or_lt_two_pow (by omega) ?_
    have hbit : ninth.toNat < 2 := Bool.toNat_lt ninth
    omega
  · have hbit : ∀ i, ninth.toNat.testBit i = (decide (i = 0) && ninth) := by
      intro i
      cases ninth with
      | true =>
        rw [Bool.and_true, Bool.toNat_true, ← Nat.pow_zero 2, Nat.testBit_two_pow]
        exact decide_eq_decide.mpr eq_comm
      | false => exact (Nat.zero_testBit i).trans (Bool.and_false _).symm
    rw [Nat.testBit_or, Nat.testBit_shiftLeft, hbit]
    by_cases hx8 : x < 8
    · have hplace : 9 - 1 - x - 1 = 8 - 1 - x := by omega
      have hfirst : decide (9 - 1 - x ≥ 1) = true := decide_eq_true (by omega)
      have hmore : decide (9 - 1 - x = 0) = false := decide_eq_false (by omega)
      rw [if_pos hx8, hfirst, hmore, hplace, hmarks.bit x hx8, Bool.true_and, Bool.false_and,
        Bool.or_false]
    · obtain rfl : x = 8 := by omega
      show (false && _ || true && ninth) = (nine && Glyph.runsOn code && _)
      rw [Bool.false_and, Bool.false_or, Bool.true_and, ← hlast]

/-- A machine makes the rows of a font by `ofTable`, if the font shows the shapes. -/
theorem ofTable_eq {drawings : Array Nat} (hdrawings : drawings.size = 95) {height : Nat}
    (hheight : CellHeight height) {nine : Bool} {f : Font}
    (hwidth : f.width = if nine then 9 else 8) (hf : f.height = height)
    (hink : ∀ code x y, x < 9 → y < height → f.inked code x y
      = if x < 8 then Glyph.ink drawings height code x y
        else nine && Glyph.runsOn code && Glyph.ink drawings height code 7 y) :
    ofTable (table drawings height) height nine = some (of f) := by
  have hroom : 256 * height < UInt64.size := by
    calc 256 * height ≤ 256 * 16 := Nat.mul_le_mul_left 256 hheight.high
      _ < UInt64.size := by decide
  have hrow : ∀ k, ∀ y ∈ List.range height,
      glyphRow (table drawings height) height nine (UInt8.ofNat k) y
        = some (rowOf f (UInt8.ofNat k) y) := by
    intro k y hy
    have hy := List.mem_range.mp hy
    obtain ⟨mask, hmask, hmarks⟩ := glyphRow_marks hdrawings hheight hy nine (UInt8.ofNat k)
    have hsame : mask = rowOf f (UInt8.ofNat k) y :=
      (hmarks.congr fun x hx => (hink _ x y hx hy).symm).unique (rowOf_marks f _ y)
    rw [hmask, hsame]
  have hrows : ∀ k ∈ List.range 256,
      (List.range height).mapM (fun y =>
          glyphRow (table drawings height) height nine (UInt8.ofNat k) y)
        = some ((List.range height).map fun y => rowOf f (UInt8.ofNat k) y) :=
    fun k _ => mapM_eq (hrow k)
  rw [ofTable, word_eq hroom, mapM_eq hrows]
  simp only [Option.bind_eq_bind, Option.bind_some, Option.pure_def, of, rowByRow, hwidth, hf,
    List.flatMap_def]

/-- The fonts of `Font.preset` are those that a machine makes. -/
theorem preset_eq (name : String) (bits : Bits) :
    preset name bits = some (of (Font.preset name bits)) := by
  have hdrawn : ∀ (name : String) (drawings : Array Nat) (height : Nat), drawings.size = 95 →
      CellHeight height → ofTable (table drawings height) height (bits = .nine)
        = some (of (Font.ofDrawings name drawings height bits)) := by
    intro name drawings height hdrawings hheight
    by_cases hnine : bits = .nine
    · have hfont : Font.ofDrawings name drawings height bits
          = .ofShapes name 9 height (Glyph.inkNine drawings height) := if_pos hnine
      rw [decide_eq_true hnine, hfont]
      refine ofTable_eq hdrawings hheight rfl rfl fun code x y hx hy => ?_
      rw [Font.inked_ofShapes name _ code hx hy]
      rfl
    · have hfont : Font.ofDrawings name drawings height bits
          = .ofShapes name 8 height (Glyph.ink drawings height) := if_neg hnine
      rw [decide_eq_false hnine, hfont]
      refine ofTable_eq hdrawings hheight rfl rfl fun code x y hx hy => ?_
      by_cases hx8 : x < 8
      · rw [if_pos hx8, Font.inked_ofShapes name _ code hx8 hy]
      · rw [if_neg hx8, Font.inked_of_width_le _ code y (Nat.le_of_not_lt hx8)]
        rfl
  unfold preset Font.preset
  split
  · exact hdrawn "80x50" _ 8 Glyph.size_shortDrawings ⟨by decide, by decide⟩
  · exact hdrawn "80x25" _ 16 Glyph.size_tallDrawings ⟨by decide, by decide⟩

/-- The cells of a `Font` are so small that a machine can keep them. -/
structure Small (f : Font) : Prop where
  width : f.width ≤ 9
  height : f.height ≤ 16

/-- A machine finds the ink of a `Small` font, where `inked` has it. -/
theorem pixel_of {f : Font} (hf : Small f) (code : UInt8) {x y : Nat} (hx : x < f.width)
    (hy : y < f.height) : (of f).pixel code x y = some (f.inked code x y) := by
  obtain ⟨hwidth, hheight⟩ := hf
  have hcode : code.toNat < 256 := code.toNat_lt
  have hfirst : code.toNat * f.height ≤ 256 * 16 :=
    Nat.mul_le_mul (Nat.le_of_lt hcode) hheight
  have hsize : (2 : Nat) ^ 32 < UInt64.size := by decide
  have hrow : (of f).rows[code.toNat * f.height + y]? = some (rowOf f code y) := by
    show (rowByRow f.height 256 fun y k => rowOf f (UInt8.ofNat k) y)[_]? = _
    rw [getElem?_rowByRow_of_lt _ hy hcode, UInt8.ofNat_toNat]
  have hin : ¬ ((of f).width ≤ x ∨ (of f).height ≤ y) := by
    show ¬ (f.width ≤ x ∨ f.height ≤ y)
    omega
  -- the mask of one of nine pixels picks the bit that is its ink
  have hbit : (rowOf f code y &&& 0x100 >>> x != 0) = f.inked code x y := by
    have hpow : (0x100 : Nat) >>> x = 2 ^ (8 - x) := by
      rw [Nat.shiftRight_eq_div_pow, show (0x100 : Nat) = 2 ^ 8 from rfl,
        Nat.pow_div (by omega) (by decide)]
    have hmark := (rowOf_marks f code y).bit x (by omega)
    rw [hpow, Nat.and_two_pow, hmark]
    cases f.inked code x y with
    | true =>
      rw [Bool.toNat_true, Nat.one_mul, bne_iff_ne]
      exact Nat.ne_of_gt (Nat.two_pow_pos _)
    | false =>
      rw [Bool.toNat_false, Nat.zero_mul]
      rfl
  have hheights : (of f).height = f.height := rfl
  rw [pixel, if_neg hin, hheights, word_eq (by omega)]
  simp only [Option.bind_eq_bind, Option.bind_some]
  rw [word_eq (by omega), Option.bind_some, hrow, Option.bind_some, shiftRight_eq (by omega),
    Option.bind_some, hbit]
  rfl

/-- The pixels of a character, row after row as `rowByRow` lists them. -/
theorem toList_paint (f : Font) (code : UInt8) (ink paper : Color) :
    (f.paint code ink paper).toList
      = rowByRow f.width f.height fun x y => if f.inked code x y then ink else paper := by
  refine eq_rowByRow ?_ fun i hi => ?_
  · rw [Array.length_toList, Font.size_paint, Nat.mul_comm]
  · have hpos : 0 < f.width := Nat.pos_of_lt_mul_right hi
    have hrow : i / f.width < f.height := Nat.div_lt_of_lt_mul hi
    have hpixel := f.getElem?_paint code ink paper (Nat.mod_lt i hpos) hrow
    have hplace : i / f.width * f.width + i % f.width = i := Nat.div_add_mod' ..
    rw [hplace] at hpixel
    rw [Array.getElem?_toList]
    exact hpixel

/-- A machine paints the characters of a `Small` font by `paint`, and no character fails. -/
theorem paint_of {f : Font} (hf : Small f) (code : UInt8) (ink paper : Color) :
    (of f).paint code ink paper = some (pack (f.paint code ink paper).toList) := by
  have hpixels : f.width * f.height < 2 ^ 32 := by
    calc f.width * f.height ≤ 9 * 16 := Nat.mul_le_mul hf.width hf.height
      _ < 2 ^ 32 := by decide
  have hsize : (2 : Nat) ^ 34 < UInt64.size := by decide
  have hrows : ∀ y ∈ List.range f.height,
      (List.range f.width).mapM (fun x => do
          let inked ← (of f).pixel code x y
          pure (if inked then ink else paper).bytes)
        = some ((List.range f.width).map fun x =>
            (if f.inked code x y then ink else paper).bytes) := by
    intro y hy
    refine mapM_eq fun x hx => ?_
    rw [pixel_of hf code (List.mem_range.mp hx) (List.mem_range.mp hy)]
    rfl
  have hsides : (of f).width = f.width ∧ (of f).height = f.height := ⟨rfl, rfl⟩
  rw [paint, hsides.1, hsides.2, word_eq (by omega)]
  simp only [Option.bind_eq_bind, Option.bind_some]
  simp only [Option.bind_eq_bind] at hrows
  rw [word_eq (by omega), Option.bind_some, mapM_eq hrows, Option.bind_some, toList_paint,
    ← flatten_bytes]
  rfl

end Glyphs

end TextArt.Machine
