import TextArt.Command.Parameters
import TextArt.Proofs.Machine.Numbers
import TextArt.Raster.Basic

namespace TextArt

/-!
# Buffers — pixels as runs of bytes

A machine keeps the pixels of a raster in one run of bytes, four for every pixel and row after row.

* `rowByRow` — values in this order; `getElem?_rowByRow` finds one again;
* `Raster.colors` — the colours of a raster in this order; `Raster.getElem?_colors` and
  `Raster.eq_colors` say that they are the pixels, and no others;
* `Machine.pack` — the bytes of some pixels; `Raster.toList_toBytes` and `Raster.size_toBytes` say
  that the bytes of a raster are those of its colours, and how many there are;
* `Machine.slice`, `Machine.copyInto` — a part of a list, and a list with a part replaced, neither
  of which may reach beyond the list;
* `Machine.slice_pack`, `Machine.copyInto_pack` — what these do to the bytes of pixels, they do to
  the pixels.
-/

/-! ### The colours of a raster, in order -/

/-- The four bytes of a pixel, `red` first and `alpha` last. -/
def Color.bytes (c : Color) : Bytes :=
  [c.red, c.green, c.blue, c.alpha]

/-- A place in a `flatMap` of pieces of one length is a place in a piece. -/
theorem getElem?_flatMap_of_length {α β : Type} {f : α → List β} {n : Nat} (hn : 0 < n)
    {as : List α} (h : ∀ a ∈ as, (f a).length = n) (i : Nat) :
    (as.flatMap f)[i]? = as[i / n]?.bind fun a => (f a)[i % n]? := by
  induction as generalizing i with
  | nil => simp
  | cons a as ih =>
    obtain ⟨ha, has⟩ := List.forall_mem_cons.mp h
    rw [List.flatMap_cons, List.getElem?_append, ha]
    -- a place in the first piece stays, and any other is one piece earlier in the rest
    by_cases hi : i < n
    · rw [if_pos hi, Nat.div_eq_of_lt hi, Nat.mod_eq_of_lt hi]
      rfl
    · have hle : n ≤ i := Nat.le_of_not_lt hi
      rw [if_neg hi, ih has, Nat.div_eq_sub_div hn hle, List.getElem?_cons_succ,
        Nat.mod_eq_sub_mod hle]

/-- The lengths of pieces of one length add up in a `flatMap`. -/
theorem length_flatMap_of_length {α β : Type} {f : α → List β} {n : Nat} {as : List α}
    (h : ∀ a ∈ as, (f a).length = n) : (as.flatMap f).length = as.length * n := by
  induction as with
  | nil => simp
  | cons a as ih =>
    obtain ⟨ha, has⟩ := List.forall_mem_cons.mp h
    rw [List.flatMap_cons, List.length_append, ha, ih has, List.length_cons, Nat.add_mul,
      Nat.one_mul, Nat.add_comm]

/-- The values of rows of `width` values, one row after the other. -/
def rowByRow {α : Type} (width height : Nat) (value : Nat → Nat → α) : List α :=
  (List.range height).flatMap fun y => (List.range width).map fun x => value x y

theorem length_rowByRow {α : Type} (width height : Nat) (value : Nat → Nat → α) :
    (rowByRow width height value).length = width * height := by
  have hrow : ∀ y ∈ List.range height,
      ((List.range width).map fun x => value x y).length = width := by
    intro y _
    rw [List.length_map, List.length_range]
  rw [rowByRow, length_flatMap_of_length hrow, List.length_range, Nat.mul_comm]

/-- A place of `rowByRow` is a place of a row. -/
theorem getElem?_rowByRow {α : Type} {width height i : Nat} (value : Nat → Nat → α)
    (hi : i < width * height) :
    (rowByRow width height value)[i]? = some (value (i % width) (i / width)) := by
  -- a row without a place leaves none for `i`, so the width is positive
  have hpos : 0 < width := Nat.pos_of_lt_mul_right hi
  have hrow : i / width < height := Nat.div_lt_of_lt_mul hi
  have hlength : ∀ y ∈ List.range height,
      ((List.range width).map fun x => value x y).length = width := by
    intro y _
    rw [List.length_map, List.length_range]
  rw [rowByRow, getElem?_flatMap_of_length hpos hlength, List.getElem?_range hrow,
    Option.bind_some, List.getElem?_map, List.getElem?_range (Nat.mod_lt i hpos)]
  rfl

/-- A place of `rowByRow` that is given by a row and a place of the row. -/
theorem getElem?_rowByRow_of_lt {α : Type} {width height x y : Nat} (value : Nat → Nat → α)
    (hx : x < width) (hy : y < height) :
    (rowByRow width height value)[y * width + x]? = some (value x y) := by
  have hpos : 0 < width := Nat.zero_lt_of_lt hx
  have hplace : y * width + x < width * height := by
    calc y * width + x < (y + 1) * width := by
          rw [Nat.add_mul, Nat.one_mul]
          omega
      _ ≤ height * width := Nat.mul_le_mul_right _ hy
      _ = width * height := Nat.mul_comm ..
  have hrow : (y * width + x) / width = y := by
    rw [Nat.mul_comm, Nat.mul_add_div hpos, Nat.div_eq_of_lt hx, Nat.add_zero]
  rw [getElem?_rowByRow value hplace, Nat.mul_add_mod', Nat.mod_eq_of_lt hx, hrow]

/-- A list of as many values is `rowByRow` if it has them in their places. -/
theorem eq_rowByRow {α : Type} {width height : Nat} {as : List α} {value : Nat → Nat → α}
    (hlength : as.length = width * height)
    (h : ∀ i < width * height, as[i]? = some (value (i % width) (i / width))) :
    as = rowByRow width height value := by
  refine List.ext_getElem? fun i => ?_
  by_cases hi : i < width * height
  · rw [h i hi, getElem?_rowByRow value hi]
  · have hle : width * height ≤ i := Nat.le_of_not_lt hi
    rw [List.getElem?_eq_none (by rw [hlength]; exact hle),
      List.getElem?_eq_none (by rw [length_rowByRow]; exact hle)]

namespace Raster

/-- The colours of a `Raster`, row after row. -/
def colors (r : Raster) : List Color :=
  r.rows.toList.flatMap Array.toList

theorem length_of_mem_rows {r : Raster} {row : Array Color} (h : row ∈ r.rows.toList) :
    row.toList.length = r.width := by
  obtain ⟨y, hy, rfl⟩ := List.getElem_of_mem h
  exact r.size_row y hy

theorem length_colors (r : Raster) : r.colors.length = r.width * r.height := by
  have hlength : r.colors.length = r.rows.toList.length * r.width :=
    length_flatMap_of_length fun row hrow => length_of_mem_rows hrow
  rw [hlength, Array.length_toList, r.size_rows]
  split
  · next hw => rw [hw, Nat.mul_zero, Nat.zero_mul]
  · exact Nat.mul_comm ..

/-- The `colors` come row after row. -/
theorem getElem?_colors (r : Raster) (i : Nat) :
    r.colors[i]? = r.pixel? (i % r.width) (i / r.width) := by
  -- a raster without columns has no colours, and no place divides by its width
  by_cases hw : r.width = 0
  · have hempty : r.colors = [] :=
      List.eq_nil_of_length_eq_zero (by rw [length_colors, hw, Nat.zero_mul])
    rw [hempty, List.getElem?_nil, eq_comm, pixel?_eq_none_iff]
    exact .inl (by omega)
  · have hplace : r.colors[i]?
        = r.rows.toList[i / r.width]?.bind fun row => row.toList[i % r.width]? :=
      getElem?_flatMap_of_length (Nat.pos_of_ne_zero hw) (fun row hrow => length_of_mem_rows hrow) i
    simp only [hplace, pixel?, Array.getElem?_toList]

/-- A list is that of the `colors` of a raster if its colours are the pixels. -/
theorem eq_colors {r : Raster} {cs : List Color} (hlength : cs.length = r.width * r.height)
    (h : ∀ i < r.width * r.height, cs[i]? = r.pixel? (i % r.width) (i / r.width)) :
    cs = r.colors := by
  refine List.ext_getElem? fun i => ?_
  by_cases hi : i < r.width * r.height
  · rw [h i hi, getElem?_colors]
  · have hle : r.width * r.height ≤ i := Nat.le_of_not_lt hi
    rw [List.getElem?_eq_none (by rw [hlength]; exact hle),
      List.getElem?_eq_none (by rw [length_colors]; exact hle)]

/-- The `colors` of a generated raster. -/
theorem colors_generate (width height : Nat) (f : Nat → Nat → Color) :
    (generate width height f).colors = rowByRow width height f := by
  refine eq_rowByRow (length_colors _) fun i hi => ?_
  have hpos : 0 < width := Nat.pos_of_lt_mul_right hi
  rw [getElem?_colors]
  exact pixel?_generate f (Nat.mod_lt i hpos) (Nat.div_lt_of_lt_mul hi)

/-- The `colors` of a raster of one colour. -/
theorem colors_solid (width height : Nat) (c : Color) :
    (solid width height c).colors = List.replicate (width * height) c := by
  refine (eq_colors (r := solid width height c) List.length_replicate fun i hi => ?_).symm
  have hpos : 0 < width := Nat.pos_of_lt_mul_right (show i < width * height from hi)
  rw [List.getElem?_replicate_of_lt hi]
  exact (pixel?_solid c (Nat.mod_lt i hpos) (Nat.div_lt_of_lt_mul hi)).symm

/-- The colour at a place of `colors` that is given by its column and its row. -/
theorem getElem?_colors_of_lt {r : Raster} {x : Nat} (hx : x < r.width) (y : Nat) :
    r.colors[y * r.width + x]? = r.pixel? x y := by
  have hpos : 0 < r.width := Nat.zero_lt_of_lt hx
  have hrow : (y * r.width + x) / r.width = y := by
    rw [Nat.mul_comm, Nat.mul_add_div hpos, Nat.div_eq_of_lt hx, Nat.add_zero]
  rw [getElem?_colors, Nat.mul_add_mod', Nat.mod_eq_of_lt hx, hrow]

end Raster

namespace Machine

/-! ### Colours as bytes -/

/-- The bytes of some pixels, each by `Color.bytes`. -/
def pack (cs : List Color) : Bytes :=
  cs.flatMap Color.bytes

theorem pack_append (cs ds : List Color) : pack (cs ++ ds) = pack cs ++ pack ds :=
  List.flatMap_append

theorem length_pack (cs : List Color) : (pack cs).length = cs.length * 4 :=
  length_flatMap_of_length fun _ _ => rfl

theorem drop_pack (n : Nat) (cs : List Color) : (pack cs).drop (n * 4) = pack (cs.drop n) := by
  induction n generalizing cs with
  | zero => rw [Nat.zero_mul, List.drop_zero, List.drop_zero]
  | succ n ih =>
    cases cs with
    | nil => rfl
    | cons c cs =>
      rw [Nat.succ_mul]
      exact ih cs

theorem take_pack (n : Nat) (cs : List Color) : (pack cs).take (n * 4) = pack (cs.take n) := by
  induction n generalizing cs with
  | zero => rw [Nat.zero_mul, List.take_zero, List.take_zero]; rfl
  | succ n ih =>
    cases cs with
    | nil => rfl
    | cons c cs =>
      rw [Nat.succ_mul]
      show c.red :: c.green :: c.blue :: c.alpha :: (pack cs).take (n * 4) = _
      rw [ih]
      rfl

/-- The bytes of some rows, pixel by pixel, are the ones that `pack` makes of `rowByRow`. -/
theorem flatten_bytes (width height : Nat) (color : Nat → Nat → Color) :
    ((List.range height).map fun y => (List.range width).map fun x =>
        (color x y).bytes).flatten.flatten
      = pack (rowByRow width height color) := by
  have hrow : ∀ y, ((List.range width).map fun x => (color x y).bytes).flatten
      = pack ((List.range width).map fun x => color x y) := by
    intro y
    rw [pack, List.flatMap_map, List.flatMap_def]
  rw [rowByRow]
  induction List.range height with
  | nil => rfl
  | cons y ys ih =>
    rw [List.map_cons, List.flatten_cons, List.flatten_append, ih, hrow, List.flatMap_cons,
      pack_append]

/-- Pixels that are `transparent` are zero bytes. -/
theorem pack_transparent (n : Nat) :
    pack (List.replicate n .transparent) = List.replicate (n * 4) 0 := by
  induction n with
  | zero => rfl
  | succ n ih =>
    rw [List.replicate_succ, Nat.succ_mul]
    show Color.transparent.bytes ++ pack (List.replicate n Color.transparent) = _
    rw [ih]
    rfl

/-- Every four bytes in the colour `c`; up to three bytes at the end that make no pixel stay. -/
def recolor (c : Color) : Bytes → Bytes
  | _ :: _ :: _ :: _ :: rest => c.bytes ++ recolor c rest
  | rest => rest

theorem recolor_pack (c : Color) (cs : List Color) :
    recolor c (pack cs) = pack (List.replicate cs.length c) := by
  induction cs with
  | nil => rfl
  | cons d cs ih =>
    show c.bytes ++ recolor c (pack cs) = _
    rw [ih]
    rfl

end Machine

/-- The bytes of a raster are what `pack` makes of its `colors`. -/
theorem Raster.toList_toBytes (r : Raster) : r.toBytes.data.toList = Machine.pack r.colors := by
  -- the four bytes of a pixel are pushed one by one, which is `Color.bytes` after what is there
  have hrow : ∀ (row : List Color) (out : ByteArray),
      (row.foldl (fun out c =>
        (((out.push c.red).push c.green).push c.blue).push c.alpha) out).data.toList
        = out.data.toList ++ Machine.pack row := by
    intro row
    induction row with
    | nil =>
      intro out
      exact (List.append_nil _).symm
    | cons c row ih =>
      intro out
      rw [List.foldl_cons, ih]
      simp [Machine.pack, Color.bytes]
  -- the rows are written one after the other, so the induction is on them
  have hrows : ∀ (rows : List (Array Color)) (out : ByteArray),
      (rows.foldl (fun out row => row.foldl (fun out c =>
        (((out.push c.red).push c.green).push c.blue).push c.alpha) out) out).data.toList
        = out.data.toList ++ Machine.pack (rows.flatMap Array.toList) := by
    intro rows
    induction rows with
    | nil =>
      intro out
      exact (List.append_nil _).symm
    | cons row rows ih =>
      intro out
      rw [List.foldl_cons, ih, ← Array.foldl_toList, hrow, List.flatMap_cons, Machine.pack_append,
        List.append_assoc]
  rw [toBytes, ← Array.foldl_toList, hrows]
  rfl

/-- There are four bytes in `Raster.toBytes` for every pixel. -/
theorem Raster.size_toBytes (r : Raster) : r.toBytes.size = r.width * r.height * 4 := by
  have hlength : r.toBytes.data.toList.length = r.colors.length * 4 := by
    rw [toList_toBytes, Machine.length_pack]
  rw [length_colors] at hlength
  exact hlength

namespace Machine

/-! ### Parts of lists -/

variable {α : Type}

/-- The part of a list from `start` up to `stop`, which must be in order and on the list. -/
def slice (as : List α) (start stop : Nat) : Option (List α) :=
  if start ≤ stop ∧ stop ≤ as.length then some ((as.take stop).drop start) else none

theorem slice_eq {as : List α} {start stop : Nat} (h : start ≤ stop) (h' : stop ≤ as.length) :
    slice as start stop = some ((as.take stop).drop start) :=
  if_pos ⟨h, h'⟩

/-- A `slice` of a list is one of a longer list. -/
theorem slice_append {as : List α} {start stop : Nat} (h : stop ≤ as.length)
    (bs : List α) : slice (as ++ bs) start stop = slice as start stop := by
  unfold slice
  rw [List.length_append, List.take_append_of_le_length h]
  by_cases hstart : start ≤ stop
  · rw [if_pos ⟨hstart, by omega⟩, if_pos ⟨hstart, h⟩]
  · rw [if_neg fun hin => hstart hin.1, if_neg fun hin => hstart hin.1]

/-- A list in which another one takes the place of what was there from `start` on. -/
def copyInto (as : List α) (start : Nat) (source : List α) : Option (List α) :=
  if start + source.length ≤ as.length then
    some (as.take start ++ source ++ as.drop (start + source.length))
  else none

/-- To `copyInto` a list is not to change its length. -/
theorem length_copyInto {as source bs : List α} {start : Nat}
    (h : copyInto as start source = some bs) : bs.length = as.length := by
  unfold copyInto at h
  split at h
  · next hend =>
    obtain rfl := Option.some.inj h
    rw [List.length_append, List.length_append, List.length_take, List.length_drop]
    omega
  · cases h

/-- The replaced part shows what was copied there, and the rest has not changed. -/
theorem getElem?_copied {as source : List α} {start : Nat} (h : start + source.length ≤ as.length)
    (i : Nat) :
    (as.take start ++ source ++ as.drop (start + source.length))[i]?
      = if start ≤ i ∧ i < start + source.length then source[i - start]? else as[i]? := by
  have hstart : (as.take start).length = start := List.length_take_of_le (by omega)
  rw [List.getElem?_append, List.length_append, hstart, List.getElem?_append, hstart]
  -- the three parts are looked at in turn: before the copy, in it, and after it
  by_cases hbefore : i < start
  · rw [if_pos (by omega), if_pos hbefore, if_neg (by omega), List.getElem?_take_of_lt hbefore]
  · by_cases hin : i < start + source.length
    · rw [if_pos hin, if_neg hbefore, if_pos ⟨by omega, hin⟩]
    · rw [if_neg hin, if_neg (by omega), List.getElem?_drop]
      congr 1
      omega

/-- To `copyInto` pixels is to copy the bytes that `pack` makes of them. -/
theorem copyInto_pack {cs ds : List Color} {start : Nat} (h : start + ds.length ≤ cs.length) :
    copyInto (pack cs) (start * 4) (pack ds)
      = some (pack (cs.take start ++ ds ++ cs.drop (start + ds.length))) := by
  have hplace : start * 4 + ds.length * 4 = (start + ds.length) * 4 := (Nat.add_mul ..).symm
  rw [copyInto, length_pack, length_pack, hplace, if_pos (Nat.mul_le_mul_right 4 h), take_pack,
    drop_pack, pack_append, pack_append]

/-- A `slice` of the bytes of pixels is that of some of the pixels. -/
theorem slice_pack {cs : List Color} {start stop : Nat} (h : start ≤ stop)
    (h' : stop ≤ cs.length) :
    slice (pack cs) (start * 4) (stop * 4) = some (pack ((cs.take stop).drop start)) := by
  rw [slice_eq (Nat.mul_le_mul_right 4 h) (by rw [length_pack]; exact Nat.mul_le_mul_right 4 h'),
    take_pack, drop_pack]

end Machine

end TextArt
