import TextArt.Proofs.Averages
import TextArt.Proofs.Layers
import TextArt.Proofs.Machine.Files
import TextArt.Image

namespace TextArt

/-!
# Renders — a picture for any file and any wishes

Whatever the bytes of a file and the wishes of a user are, there is a picture of them, and its size
depends on little: on the wishes for a size, on the width that the record of the file declares, on
the font, and on the level of reduction.

* `Options.screenColumns`, `Options.screenRows` — the size of the screen, from the wishes and the
  record alone; `Config.columnsFor_ofOptions` and `Config.rows_ofOptions` say that it is the one
  that the settings lead to;
* `Raster.AllSolid.reduce` — the average of solid pixels is solid;
* `Machine.render`, `Machine.render_eq` — a render with the numbers of a machine, which does not
  fail;
* `Player.sides_of_sameForm`, `Player.sides_le_of_sameForm` — so the size of every screen of the
  form of a new one is known and bounded;
* `screen_render`, `sides_render`, `sides_render_le` — hence that of a render, which has pixels;
* `size_rgba_render`, `exists_image_render` — its buffer is as long as its size asks for, and so it
  has an image;
* `render_total` — a render has its size, its buffer is as long as that asks for, all of its pixels
  are solid, it can be encoded, and a machine makes it.
-/

/-! ### The size of the screen -/

/-- The width of the screen: the wish `columns` if it is positive, or else the width that a record
    declares if it is positive, neither of which is more than 512, or else that of the mode. -/
def Options.screenColumns (o : Options) (record : Option Sauce) : Nat :=
  let wish := o.columns.getD 0
  let declared := record.elim 0 Sauce.tinfo1
  if 0 < wish then min wish.toNat 512
  else if 0 < declared then min declared 512
  else if o.mode = some "ced" then 78
  else 80

/-- The height of the screen: the wish `rows` if it is positive, but not more than 256, or else
    26. -/
def Options.screenRows (o : Options) : Nat :=
  let wish := o.rows.getD 0
  if 0 < wish then min wish.toNat 256 else 26

namespace Config

/-- A positive wish for a `size` is granted, cut to the `largest` one, and no other wish is. -/
theorem size_eq (value : Option Int) (largest : Nat) :
    size value largest
      = if 0 < value.getD 0 then some (min (value.getD 0).toNat largest) else none := by
  cases value with
  | none => rfl
  | some n => rfl

theorem columnsFor_ofOptions (o : Options) (record : Option Sauce) :
    (ofOptions o).columnsFor (record.bind Sauce.columns) = o.screenColumns record := by
  have hwish : (ofOptions o).columns = size o.columns 512 := rfl
  have hmode : (ofOptions o).mode = o.mode := rfl
  -- a record that declares a width of zero, or no record, declares none
  have hdeclared : record.bind Sauce.columns
      = if 0 < record.elim 0 Sauce.tinfo1 then some (record.elim 0 Sauce.tinfo1) else none := by
    cases record <;> rfl
  unfold columnsFor Options.screenColumns
  rw [hwish, hmode, hdeclared, size_eq]
  dsimp only
  by_cases hcolumns : 0 < o.columns.getD 0
  · rw [if_pos hcolumns, if_pos hcolumns]
  · rw [if_neg hcolumns, if_neg hcolumns]
    by_cases htinfo : 0 < record.elim 0 Sauce.tinfo1
    · obtain ⟨n, hn⟩ := Nat.exists_eq_add_of_le' htinfo
      rw [if_pos htinfo, if_pos htinfo, hn]
      rfl
    · rw [if_neg htinfo, if_neg htinfo]
      rfl

theorem rows_ofOptions (o : Options) : (ofOptions o).rows = o.screenRows := by
  have hwish : (ofOptions o).rows = (size o.rows 256).getD 26 := rfl
  rw [hwish, size_eq]
  unfold Options.screenRows
  dsimp only
  split <;> rfl

end Config

/-! ### Solid pixels -/

namespace Raster

/-- All pixels of a raster are solid, with an `alpha` of 255. -/
def AllSolid (r : Raster) : Prop :=
  ∀ c ∈ r.colors, c.alpha = 255

variable {r : Raster}

theorem allSolid_of_pixel? (h : ∀ x y c, r.pixel? x y = some c → c.alpha = 255) : r.AllSolid := by
  intro c hc
  obtain ⟨i, hi⟩ := List.mem_iff_getElem?.mp hc
  rw [getElem?_colors] at hi
  exact h _ _ c hi

/-- Averages of solid pixels are solid, so `reduce` keeps a raster `AllSolid`. -/
theorem AllSolid.reduce (h : r.AllSolid) (factor : Nat) : (r.reduce factor).AllSolid := by
  by_cases hfactor : factor ≤ 1
  · have hsame : r.reduce factor = r := if_pos hfactor
    rw [hsame]
    exact h
  -- the average of values that are all 255 is 255
  · refine allSolid_of_pixel? fun bx by' c hc => ?_
    have hb : (r.reduce factor).Holds (bx, by') :=
      (isSome_pixel?_iff _ bx by').mp (Option.isSome_of_eq_some hc)
    have hblock : ∀ p ∈ r.places factor (bx, by'), r.shade Color.alpha p = 255 := by
      intro p hp
      have hon := (mem_places.mp hp).1
      obtain ⟨d, hd⟩ := Option.isSome_iff_exists.mp ((r.isSome_pixel?_iff p.1 p.2).mpr hon)
      have hmem : d ∈ r.colors :=
        List.mem_of_getElem? ((getElem?_colors_of_lt hon.1 p.2).trans hd)
      rw [shade, hd]
      exact congrArg UInt8.toNat (h d hmem)
    have hshade := shade_reduce_of_forall (by omega) hb (by simp [Color.channels]) hblock
    rw [shade, hc] at hshade
    exact UInt8.toNat_inj.mp hshade

/-- Every fourth byte in `toBytes` of solid pixels is the largest one. -/
theorem AllSolid.getElem?_toBytes (h : r.AllSolid) {i : Nat} (hi : i < r.width * r.height) :
    r.toBytes.data[i * 4 + 3]? = some 255 := by
  have hlt : i < r.colors.length := by
    rw [length_colors]
    exact hi
  have hbyte : (Machine.pack r.colors)[i * 4 + 3]? = some r.colors[i].alpha := by
    have hfour : ∀ c ∈ r.colors, c.bytes.length = 4 := fun _ _ => rfl
    have hplace : (i * 4 + 3) / 4 = i ∧ (i * 4 + 3) % 4 = 3 := by omega
    rw [Machine.pack, getElem?_flatMap_of_length (by decide) hfour, hplace.1, hplace.2,
      List.getElem?_eq_getElem hlt]
    rfl
  rw [← Array.getElem?_toList, toList_toBytes, hbyte, h _ (List.getElem_mem hlt)]

theorem reduce_le (r : Raster) {factor : Nat} (h : 0 < factor) :
    (r.reduce factor).width ≤ r.width ∧ (r.reduce factor).height ≤ r.height := by
  unfold reduce
  split
  · exact ⟨Nat.le_refl _, Nat.le_refl _⟩
  · exact ⟨blocks_le r.width h, blocks_le r.height h⟩

end Raster

/-! ### The screen of a render -/

namespace Player

variable (file : Bytes) (config : Config)

/-- A screen of the form of a new one is as large as `Options.screenColumns` and
    `Options.screenRows` ask for. -/
theorem sides_of_sameForm {o : Options} {t : Terminal}
    (h : t.SameForm (new file (.ofOptions o)).terminal) :
    let font := Font.preset (Config.ofOptions o).font (Config.ofOptions o).bits
    t.screen.visible.width = o.screenColumns (Sauce.ofBytes? file) * font.width
      ∧ t.screen.visible.height = o.screenRows * font.height := by
  intro font
  let config := Config.ofOptions o
  let columns := config.columnsFor ((Sauce.ofBytes? file).bind Sauce.columns)
  have hform : t.screen.visible.SameSize (Terminal.new config columns config.rows columns
      config.rows).screen.visible := h.screen.visible
  have hroomy := (Terminal.sound_new config (Config.columnsFor_pos o _)
    (Config.columnsFor_le o ((Sauce.ofBytes? file).bind Sauce.columns))
    (Config.rows_ofOptions_pos o) (Config.rows_ofOptions_le o)).roomy
  rw [← Config.columnsFor_ofOptions, ← Config.rows_ofOptions]
  exact ⟨hform.1.trans hroomy.visibleWidth, hform.2.trans hroomy.visibleHeight⟩

/-- A screen of the `SameForm` as that of a new player has at least one pixel, at most 512 cells of
    nine pixels in a row, and at most 256 cells of sixteen pixels in a column. -/
theorem sides_le_of_sameForm {o : Options} {t : Terminal}
    (h : t.SameForm (new file (.ofOptions o)).terminal) :
    (1 ≤ t.screen.visible.width ∧ t.screen.visible.width ≤ 512 * 9)
      ∧ 1 ≤ t.screen.visible.height ∧ t.screen.visible.height ≤ 256 * 16 := by
  obtain ⟨hwidth, hheight⟩ := sides_of_sameForm file h
  have hfont := Font.width_preset (Config.ofOptions o).font (Config.ofOptions o).bits
  have hfont' := Font.height_preset (Config.ofOptions o).font (Config.ofOptions o).bits
  rw [hwidth, hheight, ← Config.columnsFor_ofOptions, ← Config.rows_ofOptions]
  exact ⟨⟨Nat.mul_pos (Config.columnsFor_pos o _) hfont.1,
      Nat.mul_le_mul (Config.columnsFor_le o _) hfont.2⟩,
    Nat.mul_pos (Config.rows_ofOptions_pos o) hfont'.1,
    Nat.mul_le_mul (Config.rows_ofOptions_le o) hfont'.2⟩

/-- What `renderAll` leaves is drawn on the screen that it begins with. -/
theorem sameForm_renderAll_new :
    (new file config).renderAll.2.terminal.SameForm (new file config).terminal := by
  let begun := (new file config).terminal
  have htakes := begun.reset.takes_readToEnd ((ByteStream.ofFile file).seek 0)
  exact @Place.Takes.preserves _ _ _ (fun t => t.SameForm begun)
    (fun t b next h => (t.sameForm_feed b next).trans h) htakes
    ⟨rfl, rfl, rfl, rfl, begun.screen.sameForm_reset⟩

/-- The pixels of a render are `AllSolid` before they are averaged. -/
theorem allSolid_renderAll_new :
    (new file config).renderAll.2.terminal.screen.visible.AllSolid := by
  obtain ⟨columns, hlayered⟩ := layered_foldl_act file config [.renderAll]
  obtain ⟨g, hdepicts, hsolid⟩ := hlayered.cells
  exact Raster.allSolid_of_pixel? fun x y c => hdepicts.alpha_visible hsolid

end Player

/-! ### Renders of a machine -/

/-- The raster that a machine makes of a file. It counts scrolls, too, with its own numbers. -/
def Machine.render (file : Bytes) (options : Options) : Option Machine.Flat := do
  let config := Config.ofOptions options
  let (source, record) ← Source.ofFile file
  let columns := config.columnsFor (record.bind Sauce.columns)
  let begun ← newDevice config columns config.rows
  let reset ← resetDevice begun
  let (d, _) ← reset.readOn (fun n => word (n + 1)) (source.seek 0) 0
  let factor ← blockFactor config.thumbnail
  if 1 < factor then d.surface.visible.reduce factor else pure d.surface.visible

namespace Machine

variable {columns rows : Nat} {t : Terminal}

/-- What is drawn of a `Sound` terminal is reduced without a failure. -/
theorem reduce_visible (h : t.Sound columns rows) (level : Nat) :
    (do
        let factor ← blockFactor level
        if 1 < factor then (Device.of t).surface.visible.reduce factor
        else pure (Device.of t).surface.visible)
      = some (Flat.of (t.screen.visible.reduce (Raster.blockFactor level))) := by
  have hfactor := Raster.blockFactor_le level
  -- even the last block ends where a word can count to
  have hend : Raster.blocks t.screen.visible.height (Raster.blockFactor level)
      * Raster.blockFactor level < UInt64.size := by
    have hblocks := Raster.blocks_le t.screen.visible.height (Raster.blockFactor_pos level)
    have hheight := Nat.le_trans hblocks h.roomy.sides_le.2
    exact Nat.lt_of_le_of_lt (Nat.mul_le_mul hheight hfactor) (by decide)
  have hreduce : (Device.of t).surface.visible.reduce (Raster.blockFactor level) = _ :=
    Flat.reduce_of h.roomy.countable h.roomy.bytes_lt (Nat.lt_of_le_of_lt hfactor (by decide))
      (fun _ => hend) (Flat.summable_of_small t.screen.visible hfactor)
  rw [blockFactor_eq, Option.bind_eq_bind, Option.bind_some]
  split
  -- a factor of one is the only one that leaves the raster alone
  · exact hreduce
  · next hone =>
    have hpos := Raster.blockFactor_pos level
    rw [show Raster.blockFactor level = 1 by omega, Raster.reduce_one]
    rfl

/-- **A machine makes every render**: `Machine.render` does not fail on a file whose bytes it can
    count, and makes the bytes of `visible`, reduced. -/
theorem render_eq {file : Bytes} (h : file.length < UInt64.size) (o : Options) :
    let p := (Player.new file (.ofOptions o)).renderAll.2
    render file o
      = some (.of (p.terminal.screen.visible.reduce (Raster.blockFactor p.config.thumbnail))) := by
  intro p
  let config := Config.ofOptions o
  let columns := config.columnsFor ((Sauce.ofBytes? file).bind Sauce.columns)
  have hnew : Runs columns config.rows 0 (newDevice config columns config.rows) _ :=
    new_runs config (Config.columnsFor_pos o _) (Config.columnsFor_le o _)
      (Config.rows_ofOptions_pos o) (Config.rows_ofOptions_le o)
  have hreset := reset_runs hnew.sound
  obtain ⟨source, hsource, hshows, hposition⟩ := Source.ofFile_eq h
  have hbegun : (source.seek 0).Shows ((ByteStream.ofFile file).seek 0).rest := by
    have hseek : source.seek 0 = source := by
      rw [Source.seek, Nat.zero_min, ← hposition]
    rw [hseek]
    exact hshows
  have hlength : 0 + ((ByteStream.ofFile file).seek 0).rest.length < UInt64.size := by
    rw [Nat.zero_add, hbegun.length_eq]
    exact Nat.lt_of_le_of_lt (Nat.sub_le _ _) hbegun.short
  -- as every byte scrolls once at most, scrolls can be counted where bytes can be
  have hcount : ∀ k < 0 + ((ByteStream.ofFile file).seek 0).rest.length,
      word (k + 1) = some (k + 1) := fun k hk => word_eq (by omega)
  obtain ⟨hsound, source', hread⟩ := readOn_follows hreset.sound hbegun hlength hcount
  unfold render
  dsimp only
  rw [hsource, Option.bind_eq_bind, Option.bind_some]
  dsimp only
  rw [hnew.eq, Option.bind_eq_bind, Option.bind_some, hreset.eq, Option.bind_some, hread,
    Option.bind_eq_bind, Option.bind_some]
  exact reduce_visible hsound config.thumbnail

end Machine

/-! ### Renders -/

section

variable (file : Bytes) (o : Options)

/-- The sides of a `render` are those of its screen, reduced. -/
theorem sides_render :
    let font := Font.preset (Config.ofOptions o).font (Config.ofOptions o).bits
    let factor := Raster.blockFactor (Config.ofOptions o).thumbnail
    (render file o).width = (o.screenColumns (Sauce.ofBytes? file) * font.width) ⌈/⌉ factor
      ∧ (render file o).height = (o.screenRows * font.height) ⌈/⌉ factor := by
  intro font factor
  obtain ⟨hwidth, hheight⟩ :=
    Player.sides_of_sameForm file (Player.sameForm_renderAll_new file (.ofOptions o))
  rw [← hwidth, ← hheight]
  exact Raster.sides_reduce _ (Raster.blockFactor_pos _)

/-- The screen of a `render` has between one cell and the largest number of them, in `screenColumns`
    and in `screenRows`. -/
theorem screen_render :
    (1 ≤ o.screenColumns (Sauce.ofBytes? file) ∧ o.screenColumns (Sauce.ofBytes? file) ≤ 512)
      ∧ 1 ≤ o.screenRows ∧ o.screenRows ≤ 256 := by
  rw [← Config.columnsFor_ofOptions, ← Config.rows_ofOptions]
  exact ⟨⟨Config.columnsFor_pos o _, Config.columnsFor_le o _⟩, Config.rows_ofOptions_pos o,
    Config.rows_ofOptions_le o⟩

/-- A render has pixels, and no more than the largest screen, which `Raster.reduce` does not make
    larger. -/
theorem sides_render_le :
    (1 ≤ (render file o).width ∧ (render file o).width ≤ 512 * 9)
      ∧ 1 ≤ (render file o).height ∧ (render file o).height ≤ 256 * 16 := by
  let p := (Player.new file (.ofOptions o)).renderAll.2
  have hfactor := Raster.blockFactor_pos p.config.thumbnail
  obtain ⟨⟨hwidth, hwidthLe⟩, hheight, hheightLe⟩ :=
    Player.sides_le_of_sameForm file (Player.sameForm_renderAll_new file (.ofOptions o))
  obtain ⟨hreducedWidth, hreducedHeight⟩ := p.terminal.screen.visible.reduce_le hfactor
  have hparts : ∀ {length factor : Nat}, 1 ≤ length → 0 < factor → 1 ≤ length ⌈/⌉ factor := by
    intro length factor hlength hfactor
    rw [Nat.ceilDiv_eq_add_pred_div]
    exact Nat.div_pos (by omega) hfactor
  obtain ⟨hceilWidth, hceilHeight⟩ := p.terminal.screen.visible.sides_reduce hfactor
  exact ⟨⟨(hparts hwidth hfactor).trans hceilWidth.ge, hreducedWidth.trans hwidthLe⟩,
    (hparts hheight hfactor).trans hceilHeight.ge, hreducedHeight.trans hheightLe⟩

/-- The buffer `rgba` of a render, which is that of a raster, has four bytes for every pixel. -/
theorem size_rgba_render :
    (render file o).rgba.size = (render file o).width * (render file o).height * 4 :=
  Raster.size_toBytes _

/-- A render has an image, if `fromRaw` takes every buffer that is long enough. -/
theorem exists_image_render {Image : Type} {fromRaw : Nat → Nat → ByteArray → Option Image}
    (htakes : ∀ width height rgba, width * height * 4 ≤ rgba.size →
      (fromRaw width height rgba).isSome) :
    ∃ image, fromRaw (render file o).width (render file o).height (render file o).rgba = some image
      ∧ (render file o).image fromRaw = .ok image := by
  obtain ⟨⟨-, hwidth⟩, -, hheight⟩ := sides_render_le file o
  obtain ⟨image, himage⟩ :=
    Option.isSome_iff_exists.mp (htakes _ _ _ (size_rgba_render file o).ge)
  have hlargest : 512 * 9 ≤ largestSide ∧ 256 * 16 ≤ largestSide := by decide
  exact ⟨image, himage,
    imageOf_eq fromRaw (hwidth.trans hlargest.1) (hheight.trans hlargest.2) himage⟩

end

/-- **Every render has a picture.** For a file of any bytes and any wishes, the picture of `render`
    has the size of its screen in pixels, reduced, where the screen is `screenColumns` wide and
    `screenRows` high, as the wishes, the record and the mode ask for, within one and the largest
    size; its buffer is exactly as long as the size asks for, and every pixel is solid; it has an
    image, if `fromRaw` takes every buffer that is long enough; and if the bytes of the file can be
    counted by a machine, `Machine.render` makes this picture, with no number that a machine does
    not have, no division by zero, and no byte that is not in the file, a table or a raster. -/
theorem render_total (file : Bytes) (o : Options) :
    let config := Config.ofOptions o
    let columns := o.screenColumns (Sauce.ofBytes? file)
    let rows := o.screenRows
    let font := Font.preset config.font config.bits
    let factor := Raster.blockFactor config.thumbnail
    let picture := render file o
    ((1 ≤ columns ∧ columns ≤ 512) ∧ 1 ≤ rows ∧ rows ≤ 256)
      ∧ (picture.width = (columns * font.width) ⌈/⌉ factor
        ∧ picture.height = (rows * font.height) ⌈/⌉ factor)
      ∧ picture.rgba.size = picture.width * picture.height * 4
      ∧ (∀ i < picture.width * picture.height, picture.rgba.data[i * 4 + 3]? = some 255)
      ∧ (∀ (Image : Type) (fromRaw : Nat → Nat → ByteArray → Option Image),
          (∀ width height rgba, width * height * 4 ≤ rgba.size →
            (fromRaw width height rgba).isSome) →
          ∃ image, picture.image fromRaw = .ok image)
      ∧ (file.length < UInt64.size →
        Machine.render file o
          = some ⟨picture.width, picture.height, picture.rgba.data.toList⟩) := by
  intro config columns rows font factor picture
  -- the picture is the visible raster of a player that has drawn all, reduced
  let p := (Player.new file config).renderAll.2
  let reduced := p.terminal.screen.visible.reduce factor
  have hsolid : reduced.AllSolid := (Player.allSolid_renderAll_new file config).reduce factor
  have himage : ∀ (Image : Type) (fromRaw : Nat → Nat → ByteArray → Option Image),
      (∀ width height rgba, width * height * 4 ≤ rgba.size →
        (fromRaw width height rgba).isSome) → ∃ image, picture.image fromRaw = .ok image := by
    intro Image fromRaw htakes
    obtain ⟨image, -, himage⟩ := exists_image_render file o htakes
    exact ⟨image, himage⟩
  refine ⟨screen_render file o, sides_render file o, size_rgba_render file o,
    fun i hi => hsolid.getElem?_toBytes hi, himage, fun hfile => ?_⟩
  have hdata : picture.rgba.data.toList = Machine.pack reduced.colors := reduced.toList_toBytes
  rw [Machine.render_eq hfile, hdata]
  rfl

/-- A case of `render_total`: two letters, a wish for nothing, and images that are a size and a
    buffer. -/
theorem render_total_two_letters :
    let file : Bytes := [0x68, 0x69]
    let fromRaw := fun (width height : Nat) (rgba : ByteArray) =>
      if width * height * 4 ≤ rgba.size then some (width, height, rgba) else none
    file.length < UInt64.size
      ∧ (∀ width height rgba, width * height * 4 ≤ rgba.size → (fromRaw width height rgba).isSome)
      ∧ (∃ image, (render file {}).image fromRaw = .ok image)
      ∧ Machine.render file {} = some
        ⟨(render file {}).width, (render file {}).height, (render file {}).rgba.data.toList⟩ := by
  intro file fromRaw
  have hfile : file.length < UInt64.size := by decide
  have htakes : ∀ width height rgba, width * height * 4 ≤ rgba.size →
      (fromRaw width height rgba).isSome := fun width height rgba h => by
    rw [show fromRaw width height rgba = some (width, height, rgba) from if_pos h]
    rfl
  obtain ⟨-, -, -, -, himage, hmachine⟩ := render_total file {}
  exact ⟨hfile, htakes, himage _ fromRaw htakes, hmachine hfile⟩

end TextArt
