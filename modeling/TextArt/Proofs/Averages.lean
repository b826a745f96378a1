import TextArt.Proofs.Machine.Filter
import Mathlib.Algebra.BigOperators.Field
import Mathlib.Algebra.BigOperators.Group.Finset.Sigma
import Mathlib.Algebra.BigOperators.Intervals
import Mathlib.Algebra.Order.BigOperators.Group.Finset
import Mathlib.Algebra.Order.Floor.Div
import Mathlib.Algebra.Order.Round
import Mathlib.Data.Rat.Floor

namespace TextArt

open scoped BigOperators

/-!
# Averages — what a reduced picture shows

A picture is cut into square blocks, those on the right and lower edge being as large as the
picture leaves room for.  A reduced picture has one pixel for each block, and each of its channels
is the mean of that channel in the block.

* `Raster.places` — the places of a block; `Raster.card_places` and `Raster.sum_shade` say that the
  pixels that are added up are those at these places;
* `Raster.toNat_mean` — the mean that is computed is the rounded one;
* `Raster.Averages` — what a raster of averages is, and what follows for its channels;
* `Raster.reduce_averages` — reducing a raster makes one, a machine does it, too, and brighter
  pixels never make darker averages.
-/

/-- The channels of a colour, each as the field of `Color` that it is. -/
def Color.channels : List (Color → UInt8) :=
  [red, green, blue, alpha]

namespace Raster

/-- A place lies on a raster: its column is less than `width` and its row less than `height`. -/
def Holds (r : Raster) (p : Nat × Nat) : Prop :=
  p.1 < r.width ∧ p.2 < r.height

/-- The value of a channel at a place, `0` being off the raster. -/
def shade (r : Raster) (channel : Color → UInt8) (p : Nat × Nat) : Nat :=
  (r.pixel? p.1 p.2).elim 0 fun c => (channel c).toNat

/-- The places of a raster that lie in the block `b`, counted in blocks of side `factor`. -/
def places (r : Raster) (factor : Nat) (b : Nat × Nat) : Finset (Nat × Nat) :=
  (Finset.range r.width ×ˢ Finset.range r.height).filter
    fun p => (p.1 / factor, p.2 / factor) = b

variable {r s : Raster} {factor : Nat} {b p : Nat × Nat} {channel : Color → UInt8}

/-! ### Places -/

theorem mem_places : p ∈ r.places factor b ↔ r.Holds p ∧ (p.1 / factor, p.2 / factor) = b := by
  rw [places, Finset.mem_filter, Finset.mem_product, Finset.mem_range, Finset.mem_range, Holds]

/-- The `places` of a block are a product of two `Finset.Ico`, a range of columns and one of
    rows. -/
theorem places_eq (hfactor : 0 < factor) :
    r.places factor b
      = Finset.Ico (b.1 * factor) (min (b.1 * factor + factor) r.width)
        ×ˢ Finset.Ico (b.2 * factor) (min (b.2 * factor + factor) r.height) := by
  ext p
  rw [mem_places, Finset.mem_product, Finset.mem_Ico, Finset.mem_Ico, Prod.ext_iff,
    div_eq_iff_between hfactor, div_eq_iff_between hfactor, Holds]
  omega

/-- The pixels that `Raster.block` lists are as many as its `places`. -/
theorem card_places (hfactor : 0 < factor) :
    (r.places factor b).card = (r.block factor b.1 b.2).length := by
  rw [places_eq hfactor, Finset.card_product, Nat.card_Ico, Nat.card_Ico, length_block,
    Nat.mul_comm]

/-- The pixels of some parts of rows, one after the other, are added up by `channelSum` part by
    part. -/
theorem channelSum_flatMap_range (channel : Color → UInt8) (part : Nat → List Color) (n : Nat) :
    Machine.channelSum channel ((List.range n).flatMap part)
      = ∑ k ∈ Finset.range n, Machine.channelSum channel (part k) := by
  -- sums are made from the left, so the second part is taken apart at its end
  have happend : ∀ cs ds, Machine.channelSum channel (cs ++ ds)
      = Machine.channelSum channel cs + Machine.channelSum channel ds := by
    intro cs ds
    induction ds using List.reverseRecOn with
    | nil => rw [List.append_nil]; rfl
    | append_singleton ds d ih =>
      rw [← List.append_assoc, Machine.channelSum_concat, Machine.channelSum_concat, ih,
        Nat.add_assoc]
  induction n with
  | zero => rfl
  | succ n ih =>
    rw [List.range_succ, List.flatMap_append, List.flatMap_singleton, happend, ih,
      Finset.sum_range_succ]

/-- The pixels of a `rowPart` are added up column by column. -/
theorem channelSum_rowPart (channel : Color → UInt8) {left right row : Nat}
    (hright : right ≤ r.width) (hrow : row < r.height) :
    Machine.channelSum channel (r.rowPart left right row)
      = ∑ i ∈ Finset.range (right - left), r.shade channel (left + i, row) := by
  let color : Nat → Color := fun i => (r.pixel? (left + i) row).getD .transparent
  have hon : ∀ i < right - left, r.pixel? (left + i) row = some (color i) := by
    intro i hi
    obtain ⟨c, hc⟩ := Option.isSome_iff_exists.mp
      ((r.isSome_pixel?_iff (left + i) row).mpr ⟨by omega, hrow⟩)
    show _ = some ((r.pixel? (left + i) row).getD .transparent)
    rw [hc]
    rfl
  -- as a list of single pixels the part is one of those that are added up part by part
  have hpart :
      r.rowPart left right row = (List.range (right - left)).flatMap fun i => [color i] := by
    rw [← List.map_eq_flatMap]
    refine List.ext_getElem? fun i => ?_
    rw [List.getElem?_map]
    by_cases hi : i < right - left
    · rw [getElem?_rowPart hright hi, hon i hi, List.getElem?_range hi]
      rfl
    · rw [List.getElem?_eq_none (by rw [length_rowPart hright hrow]; omega),
        List.getElem?_eq_none (by rw [List.length_range]; omega)]
      rfl
  rw [hpart, channelSum_flatMap_range]
  refine Finset.sum_congr rfl fun i hi => ?_
  show 0 + (channel (color i)).toNat = (r.pixel? (left + i) row).elim 0 fun c => (channel c).toNat
  rw [hon i (Finset.mem_range.mp hi), Nat.zero_add]
  rfl

/-- The `channelSum` that is computed for a block is the sum of `shade` over its `places`. -/
theorem sum_shade (hfactor : 0 < factor) (channel : Color → UInt8) (b : Nat × Nat) :
    ∑ p ∈ r.places factor b, r.shade channel p
      = Machine.channelSum channel (r.block factor b.1 b.2) := by
  let left := b.1 * factor
  let top := b.2 * factor
  have hrow : ∀ k ∈ Finset.range (min (top + factor) r.height - top),
      ∑ i ∈ Finset.range (min (left + factor) r.width - left), r.shade channel (left + i, top + k)
        = Machine.channelSum channel
          (r.rowPart left (min (left + factor) r.width) (top + k)) := by
    intro k hk
    have hk := Finset.mem_range.mp hk
    exact (channelSum_rowPart channel (Nat.min_le_right ..) (by omega)).symm
  rw [places_eq hfactor, Finset.sum_product_right, Finset.sum_Ico_eq_sum_range, ← flatMap_rowPart,
    channelSum_flatMap_range, ← Finset.sum_congr rfl hrow]
  exact Finset.sum_congr rfl fun k _ => Finset.sum_Ico_eq_sum_range ..

/-! ### Blocks -/

/-- The blocks are as many as are needed to cover the raster: `reduce` divides both sides by the
    factor, rounding up. -/
theorem sides_reduce (r : Raster) {factor : Nat} (h : 0 < factor) :
    (r.reduce factor).width = r.width ⌈/⌉ factor
      ∧ (r.reduce factor).height = r.height ⌈/⌉ factor := by
  rw [Nat.ceilDiv_eq_add_pred_div, Nat.ceilDiv_eq_add_pred_div]
  unfold reduce
  split
  · obtain rfl : factor = 1 := by omega
    rw [Nat.add_sub_cancel, Nat.add_sub_cancel, Nat.div_one, Nat.div_one]
    exact ⟨rfl, rfl⟩
  · exact ⟨rfl, rfl⟩

/-- A block is one of those that are needed, so that the reduced raster `Holds` it, exactly if its
    first place is on the raster. -/
theorem holds_reduce_iff (hfactor : 0 < factor) :
    (r.reduce factor).Holds b ↔ r.Holds (b.1 * factor, b.2 * factor) := by
  obtain ⟨hwidth, hheight⟩ := r.sides_reduce hfactor
  have hlt : ∀ n length, n < length ⌈/⌉ factor ↔ n * factor < length := by
    intro n length
    rw [← Nat.not_le, ceilDiv_le_iff_le_mul hfactor, Nat.not_le, Nat.mul_comm]
  rw [Holds, hwidth, hheight, hlt, hlt, Holds]

/-- A block that begins on the raster has a place there, so its `places` are not empty. -/
theorem nonempty_places (hfactor : 0 < factor) (hb : (r.reduce factor).Holds b) :
    (r.places factor b).Nonempty := by
  refine ⟨(b.1 * factor, b.2 * factor), mem_places.mpr ⟨(holds_reduce_iff hfactor).mp hb, ?_⟩⟩
  rw [Nat.mul_div_cancel _ hfactor, Nat.mul_div_cancel _ hfactor]

/-- A place lies among the `places` of one block, which is one of those that are needed. -/
theorem holds_reduce_of_mem (hfactor : 0 < factor) (hp : p ∈ r.places factor b) :
    (r.reduce factor).Holds b := by
  obtain ⟨⟨hx, hy⟩, rfl⟩ := mem_places.mp hp
  exact (holds_reduce_iff hfactor).mpr
    ⟨Nat.lt_of_le_of_lt (Nat.div_mul_le_self ..) hx, Nat.lt_of_le_of_lt (Nat.div_mul_le_self ..) hy⟩

/-- The first block is the largest one, so `Summable`, which speaks about that one only, is the same
    as the bound for the `places` of every block. -/
theorem summable_iff (hfactor : 0 < factor) :
    Machine.Flat.Summable r factor
      ↔ ∀ b, 255 * (r.places factor b).card + (r.places factor b).card / 2 < UInt32.size := by
  have harea : ∀ b, (r.places factor b).card ≤ min factor r.width * min factor r.height := by
    intro b
    rw [card_places hfactor, length_block, Nat.mul_comm]
    exact Nat.mul_le_mul (by omega) (by omega)
  have hfirst : (r.places factor (0, 0)).card = min factor r.width * min factor r.height := by
    rw [card_places hfactor, length_block, Nat.zero_mul, Nat.zero_add, Nat.sub_zero, Nat.sub_zero,
      Nat.mul_comm]
  constructor
  · intro h b
    have hless := harea b
    unfold Machine.Flat.Summable at h
    dsimp only at h
    omega
  · intro h
    have hlast := h (0, 0)
    rwa [hfirst] at hlast

/-! ### Means -/

/-- To `round` a quotient, half of the divisor is added before the division. -/
theorem round_div (a : Nat) {n : Nat} (hn : 0 < n) :
    round ((a : ℚ) / n) = (((a + n / 2) / n : Nat) : ℤ) := by
  have hn' : (n : ℚ) ≠ 0 := Nat.cast_ne_zero.mpr (Nat.ne_of_gt hn)
  have hsum : (a : ℚ) / n + 1 / 2 = ((2 * a + n : Nat) : ℚ) / ((2 * n : Nat) : ℚ) := by
    push_cast
    field_simp
  have hhalves : (2 * a + n) / (2 * n) = (a + n / 2) / n := by
    rw [← Nat.div_div_eq_div_mul]
    congr 1
    omega
  rw [round_eq, hsum, Rat.floor_natCast_div_natCast, ← hhalves]
  rfl

/-- The `mean` that is computed does not wrap around in a byte, as it is not larger than the largest
    byte. -/
theorem toNat_mean (channel : Color → UInt8) {cs : List Color} (hne : cs.length ≠ 0) :
    (mean channel cs).toNat
      = (Machine.channelSum channel cs + cs.length / 2) / cs.length := by
  have hle := Machine.channelSum_le channel cs
  have hbyte : (Machine.channelSum channel cs + cs.length / 2) / cs.length < 256 := by
    rw [Nat.div_lt_iff_lt_mul (Nat.pos_of_ne_zero hne)]
    omega
  show (UInt8.ofNat ((Machine.channelSum channel cs + cs.length / 2) / cs.length)).toNat = _
  rw [UInt8.toNat_ofNat', Nat.mod_eq_of_lt hbyte]

/-- All channels of an `average` are a `mean`. -/
theorem average_eq_mean (h : channel ∈ Color.channels) (cs : List Color) :
    channel (average cs) = mean channel cs := by
  simp only [Color.channels, List.mem_cons, List.not_mem_nil, or_false] at h
  rcases h with rfl | rfl | rfl | rfl <;> rfl

/-- The `shade` of a reduced raster is the rounded average of the `shade` over the `places` of a
    block. -/
theorem shade_reduce (hfactor : 2 ≤ factor) (hb : (r.reduce factor).Holds b)
    (hchannel : channel ∈ Color.channels) :
    (r.reduce factor).shade channel b
      = (∑ p ∈ r.places factor b, r.shade channel p + (r.places factor b).card / 2)
        / (r.places factor b).card := by
  have hpos : 0 < factor := by omega
  have hne : (r.block factor b.1 b.2).length ≠ 0 := by
    rw [← card_places hpos, Finset.card_ne_zero]
    exact nonempty_places hpos hb
  have hreduce : r.reduce factor = generate (blocks r.width factor) (blocks r.height factor)
      fun bx by' => average (r.block factor bx by') := if_neg (by omega)
  rw [hreduce] at hb ⊢
  obtain ⟨hx, hy⟩ : b.1 < blocks r.width factor ∧ b.2 < blocks r.height factor := hb
  rw [shade, pixel?_generate _ hx hy, sum_shade hpos, card_places hpos, ← toNat_mean channel hne,
    ← average_eq_mean hchannel]
  rfl

/-! ### Rasters of averages -/

/-- The raster `small` has a pixel for each of the blocks that cover `r`, with the means of their
    channels to the nearest integer, halves going up. What this says of `small` does not mention
    `reduce`. -/
structure Averages (r : Raster) (factor : Nat) (small : Raster) : Prop where
  width_eq : small.width = r.width ⌈/⌉ factor
  height_eq : small.height = r.height ⌈/⌉ factor
  mean_eq : ∀ b, small.Holds b → ∀ channel ∈ Color.channels,
    (small.shade channel b : ℤ)
      = round ((∑ p ∈ r.places factor b, (r.shade channel p : ℚ)) / (r.places factor b).card)
  /-- Every place of `r` is among the `places` of one block only. -/
  block_unique : ∀ p, r.Holds p → ∃! b, small.Holds b ∧ p ∈ r.places factor b
  /-- Every block has a place in `r`. -/
  nonempty : ∀ b, small.Holds b → (r.places factor b).Nonempty
  /-- The sums, and what is added to round them, are less than `UInt32.size`, so that they can be
      counted in four bytes. -/
  sum_lt : ∀ b, ∀ channel ∈ Color.channels,
    ∑ p ∈ r.places factor b, r.shade channel p + (r.places factor b).card / 2 < UInt32.size
  /-- A mean is neither less than each `shade` of the block nor more than each of them. -/
  between : ∀ b, small.Holds b → ∀ channel ∈ Color.channels,
    (∃ p ∈ r.places factor b, r.shade channel p ≤ small.shade channel b)
      ∧ ∃ p ∈ r.places factor b, small.shade channel b ≤ r.shade channel p
  /-- A block all of whose pixels are `c` has a pixel `c`. -/
  uniform : ∀ b, small.Holds b → ∀ c, (∀ p ∈ r.places factor b, r.pixel? p.1 p.2 = some c) →
    small.pixel? b.1 b.2 = some c
  /-- A block whose `alpha` is 255 everywhere has no transparency in `small`. -/
  solid : ∀ b, small.Holds b → (∀ p ∈ r.places factor b, r.shade Color.alpha p = 255) →
    small.shade Color.alpha b = 255

/-- A rounded mean of `value` over some `places` lies between the least and the largest value. -/
theorem between_of_mean {places : Finset (Nat × Nat)} (hne : places.Nonempty)
    (value : Nat × Nat → Nat) :
    (∃ p ∈ places, value p ≤ (∑ p ∈ places, value p + places.card / 2) / places.card)
      ∧ ∃ p ∈ places, (∑ p ∈ places, value p + places.card / 2) / places.card ≤ value p := by
  have hpos : 0 < places.card := hne.card_pos
  obtain ⟨least, hleast, hmin⟩ := places.exists_min_image value hne
  obtain ⟨most, hmost, hmax⟩ := places.exists_max_image value hne
  have hlow : places.card * value least ≤ ∑ p ∈ places, value p :=
    places.card_nsmul_le_sum value _ hmin
  have hhigh : ∑ p ∈ places, value p ≤ places.card * value most :=
    places.sum_le_card_nsmul value _ hmax
  refine ⟨⟨least, hleast, ?_⟩, ⟨most, hmost, ?_⟩⟩
  -- the least value times the number of places is at most the sum
  · rw [Nat.le_div_iff_mul_le hpos, Nat.mul_comm]
    omega
  · -- what is added to round is less than one more of each
    rw [← Nat.lt_succ_iff, Nat.div_lt_iff_lt_mul hpos, Nat.succ_mul, Nat.mul_comm]
    omega

theorem between_reduce (hfactor : 2 ≤ factor) (hb : (r.reduce factor).Holds b)
    (hchannel : channel ∈ Color.channels) :
    (∃ p ∈ r.places factor b, r.shade channel p ≤ (r.reduce factor).shade channel b)
      ∧ ∃ p ∈ r.places factor b, (r.reduce factor).shade channel b ≤ r.shade channel p := by
  rw [shade_reduce hfactor hb hchannel]
  exact between_of_mean (nonempty_places (by omega) hb) _

/-- A channel that has the `shade` `v` all over a block has it after `reduce`. -/
theorem shade_reduce_of_forall (hfactor : 2 ≤ factor) (hb : (r.reduce factor).Holds b)
    (hchannel : channel ∈ Color.channels) {v : Nat}
    (hv : ∀ p ∈ r.places factor b, r.shade channel p = v) :
    (r.reduce factor).shade channel b = v := by
  obtain ⟨⟨p, hp, hle⟩, ⟨q, hq, hge⟩⟩ := between_reduce hfactor hb hchannel
  rw [hv p hp] at hle
  rw [hv q hq] at hge
  exact Nat.le_antisymm hge hle

/-- A block whose pixels are all `c` becomes a pixel `c`. -/
theorem pixel?_reduce_of_forall (hfactor : 2 ≤ factor) (hb : (r.reduce factor).Holds b) {c : Color}
    (hc : ∀ p ∈ r.places factor b, r.pixel? p.1 p.2 = some c) :
    (r.reduce factor).pixel? b.1 b.2 = some c := by
  obtain ⟨d, hd⟩ := Option.isSome_iff_exists.mp (((r.reduce factor).isSome_pixel?_iff ..).mpr hb)
  -- the channels are averaged one by one, and together they are the colour
  have hchannel : ∀ channel ∈ Color.channels, channel d = channel c := by
    intro channel hchannel
    have hall : ∀ p ∈ r.places factor b, r.shade channel p = (channel c).toNat := fun p hp => by
      rw [shade, hc p hp]
      rfl
    have hshade := shade_reduce_of_forall hfactor hb hchannel hall
    rw [shade, hd] at hshade
    exact UInt8.toNat_inj.mp hshade
  simp only [Color.channels, List.forall_mem_cons] at hchannel
  obtain ⟨hred, hgreen, hblue, halpha, -⟩ := hchannel
  obtain ⟨red, green, blue, alpha⟩ := d
  dsimp only at hred hgreen hblue halpha
  rw [hd, hred, hgreen, hblue, halpha]

/-- What `reduce` makes is a raster of the averages, in the sense of `Averages`. -/
theorem averages_reduce (hfactor : 2 ≤ factor)
    (hareas : ∀ b, 255 * (r.places factor b).card + (r.places factor b).card / 2 < UInt32.size) :
    r.Averages factor (r.reduce factor) := by
  have hpos : 0 < factor := by omega
  exact
    { width_eq := (r.sides_reduce hpos).1
      height_eq := (r.sides_reduce hpos).2
      mean_eq := by
        intro b hb channel hchannel
        rw [shade_reduce hfactor hb hchannel, ← round_div _ (nonempty_places hpos hb).card_pos,
          Nat.cast_sum]
      block_unique := by
        intro p hp
        -- the block of a place is where the division of its coordinates leads
        have hmem : p ∈ r.places factor (p.1 / factor, p.2 / factor) := mem_places.mpr ⟨hp, rfl⟩
        exact ⟨_, ⟨holds_reduce_of_mem hpos hmem, hmem⟩, fun b hb => (mem_places.mp hb.2).2.symm⟩
      nonempty := fun b hb => nonempty_places hpos hb
      sum_lt := by
        intro b channel _
        have hsum := Machine.channelSum_le channel (r.block factor b.1 b.2)
        rw [← sum_shade hpos, ← card_places hpos] at hsum
        have harea := hareas b
        omega
      between := fun b hb channel hchannel => between_reduce hfactor hb hchannel
      uniform := fun b hb c hc => pixel?_reduce_of_forall hfactor hb hc
      solid := fun b hb h => shade_reduce_of_forall hfactor hb (by simp [Color.channels]) h }

/-- Brighter pixels have brighter averages: `reduce` is monotone in the `shade` of every place. -/
theorem shade_reduce_le (hfactor : 2 ≤ factor) (hsize : s.SameSize r)
    (h : ∀ p, ∀ channel ∈ Color.channels, r.shade channel p ≤ s.shade channel p) (b : Nat × Nat) :
    ∀ channel ∈ Color.channels,
      (r.reduce factor).shade channel b ≤ (s.reduce factor).shade channel b := by
  intro channel hchannel
  have hpos : 0 < factor := by omega
  -- both rasters have the same blocks, with the same places in them
  have hholds : (s.reduce factor).Holds b ↔ (r.reduce factor).Holds b := by
    rw [holds_reduce_iff hpos, holds_reduce_iff hpos, Holds, hsize.1, hsize.2, Holds]
  have hplaces : s.places factor b = r.places factor b := by
    rw [places, places, hsize.1, hsize.2]
  by_cases hb : (r.reduce factor).Holds b
  · rw [shade_reduce hfactor hb hchannel, shade_reduce hfactor (hholds.mpr hb) hchannel, hplaces]
    have hsum : ∑ p ∈ r.places factor b, r.shade channel p
        ≤ ∑ p ∈ r.places factor b, s.shade channel p :=
      Finset.sum_le_sum fun p _ => h p channel hchannel
    exact Nat.div_le_div_right (Nat.add_le_add_right hsum _)
  · -- off the smaller raster there is no value
    have hnone : (r.reduce factor).pixel? b.1 b.2 = none := by
      rw [← Option.not_isSome_iff_eq_none, isSome_pixel?_iff]
      exact hb
    rw [shade, hnone]
    exact Nat.zero_le _

/-- **A reduced raster shows the averages of blocks.** Let the `places` of each block be so few that
    their sums can be counted in four bytes. Then `reduce` makes a raster of the averages: every
    pixel is the rounded mean of the one block it stands for, between the least and the largest
    value there. A raster that is nowhere darker has averages that are nowhere darker. If a machine
    has room for the raster and can count to the end of its blocks, `Machine.Flat.reduce` comes to
    the same bytes without a failure. -/
theorem reduce_averages (hfactor : 2 ≤ factor)
    (hareas : ∀ b, 255 * (r.places factor b).card + (r.places factor b).card / 2 < UInt32.size) :
    r.Averages factor (r.reduce factor)
      ∧ (∀ s : Raster, s.SameSize r →
        (∀ p, ∀ channel ∈ Color.channels, r.shade channel p ≤ s.shade channel p) →
          ∀ b, ∀ channel ∈ Color.channels,
            (r.reduce factor).shade channel b ≤ (s.reduce factor).shade channel b)
      ∧ (r.Countable → r.width * r.height * 4 < 2 ^ 63 → factor < UInt64.size →
        (r.width = 0 → blocks r.height factor * factor < UInt64.size) →
          (Machine.Flat.of r).reduce factor = some (.of (r.reduce factor))) :=
  ⟨averages_reduce hfactor hareas, fun _ hsize h => shade_reduce_le hfactor hsize h,
    fun hr hroom hword hend =>
      Machine.Flat.reduce_of hr hroom hword hend ((summable_iff (by omega)).mpr hareas)⟩

/-- A case of `reduce_averages` on a raster of 5 by 3 pixels in blocks of 2: the last block of the
    first row is one column wide, and half of an odd sum goes up. -/
theorem averages_of_ragged_raster :
    let r := generate 5 3 fun x y => ⟨UInt8.ofNat (40 * x), UInt8.ofNat (75 * y), 7, 255⟩
    (∀ b, 255 * (r.places 2 b).card + (r.places 2 b).card / 2 < UInt32.size)
      ∧ r.Averages 2 (r.reduce 2) ∧ (r.reduce 2).pixel? 2 0 = some ⟨160, 38, 7, 255⟩
      ∧ (Machine.Flat.of r).reduce 2 = some (.of (r.reduce 2)) := by
  intro r
  have hareas : ∀ b, 255 * (r.places 2 b).card + (r.places 2 b).card / 2 < UInt32.size :=
    (summable_iff (by decide)).mp (by unfold Machine.Flat.Summable; decide)
  obtain ⟨haverages, -, hmachine⟩ := reduce_averages (by decide) hareas
  exact ⟨hareas, haverages, by decide +kernel,
    hmachine ⟨by decide, by decide, by decide⟩ (by decide) (by decide) (by decide)⟩

end Raster

end TextArt
