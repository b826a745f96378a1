import TextArt.Codecs
import TextArt.Format.Gif
import TextArt.Format.Png
import TextArt.Toml.Settings

namespace TextArt.Format

/-!
# The codecs at hand

* `codecs` — documents in `Toml`, and bitmaps in files of the two formats;
* `reliable_codecs` — they are what a program relies on.
-/

/-- The largest side that a file of frames can say, in the two bytes that `Gif.head` has for it. -/
def largestFrameSide : Nat := UInt16.size - 1

/-- Settings by `Toml.settings?`, and images by `Bitmap.ofRaw?`.  The file of a picture must not be
    without pixels, and that of an animation must be able to say the sides of its frames. -/
def codecs : Codecs Bitmap where
  settings := Toml.settings?
  fromRaw := Bitmap.ofRaw?
  pictureRefusal b :=
    if b.width = 0 then some "Zero width not allowed"
    else if b.height = 0 then some "Zero height not allowed"
    else none
  animationRefusal r :=
    if r.frames.all fun b => b.width ≤ largestFrameSide && b.height ≤ largestFrameSide then none
    else some "The Image's dimensions are either too small or too large"

/-- What `codecs` makes has the sides that `Codecs.Makes` speaks of. -/
theorem sides_of_makes {b : Bitmap} (h : codecs.Makes b) :
    (1 ≤ b.width ∧ b.width ≤ largestFrameSide) ∧ 1 ≤ b.height ∧ b.height ≤ largestFrameSide := by
  obtain ⟨width, height, rgba, hraw, hwidth, hheight⟩ := h
  obtain ⟨rfl, rfl⟩ := Bitmap.sides_of_ofRaw? hraw
  exact ⟨hwidth, hheight⟩

/-- The `codecs` take every buffer that is long enough, and encode everything of common sides. -/
theorem reliable_codecs : codecs.Reliable where
  takes width height rgba h := by
    show (Bitmap.ofRaw? width height rgba).isSome = true
    rw [Bitmap.ofRaw?_eq h, Option.isSome_some]
  encodes_picture b hb := by
    obtain ⟨⟨hwidth, -⟩, hheight, -⟩ := sides_of_makes hb
    exact (if_neg (Nat.ne_of_gt hwidth)).trans (if_neg (Nat.ne_of_gt hheight))
  encodes_animation r hr := by
    refine if_pos (Array.all_eq_true_iff_forall_mem.mpr fun b hb => ?_)
    obtain ⟨⟨-, hwidth⟩, -, hheight⟩ := sides_of_makes (hr b hb)
    rw [decide_eq_true hwidth, decide_eq_true hheight, Bool.and_true]

end TextArt.Format
