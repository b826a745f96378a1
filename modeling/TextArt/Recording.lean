import TextArt.Image
import TextArt.Player

namespace TextArt

/-!
# Recordings — the frames of a run

* `Recording` — images, each of them shown for the same time;
* `Recording.push` — one more image, which `fromRaw` makes of a raster;
* `Recording.ofPlayer` — a run taken down once in every phase of the blink until its
  bytes are used up, and one frame longer, so that both phases are seen.
-/

/-- The `frames` and the milliseconds that each of them is shown, its `delay`. -/
structure Recording (Image : Type) where
  delay : Nat
  frames : Array Image

namespace Recording

section

variable {Image : Type}

/-- A recording without `frames`. -/
def empty (delay : Nat) : Recording Image := ⟨delay, #[]⟩

/-- The number of `frames`. -/
def length (r : Recording Image) : Nat := r.frames.size

variable (fromRaw : Nat → Nat → ByteArray → Option Image)

/-- Add the `Raster.image` of a frame to the `frames`. -/
def push (r : Recording Image) (frame : Raster) : Except SaveError (Recording Image) := do
  let image ← frame.image fromRaw
  return { r with frames := r.frames.push image }

/-- Add up to some number of frames of a run; `ended` says that the bytes of the run
    were used up before the last frame. -/
def follow : Nat → Bool → Recording Image → Player → Except SaveError (Recording Image × Player)
  | 0, _, r, p => .ok (r, p)
  | n + 1, ended, r, p => do
    let (frame, p) := (p.advance blinkPeriod).frame
    let r ← r.push fromRaw frame
    if ended then .ok (r, p) else follow n (!p.isPlaying) r p

/-- The milliseconds in a `blinkPeriod`. -/
def blinkDelay : Nat := blinkPeriod / 1000000

/-- The frames of a run, at most `limit` of them, and the player after the last. -/
def ofPlayer (p : Player) (limit : Nat) : Except SaveError (Recording Image × Player) :=
  follow fromRaw limit false (empty blinkDelay) p

end

/-- The largest number of `centiseconds` that a file can say. -/
def longestDelay : Nat := UInt16.size - 1

/-- The whole centiseconds that each frame is shown, of the milliseconds in `delay`. -/
def centiseconds {Image : Type} (r : Recording Image) : Nat :=
  min (r.delay / 10) longestDelay

end Recording

end TextArt
