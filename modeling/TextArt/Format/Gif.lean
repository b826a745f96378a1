import TextArt.Format.Bitmap
import TextArt.Format.Checksum
import TextArt.Recording

namespace TextArt

/-!
# GIF — recordings in files

A file is a head and the frames, each with a table of its own colours and with the
places of its pixels in that table.  The frames start again after the last one.

* `Format.Gif.table` — the colours of a frame in the order in which they come;
* `Format.Gif.index` — the place of a colour in a table, or that of the nearest one;
* `Format.Gif.codes` — places as codes of nine bits, which the reader is told to forget
  so often that he never needs a tenth;
* `Recording.toGif` — the file of a recording.
-/

namespace Format.Gif

/-! ### Colours -/

/-- The colours that a `table` has room for. -/
def tableSize : Nat := 256

/-- A table with one more colour `c`, if it is new and there is room for it within `tableSize`. -/
def addColor (table : Array Color) (c : Color) : Array Color :=
  if table.contains c || tableSize ≤ table.size then table else table.push c

/-- The first colours of a frame, as many as `addColor` has room for. -/
def table (frame : List Color) : Array Color :=
  frame.foldl addColor #[]

/-- A table never outgrows its room, as `addColor` minds `tableSize`. -/
theorem size_addColor {table : Array Color} (h : table.size ≤ tableSize) (c : Color) :
    (addColor table c).size ≤ tableSize := by
  unfold addColor
  split
  · exact h
  · next hc =>
    simp only [Bool.or_eq_true, decide_eq_true_eq, not_or] at hc
    simp only [Array.size_push]
    omega

/-- The distance between two numbers, of which `distance` adds up three. -/
def gap (a b : UInt8) : Nat := max a.toNat b.toNat - min a.toNat b.toNat

/-- The distance between two colours: one `gap` for each channel but alpha. -/
def distance (a b : Color) : Nat :=
  gap a.red b.red + gap a.green b.green + gap a.blue b.blue

/-- The place in a table of the first of the colours that have the least `distance` from `c`. -/
def nearest (table : Array Color) (c : Color) : Nat :=
  ((List.range table.size).foldl (fun (best : Nat × Nat) i =>
    let d := distance c (table.getD i default)
    if d < best.2 then (i, d) else best) (0, 3 * 256)).1

/-- The place of a colour in a table, or that of the `nearest` one. -/
def index (table : Array Color) (c : Color) : Nat :=
  (table.findIdx? (· = c)).getD (nearest table c)

/-- A table in bytes, filled up with black to `tableSize` colours. -/
def tableBytes (table : Array Color) : ByteArray :=
  (List.range tableSize).foldl (fun out i =>
    let c := table.getD i default
    ((out.push c.red).push c.green).push c.blue) .empty

/-! ### Codes -/

/-- Bits on their way into the bytes of `out`, the lowest first. -/
structure Packed where
  out : ByteArray := .empty
  /-- The bits that do not fill a byte yet, as a number of `count` bits. -/
  held : Nat := 0
  /-- How many bits are `held`. -/
  count : Nat := 0

/-- Move the lowest eight bits into a byte of `out` if there are so many. -/
def Packed.flush (b : Packed) : Packed :=
  if 8 ≤ b.count then
    { out := b.out.push (UInt8.ofNat b.held), held := b.held / 256, count := b.count - 8 }
  else b

/-- The bits of a code, which are enough for `forget`, `ending` and all places. -/
def codeLength : Nat := 9

/-- Add a code of `codeLength` bits. -/
def Packed.push (b : Packed) (code : Nat) : Packed :=
  let { out, held, count } := b
  let b : Packed := { out, held := held + code <<< count, count := count + codeLength }
  b.flush.flush

/-- All bits in bytes, of which the last is filled up with zeros if bits are `held`. -/
def Packed.finish (b : Packed) : ByteArray :=
  if b.count = 0 then b.out else b.out.push (UInt8.ofNat b.held)

/-- The code that makes the reader forget what he has seen, after every `stretch`. -/
def forget : Nat := 256

/-- The code after the last place, which ends the `codes`. -/
def ending : Nat := 257

/-- The places between two codes that make the reader `forget`. -/
def stretch : Nat := 254

/-- Places as codes of `codeLength` bits, among them `forget` and at last `ending`. -/
def codes (places : Array Nat) : ByteArray :=
  let (bits, _) := places.foldl (fun (bits, n) place =>
    if n = 0 then ((bits.push forget).push place, stretch - 1) else (bits.push place, n - 1))
    (({} : Packed), 0)
  (bits.push ending).finish

/-! ### Blocks -/

/-- The most bytes that one of the `blocks` has. -/
def blockLimit : Nat := 255

/-- The bytes from `start` on in blocks, each after its length, and the empty block that
    ends them; `n` is at least the number of blocks. -/
def blocks (bytes : ByteArray) (start : Nat) : Nat → ByteArray → ByteArray
  | 0, out => out.push 0
  | n + 1, out =>
    if bytes.size ≤ start then out.push 0
    else
      let block := bytes.extract start (start + blockLimit)
      blocks bytes (start + blockLimit) n (out.push (UInt8.ofNat block.size) ++ block)

/-- The head of a file: its mark, its `width` and `height`, and that its frames start again. -/
def head (width height : Nat) : ByteArray :=
  "GIF89a".toUTF8
    ++ (littleEndian 2 width ++ littleEndian 2 height ++ [0x70, 0, 0]).toByteArray
    ++ [0x21, 0xFF, 11].toByteArray ++ "NETSCAPE2.0".toUTF8 ++ [3, 1, 0, 0, 0].toByteArray

/-- One frame: its `delay`, its size, its colours in a `table` and its pixels in `codes`. -/
def frame (delay : Nat) (b : Bitmap) : ByteArray :=
  let pixels := b.colors
  -- every pixel becomes its place in the table
  let colors := table pixels
  let places := pixels.foldl (fun (out : Array Nat) c => out.push (index colors c)) #[]
  let bytes := codes places
  ([0x21, 0xF9, 4, 4] ++ littleEndian 2 delay ++ [0, 0]).toByteArray
    ++ (0x2C :: (littleEndian 2 0 ++ littleEndian 2 0 ++ littleEndian 2 b.width
      ++ littleEndian 2 b.height ++ [0x87])).toByteArray
    ++ tableBytes colors
    ++ blocks bytes 0 (bytes.size / blockLimit + 1) [8].toByteArray

end Format.Gif

open Format.Gif in
/-- The file of a recording, a `head` and every `frame`, which is empty if there are no frames. -/
def Recording.toGif (r : Recording Format.Bitmap) : ByteArray :=
  match r.frames[0]? with
  | none => .empty
  | some first =>
    (r.frames.foldl (fun out f => out ++ frame r.centiseconds f)
      (head first.width first.height)).push 0x3B

/-- A recording without frames, as `Recording.empty` is, makes an empty file. -/
@[simp] theorem Recording.toGif_empty (delay : Nat) : (empty delay).toGif = .empty := rfl

end TextArt
