import TextArt.Format.Bitmap
import TextArt.Format.Checksum

namespace TextArt

/-!
# PNG — bitmaps in files

A file is a mark and three chunks: the size, the pixels and the end.  The pixels stand
in blocks that are stored as they are, each row of them after a zero that says so.

* `Format.Png.chunk` — a chunk: its length, its name, its bytes and their remainder;
* `Format.Png.blocks` — bytes in stored blocks;
* `Bitmap.toPng` — the file of a bitmap.
-/

namespace Format.Png

/-- The mark at the beginning of a file, before the first `chunk`. -/
def mark : List UInt8 := [0x89, 0x50, 0x4E, 0x47, 0x0D, 0x0A, 0x1A, 0x0A]

/-- A chunk with its length before it.  The remainder `crc` covers its name and its `body`. -/
def chunk (name : String) (body : ByteArray) : ByteArray :=
  let named := name.toUTF8 ++ body
  (bigEndian 4 body.size).toByteArray ++ named ++ (bigEndian 4 (crc named).toNat).toByteArray

/-- The most bytes that a stored `block` has. -/
def blockLimit : Nat := UInt16.size - 1

/-- One stored block, with its length twice, the second time as what is missing to `blockLimit`; the
    `last` one says so. -/
def block (last : Bool) (bytes : ByteArray) : ByteArray :=
  ((if last then 1 else 0) :: (littleEndian 2 bytes.size
    ++ littleEndian 2 (blockLimit - bytes.size))).toByteArray ++ bytes

/-- The bytes from `start` on in stored blocks, given a number that is at least that of
    the blocks before the last one. -/
def blocks (bytes : ByteArray) (start : Nat) : Nat → ByteArray → ByteArray
  | 0, out => out ++ block true (bytes.extract start bytes.size)
  | n + 1, out =>
    if bytes.size - start ≤ blockLimit then out ++ block true (bytes.extract start bytes.size)
    else
      blocks bytes (start + blockLimit) n
        (out ++ block false (bytes.extract start (start + blockLimit)))

/-- Bytes as a stream that is said to be compressed: a mark, the `blocks`, and the `twoSums` of the
    bytes. -/
def stream (bytes : ByteArray) : ByteArray :=
  blocks bytes 0 (bytes.size / blockLimit) [0x78, 0x01].toByteArray
    ++ (bigEndian 4 (twoSums bytes)).toByteArray

/-- The first `n` rows of some pixels, each after a zero. -/
def rows (rgba : ByteArray) (rowLength : Nat) : Nat → ByteArray
  | 0 => .empty
  | n + 1 => (rows rgba rowLength n).push 0 ++ rgba.extract (n * rowLength) ((n + 1) * rowLength)

/-- The bytes of the size chunk: `width` and `height`, and that a pixel has four channels of eight
    bits. -/
def header (width height : Nat) : List UInt8 :=
  bigEndian 4 width ++ bigEndian 4 height ++ [8, 6, 0, 0, 0]

/-- The size chunk has thirteen bytes: four for each side in `header`, and five. -/
theorem length_header (width height : Nat) : (header width height).length = 13 := by
  simp [header]

end Format.Png

open Format.Png in
/-- The file of a bitmap: `mark`, and one `chunk` for its size, its `rows` and the end each. -/
def Format.Bitmap.toPng (b : Bitmap) : ByteArray :=
  mark.toByteArray
    ++ chunk "IHDR" (header b.width b.height).toByteArray
    ++ chunk "IDAT" (stream (rows b.rgba (b.width * 4) b.height))
    ++ chunk "IEND" .empty

end TextArt
