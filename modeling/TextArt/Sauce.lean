import TextArt.Command.Parameters

namespace TextArt

/-!
# SAUCE records — who drew the art, and for which screen

A record is 128 bytes at the very end of a file.  The byte before them may end a block
of comments, which is a mark and 64 bytes for every comment line.

* `Sauce` — the contents of a record, with its comments;
* `Sauce.ofBytes?` — the record at the end of a file, if there is one;
* `Sauce.trailerLength` — the bytes that a record takes up at the end of its file.
-/

/-- The contents of a record, as `Sauce.ofBytes?` finds them at the end of a file. -/
structure Sauce where
  version : String
  title : String
  author : String
  group : String
  /-- Century, year, month and day in eight digits, in a field that `text` reads. -/
  date : String
  fileSize : Nat
  dataType : Nat
  fileType : Nat
  /-- For characters, the width of the screen, in `columns`. -/
  tinfo1 : Nat
  /-- For characters, the height of the screen, of which nothing is made. -/
  tinfo2 : Nat
  tinfo3 : Nat
  tinfo4 : Nat
  comments : List String
  flags : Nat
  /-- The name of a font, in a field that is `zeroEnded`. -/
  tinfoS : String
  deriving DecidableEq, Inhabited, Repr

namespace Sauce

/-- The bytes of a record, which begins with the `recordMark`. -/
def recordLength : Nat := 128

/-- The bytes of a comment line, of which there are as many as the record says. -/
def lineLength : Nat := 64

/-- The mark that a record of `recordLength` bytes begins with. -/
def recordMark : Bytes := [0x53, 0x41, 0x55, 0x43, 0x45]

/-- The mark that a block of comments begins with, each of them `lineLength` bytes. -/
def commentMark : Bytes := [0x43, 0x4F, 0x4D, 0x4E, 0x54]

/-- Bright backgrounds in place of blinking: the lowest of the `flags`. -/
def iceColors (s : Sauce) : Bool := s.flags % 2 = 1

/-- The two `flags` for the width of a cell. -/
def letterSpacing (s : Sauce) : Nat := s.flags / 2 % 4

/-- The two `flags` for the shape of a pixel. -/
def aspectRatio (s : Sauce) : Nat := s.flags / 8 % 4

/-- The declared width of the screen, by `tinfo1`; zero declares none. -/
def columns (s : Sauce) : Option Nat :=
  if 0 < s.tinfo1 then some s.tinfo1 else none

/-- The bytes at the end of the file that are not art: the record of `recordLength` bytes, and the
    block of `comments` if there are any. -/
def trailerLength (s : Sauce) : Nat :=
  if s.comments.isEmpty then recordLength
  else recordLength + commentMark.length + s.comments.length * lineLength

/-! ### Reading a record -/

/-- Whether a byte is padding when it stands at the end of a field, where `trimEnd` takes it off. -/
def isPadding (b : UInt8) : Bool := b = 0x20 || b = 0x00

/-- Bytes without those at their end that are `isPadding`. -/
def trimEnd (bytes : Bytes) : Bytes :=
  (bytes.reverse.dropWhile isPadding).reverse

/-- The text of a padded field, after `trimEnd`; every byte is the character of its number. -/
def text (bytes : Bytes) : String :=
  String.ofList ((trimEnd bytes).map fun b => Char.ofNat b.toNat)

/-- The text of a field that a zero byte may end early, before `trimEnd`. -/
def zeroEnded (bytes : Bytes) : String :=
  text (bytes.takeWhile (· ≠ 0))

/-- A number with its lowest byte first, as in `tinfo1`. -/
def littleEndian (bytes : Bytes) : Nat :=
  bytes.foldr (fun b n => b.toNat + 256 * n) 0

/-- The `n` bytes of a record from place `start` on. -/
def slice (record : Bytes) (start n : Nat) : Bytes :=
  (record.drop start).take n

/-- The first `count` lines of a block of comments. -/
def lines : Nat → Bytes → List Bytes
  | 0, _ => []
  | count + 1, block => block.take lineLength :: lines count (block.drop lineLength)

@[simp] theorem length_lines (count : Nat) (block : Bytes) :
    (lines count block).length = count := by
  induction count generalizing block with
  | zero => rfl
  | succ count ih => simp [lines, ih]

/-- The comments before a record that announces `count` lines of them, or none if
    there is no such block. -/
def readComments (before : Bytes) (count : Nat) : List String :=
  let size := commentMark.length + count * lineLength
  let block := before.drop (before.length - size)
  -- without the mark there are no comments, whatever the record announces
  if size ≤ before.length ∧ block.take commentMark.length = commentMark then
    (lines count (block.drop commentMark.length)).map text
  else []

/-- Read the fields of a record that stands after `before`. -/
def ofRecord (before record : Bytes) : Sauce where
  version := text (slice record 5 2)
  title := text (slice record 7 35)
  author := text (slice record 42 20)
  group := text (slice record 62 20)
  date := text (slice record 82 8)
  fileSize := littleEndian (slice record 90 4)
  dataType := littleEndian (slice record 94 1)
  fileType := littleEndian (slice record 95 1)
  tinfo1 := littleEndian (slice record 96 2)
  tinfo2 := littleEndian (slice record 98 2)
  tinfo3 := littleEndian (slice record 100 2)
  tinfo4 := littleEndian (slice record 102 2)
  comments := readComments before (littleEndian (slice record 104 1))
  flags := littleEndian (slice record 105 1)
  tinfoS := zeroEnded (slice record 106 22)

/-- The record at the end of a file, which begins with the `recordMark` and has `recordLength`
    bytes. -/
def ofBytes? (bytes : Bytes) : Option Sauce :=
  let before := bytes.take (bytes.length - recordLength)
  let record := bytes.drop (bytes.length - recordLength)
  if recordLength ≤ bytes.length ∧ record.take recordMark.length = recordMark then
    some (ofRecord before record)
  else none

/-- A file shorter than `recordLength` has no record. -/
theorem ofBytes?_of_short {bytes : Bytes} (h : bytes.length < recordLength) :
    ofBytes? bytes = none := by
  simp only [ofBytes?]
  rw [if_neg]
  omega

end Sauce

end TextArt
