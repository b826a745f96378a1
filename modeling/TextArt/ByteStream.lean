import TextArt.Sauce

namespace TextArt

/-!
# Byte streams — art read from its beginning

* `ByteStream` — the bytes of some art and those of them that are still to come;
* `ByteStream.ofFile` — the art of a file: what is left when the record at its end,
  and one end mark before the record, are taken away;
* `get?`, `peek?`, `read`, `seek` — the ways to go through it.
-/

/-- Art being read: `rest` is what there is still to read of `art`. -/
structure ByteStream where
  /-- All bytes of the art, which `ofFile` cuts out of a file. -/
  art : Bytes
  /-- The bytes not yet read, which are a suffix of the `art`. -/
  rest : Bytes
  /-- The record of the file that the `art` comes from. -/
  record : Option Sauce
  rest_suffix : rest <:+ art
  deriving DecidableEq

namespace ByteStream

/-- The byte that conventionally ends a text, which `dropEndMark` takes off. -/
def endMark : UInt8 := 0x1A

/-- Bytes without an `endMark` at their end; of several marks only the last goes. -/
def dropEndMark (bytes : Bytes) : Bytes :=
  if bytes.getLast? = some endMark then bytes.dropLast else bytes

/-- The bytes of a file that are art: all but the trailer, of `Sauce.trailerLength` bytes, and one
    `endMark`. -/
def artOf (bytes : Bytes) : Option Sauce → Bytes
  | none => bytes
  | some record => dropEndMark (bytes.take (bytes.length - record.trailerLength))

/-- The art of a file, as `artOf` cuts it, to be read from its beginning. -/
def ofFile (bytes : Bytes) : ByteStream where
  art := artOf bytes (Sauce.ofBytes? bytes)
  rest := artOf bytes (Sauce.ofBytes? bytes)
  record := Sauce.ofBytes? bytes
  rest_suffix := List.suffix_refl _

/-- A file without a record is art as a whole, so that `ofFile` leaves all of it to read. -/
theorem rest_ofFile_of_none {file : Bytes} (h : Sauce.ofBytes? file = none) :
    (ofFile file).rest = file := by
  show artOf file (Sauce.ofBytes? file) = file
  rw [h]
  rfl

/-- The number of bytes of the `art`. -/
def length (s : ByteStream) : Nat := s.art.length

/-- The number of bytes read, which are those of the `art` without its `rest`. -/
def position (s : ByteStream) : Nat := s.art.length - s.rest.length

/-- Whether there is no `art`. -/
def isEmpty (s : ByteStream) : Bool := s.art.isEmpty

/-- Whether the `rest` is empty. -/
def atEnd (s : ByteStream) : Bool := s.rest.isEmpty

/-- The first byte of the `rest`, which stays there. -/
def peek? (s : ByteStream) : Option UInt8 := s.rest.head?

/-- Go on to a later place of the stream, given by what is then the `rest`. -/
def toRest (s : ByteStream) (rest : Bytes) (h : rest <:+ s.rest) : ByteStream :=
  { s with rest, rest_suffix := h.trans s.rest_suffix }

/-- Take the first byte off the `rest`. -/
def get? (s : ByteStream) : Option UInt8 × ByteStream :=
  (s.peek?, s.toRest s.rest.tail (List.tail_suffix _))

/-- Take up to `n` bytes. -/
def read (s : ByteStream) (n : Nat) : Bytes × ByteStream :=
  (s.rest.take n, s.toRest (s.rest.drop n) (List.drop_suffix _ _))

/-- Go to a place of the `art`, or to its end if there is no such place. -/
def seek (s : ByteStream) (position : Nat) : ByteStream :=
  { s with rest := s.art.drop position, rest_suffix := List.drop_suffix _ _ }

@[simp] theorem rest_seek (s : ByteStream) (position : Nat) :
    (s.seek position).rest = s.art.drop position := rfl

@[simp] theorem art_seek (s : ByteStream) (position : Nat) : (s.seek position).art = s.art := rfl

/-- A place to which `seek` goes is the `position` then, up to the end of the art. -/
theorem position_seek (s : ByteStream) (position : Nat) :
    (s.seek position).position = min position s.length := by
  simp only [ByteStream.position, length, art_seek, rest_seek, List.length_drop]
  omega

/-- The bytes that `read` gives are the ones before the `rest` that it leaves. -/
theorem append_read (s : ByteStream) (n : Nat) : (s.read n).1 ++ (s.read n).2.rest = s.rest := by
  simp [read, toRest]

end ByteStream

end TextArt
