import TextArt.Format.Checksum
import TextArt.Proofs.Bookmarks
import TextArt.Proofs.Trailers
import Mathlib.Algebra.GroupWithZero.Nat

namespace TextArt

/-!
# Imprints — a record is read as it was written

Who signs art fills in the fields of a record.  A text is written with blanks after it, up to the
width of its field, a number with its lowest byte first, and comments in lines of their own.

* `latin`, `latin_inj` — bytes as characters, in which nothing of them is lost;
* `PaddedField`, `EndedField` — texts with what fills up their fields;
* `Imprint` — the contents of all fields; `Imprint.record`, `Imprint.trailer` are what is written;
* `Imprint.sauce` — what was meant, and `Imprint.sauce_trailer` says that it is what is read;
* `Imprint.signed_art_is_read_back` — a signed file has its record and its art back, and every
  file is divided into art and trailer without a gap.
-/

/-! ### Fields -/

/-- The characters of some bytes, each byte being the character of its number. -/
def latin (bytes : Bytes) : String :=
  String.ofList (bytes.map fun b => Char.ofNat b.toNat)

/-- The bytes of a text are known from its characters, as `latin` is injective. -/
theorem latin_inj {bytes bytes' : Bytes} : latin bytes = latin bytes' ↔ bytes = bytes' := by
  unfold latin
  rw [String.ofList_inj]
  refine List.map_inj_right fun b b' h => ?_
  rw [← UInt8.toNat_inj, ← toNat_ofNat_toNat b, ← toNat_ofNat_toNat b', h]

/-- A text in a field of some `width`, which blanks fill up. -/
structure PaddedField (width : Nat) where
  content : Bytes
  padding : Bytes
  length_eq : content.length + padding.length = width
  /-- The text itself does not end in a byte that `Sauce.isPadding` takes for a blank. -/
  content_ends : ∀ b ∈ content.getLast?, Sauce.isPadding b = false
  padding_blank : ∀ b ∈ padding, Sauce.isPadding b = true

namespace PaddedField

variable {width : Nat} (field : PaddedField width)

/-- A field as it is written, its `content` before its padding. -/
def bytes : Bytes :=
  field.content ++ field.padding

theorem length_bytes : field.bytes.length = width := by
  rw [bytes, List.length_append, field.length_eq]

/-- A field of `width` blanks, without a text. -/
instance : Inhabited (PaddedField width) where
  default :=
    { content := []
      padding := List.replicate width 0x20
      length_eq := by simp
      content_ends := by simp
      padding_blank := fun b hb => by rw [List.eq_of_mem_replicate hb]; rfl }

end PaddedField

/-- A text in a field of some `width`: it fills the field, or a zero byte ends it early and anything
    may come after that. -/
structure EndedField (width : Nat) where
  content : Bytes
  /-- What comes after the text. -/
  left : Bytes
  length_eq : content.length + left.length = width
  content_nonzero : ∀ b ∈ content, b ≠ 0
  /-- The text itself does not end in a space. -/
  content_ends : ∀ b ∈ content.getLast?, b ≠ 0x20
  left_begins : ∀ b ∈ left.head?, b = 0

namespace EndedField

variable {width : Nat} (field : EndedField width)

/-- A field as it is written, its `content` before what is `left`. -/
def bytes : Bytes :=
  field.content ++ field.left

theorem length_bytes : field.bytes.length = width := by
  rw [bytes, List.length_append, field.length_eq]

/-- A field of `width` bytes without a text. -/
instance : Inhabited (EndedField width) where
  default :=
    { content := []
      left := List.replicate width 0
      length_eq := by simp
      content_nonzero := by simp
      content_ends := by simp
      left_begins := fun _ hb => List.eq_of_mem_replicate (List.mem_of_head? hb) }

end EndedField

namespace Sauce

/-- Blanks after a text that does not end in one are padding, and `trimEnd` finds no other. -/
theorem trimEnd_append {content padding : Bytes}
    (hcontent : ∀ b ∈ content.getLast?, isPadding b = false)
    (hpadding : ∀ b ∈ padding, isPadding b = true) : trimEnd (content ++ padding) = content := by
  have hreverse : ∀ b ∈ padding.reverse, isPadding b = true := fun b hb =>
    hpadding b (List.mem_reverse.mp hb)
  have hkept : content.reverse.dropWhile isPadding = content.reverse := by
    cases hlast : content.reverse with
    | nil => rfl
    | cons b rest =>
      have hb : isPadding b = false := by
        refine hcontent b ?_
        rw [← List.head?_reverse, hlast]
        rfl
      rw [List.dropWhile_cons_of_neg (by simp [hb])]
  unfold trimEnd
  rw [List.reverse_append, List.dropWhile_append_of_pos hreverse, hkept, List.reverse_reverse]

theorem text_bytes {width : Nat} (field : PaddedField width) :
    text field.bytes = latin field.content := by
  rw [text, PaddedField.bytes, trimEnd_append field.content_ends field.padding_blank]
  rfl

theorem zeroEnded_bytes {width : Nat} (field : EndedField width) :
    zeroEnded field.bytes = latin field.content := by
  have hwhile : field.bytes.takeWhile (· ≠ 0) = field.content := by
    have hcontent : ∀ b ∈ field.content, decide (b ≠ 0) = true := fun b hb =>
      decide_eq_true (field.content_nonzero b hb)
    rw [EndedField.bytes, List.takeWhile_append_of_pos hcontent]
    cases hleft : field.left with
    | nil => exact List.append_nil _
    | cons b rest =>
      have hzero : b = 0 := field.left_begins b (by rw [hleft]; rfl)
      rw [hzero, List.takeWhile_cons_of_neg (by decide), List.append_nil]
  -- a text without zero bytes and without a space at its end does not end in padding
  have hends : ∀ b ∈ field.content.getLast?, isPadding b = false := by
    intro b hb
    have hnonzero := field.content_nonzero b (List.mem_of_getLast? hb)
    have hspace := field.content_ends b hb
    simp [isPadding, hnonzero, hspace]
  have hblank : ∀ b ∈ ([] : Bytes), isPadding b = true := by simp
  have htrim := trimEnd_append hends hblank
  rw [List.append_nil] at htrim
  rw [zeroEnded, hwhile, text, htrim]
  rfl

/-- A number that fits into `n` bytes is read as it was written by `Format.littleEndian`. -/
theorem littleEndian_littleEndian {n value : Nat} (h : value < 256 ^ n) :
    littleEndian (Format.littleEndian n value) = value := by
  induction n generalizing value with
  | zero =>
    have hzero : value = 0 := by simpa using h
    rw [hzero]
    rfl
  | succ n ih =>
    have hrest : value / 256 < 256 ^ n := by
      rw [Nat.div_lt_iff_lt_mul (by decide), ← Nat.pow_succ]
      exact h
    show (UInt8.ofNat value).toNat + 256 * littleEndian (Format.littleEndian n (value / 256))
      = value
    rw [ih hrest, UInt8.toNat_ofNat']
    omega

/-- The parts that bytes are put together from are found by `slice` where they were put. -/
theorem slice_flatten {parts : List Bytes} {i : Nat} {part : Bytes} (h : parts[i]? = some part) :
    slice parts.flatten ((parts.map List.length).take i).sum part.length = part := by
  induction parts generalizing i with
  | nil => cases h
  | cons first parts ih =>
    cases i with
    | zero =>
      obtain rfl := Option.some.inj h
      show List.take first.length (List.drop 0 (first ++ parts.flatten)) = first
      rw [List.drop_zero, List.take_left]
    | succ i =>
      have hpart := ih h
      rw [List.map_cons, List.take_succ_cons, List.sum_cons, List.flatten_cons, slice,
        ← List.drop_drop, List.drop_left]
      exact hpart

/-! ### Flags -/

section

variable (s : Sauce)

theorem iceColors_eq_testBit : s.iceColors = s.flags.testBit 0 :=
  (Nat.testBit_zero _).symm

theorem letterSpacing_eq_testBit :
    s.letterSpacing = (s.flags.testBit 1).toNat + 2 * (s.flags.testBit 2).toNat := by
  rw [letterSpacing, Nat.toNat_testBit, Nat.toNat_testBit]
  omega

theorem aspectRatio_eq_testBit :
    s.aspectRatio = (s.flags.testBit 3).toNat + 2 * (s.flags.testBit 4).toNat := by
  rw [aspectRatio, Nat.toNat_testBit, Nat.toNat_testBit]
  omega

end

end Sauce

/-! ### Imprints -/

/-- The contents of a record, and its comments. -/
structure Imprint where
  version : PaddedField 2
  title : PaddedField 35
  author : PaddedField 20
  group : PaddedField 20
  date : PaddedField 8
  fileSize : UInt32
  dataType : UInt8
  fileType : UInt8
  tinfo1 : UInt16
  tinfo2 : UInt16
  tinfo3 : UInt16
  tinfo4 : UInt16
  comments : List (PaddedField Sauce.lineLength)
  length_comments : comments.length < UInt8.size
  flags : UInt8
  tinfoS : EndedField 22

/-- A record that nothing is filled in, in which every field is its `default`. -/
instance : Inhabited Imprint where
  default :=
    { version := default, title := default, author := default, group := default, date := default
      fileSize := 0, dataType := 0, fileType := 0, tinfo1 := 0, tinfo2 := 0, tinfo3 := 0
      tinfo4 := 0, comments := [], length_comments := by decide, flags := 0, tinfoS := default }

namespace Imprint

variable (imprint : Imprint)

/-- The parts of a record, in the order in which they are written. -/
def parts : List Bytes :=
  [ Sauce.recordMark, imprint.version.bytes, imprint.title.bytes, imprint.author.bytes,
    imprint.group.bytes, imprint.date.bytes, Format.littleEndian 4 imprint.fileSize.toNat,
    Format.littleEndian 1 imprint.dataType.toNat, Format.littleEndian 1 imprint.fileType.toNat,
    Format.littleEndian 2 imprint.tinfo1.toNat, Format.littleEndian 2 imprint.tinfo2.toNat,
    Format.littleEndian 2 imprint.tinfo3.toNat, Format.littleEndian 2 imprint.tinfo4.toNat,
    Format.littleEndian 1 imprint.comments.length, Format.littleEndian 1 imprint.flags.toNat,
    imprint.tinfoS.bytes ]

/-- A record as it is written: its `parts` one after the other. -/
def record : Bytes :=
  imprint.parts.flatten

/-- The widths of the `parts` of a record. -/
def widths : List Nat :=
  [5, 2, 35, 20, 20, 8, 4, 1, 1, 2, 2, 2, 2, 1, 1, 22]

theorem map_length_parts : imprint.parts.map List.length = widths := by
  simp [parts, widths, PaddedField.length_bytes, EndedField.length_bytes, Sauce.recordMark]

theorem length_record : imprint.record.length = Sauce.recordLength := by
  rw [record, List.length_flatten, map_length_parts]
  rfl

/-- The `parts` of a record are at the places that their `widths` give. -/
theorem slice_record {i : Nat} {part : Bytes} {start width : Nat}
    (hpart : imprint.parts[i]? = some part) (hstart : (widths.take i).sum = start)
    (hwidth : part.length = width) : Sauce.slice imprint.record start width = part := by
  have hslice := Sauce.slice_flatten hpart
  rwa [map_length_parts, hstart, hwidth] at hslice

/-- The `Trailer` that is written for an imprint. -/
def trailer : Trailer where
  rows := imprint.comments.map PaddedField.bytes
  record := imprint.record
  length_rows := by
    intro row hrow
    obtain ⟨field, _, rfl⟩ := List.mem_map.mp hrow
    exact field.length_bytes
  length_record := imprint.length_record
  marked := imprint.slice_record (i := 0) rfl rfl rfl
  announced := by
    have hslice : Sauce.slice imprint.record 104 1 = [UInt8.ofNat imprint.comments.length] :=
      imprint.slice_record (i := 13) rfl rfl rfl
    have hbyte : imprint.record[104]? = some (UInt8.ofNat imprint.comments.length) := by
      have hhead := congrArg List.head? hslice
      rwa [Sauce.slice, List.head?_take, if_neg (by decide), List.head?_drop] at hhead
    rw [hbyte, List.length_map, Option.map_some, UInt8.toNat_ofNat_of_lt' imprint.length_comments]

/-- What a record was filled in with, as the `Sauce` that should be read. -/
def sauce : Sauce where
  version := latin imprint.version.content
  title := latin imprint.title.content
  author := latin imprint.author.content
  group := latin imprint.group.content
  date := latin imprint.date.content
  fileSize := imprint.fileSize.toNat
  dataType := imprint.dataType.toNat
  fileType := imprint.fileType.toNat
  tinfo1 := imprint.tinfo1.toNat
  tinfo2 := imprint.tinfo2.toNat
  tinfo3 := imprint.tinfo3.toNat
  tinfo4 := imprint.tinfo4.toNat
  comments := imprint.comments.map fun line => latin line.content
  flags := imprint.flags.toNat
  tinfoS := latin imprint.tinfoS.content

section

variable {imprint}

/-- A text of the `record` is read as it was meant. -/
theorem text_slice {width i start : Nat} {field : PaddedField width}
    (hpart : imprint.parts[i]? = some field.bytes) (hstart : (widths.take i).sum = start) :
    Sauce.text (Sauce.slice imprint.record start width) = latin field.content := by
  rw [imprint.slice_record hpart hstart field.length_bytes, Sauce.text_bytes]

/-- A number of the `record` is read as it was meant, if it fits. -/
theorem littleEndian_slice {n i start value : Nat}
    (hpart : imprint.parts[i]? = some (Format.littleEndian n value))
    (hstart : (widths.take i).sum = start) (hvalue : value < 256 ^ n) :
    Sauce.littleEndian (Sauce.slice imprint.record start n) = value := by
  rw [imprint.slice_record hpart hstart (Format.length_littleEndian n value),
    Sauce.littleEndian_littleEndian hvalue]

end

/-- **Records are read as they were meant.** What is read in the `trailer` of an imprint is the
    `sauce` that its record was filled in with. -/
theorem sauce_trailer : imprint.trailer.sauce = imprint.sauce := by
  have hcomments : (imprint.comments.map PaddedField.bytes).map Sauce.text
      = imprint.comments.map fun line => latin line.content := by
    rw [List.map_map]
    exact List.map_congr_left fun line _ => Sauce.text_bytes line
  have htinfoS : Sauce.zeroEnded (Sauce.slice imprint.record 106 22)
      = latin imprint.tinfoS.content := by
    have hslice : Sauce.slice imprint.record 106 22 = imprint.tinfoS.bytes :=
      imprint.slice_record (i := 15) rfl rfl imprint.tinfoS.length_bytes
    rw [hslice, Sauce.zeroEnded_bytes]
  unfold Trailer.sauce Sauce.ofRecord sauce
  dsimp only
  rw [Sauce.mk.injEq]
  -- the parts of a record are numbered from its mark on
  exact ⟨text_slice (i := 1) rfl rfl, text_slice (i := 2) rfl rfl, text_slice (i := 3) rfl rfl,
    text_slice (i := 4) rfl rfl, text_slice (i := 5) rfl rfl,
    littleEndian_slice (i := 6) rfl rfl imprint.fileSize.toNat_lt,
    littleEndian_slice (i := 7) rfl rfl imprint.dataType.toNat_lt,
    littleEndian_slice (i := 8) rfl rfl imprint.fileType.toNat_lt,
    littleEndian_slice (i := 9) rfl rfl imprint.tinfo1.toNat_lt,
    littleEndian_slice (i := 10) rfl rfl imprint.tinfo2.toNat_lt,
    littleEndian_slice (i := 11) rfl rfl imprint.tinfo3.toNat_lt,
    littleEndian_slice (i := 12) rfl rfl imprint.tinfo4.toNat_lt, hcomments,
    littleEndian_slice (i := 14) rfl rfl imprint.flags.toNat_lt, htinfoS⟩

/-- **Signed art is read back.** A file that is art and a `trailer` has the record that its
    `Imprint` was filled in with. Its flags are single bits, and it says how long the trailer is.
    Any `Request` for the art is answered from its beginning, in any order, without an end mark at
    its end. Any other file is divided in the same way, if `Sauce.ofBytes?` finds a record at all:
    into its art, at most one end mark, and as many bytes as the record says. A file without a
    record is art. -/
theorem signed_art_is_read_back :
    (∀ (imprint : Imprint) (art : Bytes),
      let file := art ++ imprint.trailer.bytes
      Sauce.ofBytes? file = some imprint.sauce
      ∧ imprint.sauce.iceColors = imprint.flags.toNat.testBit 0
      ∧ imprint.sauce.letterSpacing
        = (imprint.flags.toNat.testBit 1).toNat + 2 * (imprint.flags.toNat.testBit 2).toNat
      ∧ imprint.sauce.aspectRatio
        = (imprint.flags.toNat.testBit 3).toNat + 2 * (imprint.flags.toNat.testBit 4).toNat
      ∧ imprint.sauce.trailerLength = imprint.trailer.bytes.length
      ∧ ∀ requests, (ByteStream.ofFile file).answers requests
        = Bookmark.answers ⟨ByteStream.dropEndMark art, 0⟩ requests)
    ∧ ∀ file : Bytes,
      (∀ requests, (ByteStream.ofFile file).answers requests
        = Bookmark.answers ⟨(ByteStream.ofFile file).art, 0⟩ requests)
      ∧ (Sauce.ofBytes? file = none ∧ (ByteStream.ofFile file).art = file
      ∨ ∃ s mark trailer, Sauce.ofBytes? file = some s
        ∧ s.trailerLength ≤ file.length
        ∧ (mark = [] ∧ (ByteStream.ofFile file).art.getLast? ≠ some ByteStream.endMark
          ∨ mark = [ByteStream.endMark])
        ∧ file = (ByteStream.ofFile file).art ++ mark ++ trailer
        ∧ trailer.length = s.trailerLength) := by
  constructor
  · intro imprint art file
    -- the trailer of an imprint is one of those that are read back
    have hread := imprint.trailer.ofBytes?_append art
    have hlength := imprint.trailer.trailerLength_sauce
    rw [imprint.sauce_trailer] at hread hlength
    refine ⟨hread, Sauce.iceColors_eq_testBit _, Sauce.letterSpacing_eq_testBit _,
      Sauce.aspectRatio_eq_testBit _, hlength, fun requests => ?_⟩
    have hbookmark := Bookmark.isIn_ofFile file
    rw [imprint.trailer.art_ofFile art] at hbookmark
    exact hbookmark.answers_eq requests
  · intro file
    refine ⟨(Bookmark.isIn_ofFile file).answers_eq, ?_⟩
    -- a file has a record or not, and only with one there is something to divide
    cases hrecord : Sauce.ofBytes? file with
    | none => exact .inl ⟨rfl, ByteStream.rest_ofFile_of_none hrecord⟩
    | some s =>
      obtain ⟨mark, trailer, hmark, hfile, hlength⟩ := ByteStream.exists_mark_append hrecord
      exact .inr ⟨s, mark, trailer, rfl, Sauce.trailerLength_le_of_ofBytes? hrecord, hmark, hfile,
        hlength⟩

end Imprint

end TextArt
