import TextArt.Proofs.Machine.Reading
import TextArt.Proofs.Trailers

namespace TextArt.Machine

/-!
# The files of a machine — records read place by place

A machine cuts a record from the end of a file and reads its fields at places of it, one of which
says how much of the file before the record is a block of comments.  Any of these places might not
be there: a file can be shorter than a record, and than the comments that its record announces.

* `sauceOf`, `sauceOf_eq` — the record of any file, found without a failure;
* `Source.ofFile`, `Source.ofFile_eq` — a file being read: what is art of it is what the library
  takes for its art.
-/

open Sauce (text littleEndian recordLength lineLength recordMark commentMark)

/-! ### Fields -/

/-- The text of the `n` bytes of a record from place `start` on. -/
def textAt (record : Bytes) (start n : Nat) : Option String := do
  let bytes ← slice record start (start + n)
  pure (text bytes)

/-- The text of a field that a zero byte may end early, which is a `slice` of the record. -/
def zeroEndedAt (record : Bytes) (start n : Nat) : Option String := do
  let bytes ← slice record start (start + n)
  let name ← slice bytes 0 (bytes.takeWhile (· ≠ 0)).length
  pure (text name)

/-- The number in the `n` bytes of a record from place `start` on. -/
def numberAt (record : Bytes) (start n : Nat) : Option Nat := do
  let bytes ← (List.range n).mapM fun i => record[start + i]?
  pure (littleEndian bytes)

section Fields

variable {record : Bytes} {start n : Nat}

theorem slice_field (h : start + n ≤ record.length) :
    slice record start (start + n) = some (Sauce.slice record start n) := by
  rw [slice_eq (Nat.le_add_right _ _) h, List.drop_take, Nat.add_sub_cancel_left]
  rfl

theorem textAt_eq (h : start + n ≤ record.length) :
    textAt record start n = some (text (Sauce.slice record start n)) := by
  rw [textAt, slice_field h]
  rfl

theorem zeroEndedAt_eq (h : start + n ≤ record.length) :
    zeroEndedAt record start n = some (Sauce.zeroEnded (Sauce.slice record start n)) := by
  have hname : ∀ bytes : Bytes, slice bytes 0 (bytes.takeWhile (· ≠ 0)).length
      = some (bytes.takeWhile (· ≠ 0)) := by
    intro bytes
    have hprefix := List.takeWhile_prefix (p := fun b : UInt8 => decide (b ≠ 0)) (l := bytes)
    rw [slice_eq (Nat.zero_le _) hprefix.length_le, List.drop_zero,
      ← List.prefix_iff_eq_take.mp hprefix]
  rw [zeroEndedAt, slice_field h, Option.bind_eq_bind, Option.bind_some, hname]
  rfl

theorem numberAt_eq (h : start + n ≤ record.length) :
    numberAt record start n = some (littleEndian (Sauce.slice record start n)) := by
  have hbyte : ∀ i ∈ List.range n, record[start + i]? = some (record[start + i]?.getD 0) := by
    intro i hi
    have hlt : start + i < record.length := by
      have := List.mem_range.mp hi
      omega
    rw [List.getElem?_eq_getElem hlt]
    rfl
  -- no byte is missing, so what stands for a missing one does not matter
  have hbytes : (List.range n).map (fun i => record[start + i]?.getD 0)
      = Sauce.slice record start n := by
    refine List.ext_getElem ?_ fun i hi hi' => ?_
    · rw [List.length_map, List.length_range, Sauce.slice, List.length_take, List.length_drop]
      omega
    · rw [List.length_map, List.length_range] at hi
      simp only [List.getElem_map, List.getElem_range, Sauce.slice, List.getElem_take,
        List.getElem_drop]
      rw [List.getElem?_eq_getElem (by omega)]
      rfl
  rw [numberAt, mapM_eq hbyte, hbytes]
  rfl

end Fields

/-! ### Comments -/

/-- The comments before a record that announces some `lines` of them. -/
def commentsOf (before : Bytes) (lines : Nat) : Option (List String) :=
  if lines = 0 then pure []
  else do
    let length ← word (lines * lineLength)
    let length ← word (commentMark.length + length)
    if before.length < length then pure []
    else do
      let start ← minus before.length length
      let block ← slice before start before.length
      let mark ← slice block 0 commentMark.length
      if mark ≠ commentMark then pure []
      else do
        let rest ← slice block commentMark.length block.length
        pure ((Sauce.lines (rest.length / lineLength) rest).map text)

/-- No announcement that fits into a byte is one of too many lines for `commentsOf`. -/
theorem commentsOf_eq (before : Bytes) {lines : Nat} (h : lines < 256) :
    commentsOf before lines = some (Sauce.readComments before lines) := by
  have hmark : commentMark.length = 5 := rfl
  have hline : lineLength = 64 := rfl
  have hsize : (2 : Nat) ^ 32 < UInt64.size := by decide
  unfold commentsOf Sauce.readComments
  simp only [Option.bind_eq_bind]
  by_cases hzero : lines = 0
  · subst hzero
    rw [if_pos rfl]
    split <;> rfl
  · have hblock : lines * lineLength ≤ 256 * 64 := Nat.mul_le_mul (Nat.le_of_lt h) (Nat.le_refl 64)
    rw [if_neg hzero, word_eq (by omega), Option.bind_some, word_eq (by omega),
      Option.bind_some]
    by_cases hshort : before.length < commentMark.length + lines * lineLength
    · rw [if_pos hshort, if_neg fun hroom => absurd hroom.1 (Nat.not_le.mpr hshort)]
      rfl
    · have hroom := Nat.not_lt.mp hshort
      -- the block is cut off as a whole, and the mark that it begins with is checked after that
      let block := before.drop (before.length - (commentMark.length + lines * lineLength))
      have hblock : block.length = commentMark.length + lines * lineLength := by
        show (before.drop _).length = _
        rw [List.length_drop]
        omega
      have hmarkRoom : commentMark.length ≤ block.length := by
        rw [hblock]
        exact Nat.le_add_right _ _
      rw [if_neg hshort, minus_eq hroom, Option.bind_some,
        slice_eq (Nat.sub_le _ _) (Nat.le_refl _), List.take_length, Option.bind_some,
        slice_eq (Nat.zero_le _) hmarkRoom, List.drop_zero, Option.bind_some]
      by_cases hfound : block.take commentMark.length = commentMark
      · have hlines : (block.drop commentMark.length).length / lineLength = lines := by
          rw [List.length_drop, hblock, Nat.add_sub_cancel_left]
          exact Nat.mul_div_cancel _ (by decide)
        rw [if_neg (not_not_intro hfound), if_pos ⟨hroom, hfound⟩,
          slice_eq hmarkRoom (Nat.le_refl _), List.take_length,
          Option.bind_some, hlines]
        rfl
      · rw [if_pos hfound, if_neg fun hboth => hfound hboth.2]
        rfl

/-- The comments before a `record`, which says how many there are. -/
def commentsBefore (before record : Bytes) : Option (List String) := do
  let lines ← numberAt record 104 1
  commentsOf before lines

/-! ### Records -/

/-- The fields of a record that stands after `before`. -/
def fieldsOf (before record : Bytes) : Option Sauce := do
  let version ← textAt record 5 2
  let title ← textAt record 7 35
  let author ← textAt record 42 20
  let group ← textAt record 62 20
  let date ← textAt record 82 8
  let fileSize ← numberAt record 90 4
  let dataType ← numberAt record 94 1
  let fileType ← numberAt record 95 1
  let tinfo1 ← numberAt record 96 2
  let tinfo2 ← numberAt record 98 2
  let tinfo3 ← numberAt record 100 2
  let tinfo4 ← numberAt record 102 2
  let comments ← commentsBefore before record
  let flags ← numberAt record 105 1
  let tinfoS ← zeroEndedAt record 106 22
  pure
    { version, title, author, group, date, fileSize, dataType, fileType, tinfo1, tinfo2, tinfo3,
      tinfo4, comments, flags, tinfoS }

/-- The `Sauce` record at the end of a file. -/
def sauceOf (bytes : Bytes) : Option (Option Sauce) :=
  if bytes.length < recordLength then pure none
  else do
    let start ← minus bytes.length recordLength
    let record ← slice bytes start bytes.length
    let mark ← slice record 0 recordMark.length
    if mark ≠ recordMark then pure none
    else do
      let before ← slice bytes 0 start
      let sauce ← fieldsOf before record
      pure (some sauce)

/-- All fields that `fieldsOf` asks for are in a record of `recordLength` bytes. -/
theorem fieldsOf_eq (before : Bytes) {record : Bytes} (h : record.length = recordLength) :
    fieldsOf before record = some (Sauce.ofRecord before record) := by
  have hlength : record.length = 128 := h
  -- every field lies within the 128 bytes of the record, which is checked field by field
  have htext : ∀ start n, start + n ≤ 128 → textAt record start n = _ := fun start n hle =>
    textAt_eq (hlength.symm ▸ hle)
  have hnumber : ∀ start n, start + n ≤ 128 → numberAt record start n = _ := fun start n hle =>
    numberAt_eq (hlength.symm ▸ hle)
  have hcomments : commentsBefore before record
      = some (Sauce.readComments before (littleEndian (Sauce.slice record 104 1))) := by
    have hlines : littleEndian (Sauce.slice record 104 1) < 256 := by
      rw [Sauce.littleEndian_slice_one (List.getElem?_eq_getElem (by omega))]
      exact UInt8.toNat_lt _
    rw [commentsBefore, hnumber 104 1 (by decide), Option.bind_eq_bind, Option.bind_some,
      commentsOf_eq before hlines]
  rw [fieldsOf, htext 5 2 (by decide), htext 7 35 (by decide), htext 42 20 (by decide),
    htext 62 20 (by decide), htext 82 8 (by decide), hnumber 90 4 (by decide),
    hnumber 94 1 (by decide), hnumber 95 1 (by decide), hnumber 96 2 (by decide),
    hnumber 98 2 (by decide), hnumber 100 2 (by decide), hnumber 102 2 (by decide), hcomments,
    hnumber 105 1 (by decide), zeroEndedAt_eq (by omega)]
  rfl

/-- **The record of any file is found**, or found not to be there: `sauceOf` never fails, and agrees
    with `Sauce.ofBytes?`. -/
theorem sauceOf_eq (bytes : Bytes) : sauceOf bytes = some (Sauce.ofBytes? bytes) := by
  unfold sauceOf Sauce.ofBytes?
  simp only [Option.bind_eq_bind]
  -- a file that is shorter than a record has none
  by_cases hshort : bytes.length < recordLength
  · rw [if_pos hshort, if_neg fun hlong => absurd hlong.1 (Nat.not_le.mpr hshort)]
    rfl
  · have hlong := Nat.not_lt.mp hshort
    let record := bytes.drop (bytes.length - recordLength)
    have hrecord : record.length = recordLength := by
      show (bytes.drop _).length = _
      rw [List.length_drop]
      exact Nat.sub_sub_self hlong
    rw [if_neg hshort, minus_eq hlong, Option.bind_some,
      slice_eq (Nat.sub_le _ _) (Nat.le_refl _), List.take_length, Option.bind_some,
      slice_eq (Nat.zero_le _) (by rw [hrecord]; decide), List.drop_zero, Option.bind_some]
    by_cases hfound : record.take recordMark.length = recordMark
    · rw [if_neg (not_not_intro hfound), if_pos ⟨hlong, hfound⟩,
        slice_eq (Nat.zero_le _) (Nat.sub_le _ _), List.drop_zero, Option.bind_some,
        fieldsOf_eq _ hrecord]
      rfl
    · rw [if_pos hfound, if_neg fun hboth => hfound hboth.2]
      rfl

/-! ### Art -/

/-- The bytes that a record takes up at the end of its file, as `Sauce.trailerLength` has them. -/
def trailerOf (s : Sauce) : Option Nat :=
  if s.comments.isEmpty then pure recordLength
  else do
    let lines ← word (s.comments.length * lineLength)
    word (recordLength + commentMark.length + lines)

/-- The number of bytes of a file that are art, given how many stand after it in the `trailer`. -/
def artLength (bytes : Bytes) (trailer : Nat) : Option Nat :=
  let size := bytes.length - trailer
  if 0 < size then do
    let last ← minus size 1
    let b ← bytes[last]?
    pure (if b = ByteStream.endMark then last else size)
  else pure size

/-- The art of a file, as a `Source` to be read from its beginning, and the record of the file. -/
def Source.ofFile (bytes : Bytes) : Option (Source × Option Sauce) := do
  let record ← sauceOf bytes
  let size ← match record with
    | none => pure bytes.length
    | some sauce => do
      let trailer ← trailerOf sauce
      artLength bytes trailer
  pure ({ bytes, size, position := 0 }, record)

/-- A trailer that is not longer than its file has a length that `trailerOf` finds. -/
theorem trailerOf_eq {s : Sauce} (h : s.trailerLength < UInt64.size) :
    trailerOf s = some s.trailerLength := by
  unfold trailerOf
  unfold Sauce.trailerLength at h ⊢
  split
  · rfl
  · next hsome =>
    rw [if_neg hsome] at h
    rw [word_eq (by omega), Option.bind_eq_bind, Option.bind_some, word_eq h]

/-- The `artLength` that is found is that of the art, whether or not an end mark is taken away. -/
theorem artLength_eq (bytes : Bytes) (trailer : Nat) :
    artLength bytes trailer
      = some (ByteStream.dropEndMark (bytes.take (bytes.length - trailer))).length := by
  have hlength : (bytes.take (bytes.length - trailer)).length = bytes.length - trailer :=
    List.length_take_of_le (Nat.sub_le _ _)
  unfold artLength
  dsimp only
  split
  · next hpos =>
    -- the byte before the trailer is the last one of the art, as the trailer is cut off
    have hlast : (bytes.take (bytes.length - trailer)).getLast?
        = bytes[bytes.length - trailer - 1]? := by
      rw [List.getLast?_eq_getElem?, hlength, List.getElem?_take_of_lt (by omega)]
    have hlt : bytes.length - trailer - 1 < bytes.length := by omega
    rw [minus_eq hpos, Option.bind_eq_bind, Option.bind_some, List.getElem?_eq_getElem hlt,
      Option.bind_eq_bind, Option.bind_some, ByteStream.dropEndMark, hlast,
      List.getElem?_eq_getElem hlt]
    by_cases hmark : bytes[bytes.length - trailer - 1] = ByteStream.endMark
    · rw [if_pos hmark, if_pos (congrArg some hmark), List.length_dropLast, hlength]
      rfl
    · rw [if_neg hmark, if_neg fun hsome => hmark (Option.some.inj hsome), hlength]
      rfl
  · next hzero =>
    have hnil : bytes.take (bytes.length - trailer) = [] :=
      List.length_eq_zero_iff.mp (by omega)
    rw [hnil, Nat.eq_zero_of_not_pos hzero]
    rfl

/-- What a file begins with is what a source `Shows` that begins there and has its size. -/
theorem Source.shows_of_prefix {bytes art : Bytes} (h : art <+: bytes)
    (hshort : bytes.length < UInt64.size) :
    ({ bytes, size := art.length, position := 0 } : Source).Shows art where
  size_le := h.length_le
  short := Nat.lt_of_le_of_lt h.length_le hshort
  position_le := Nat.zero_le _
  rest_eq := by rw [List.drop_zero, ← List.prefix_iff_eq_take.mp h]

/-- **Any file is opened.** The source that `Source.ofFile` makes of a file `Shows` what the library
    takes for its art. -/
theorem Source.ofFile_eq {bytes : Bytes} (h : bytes.length < UInt64.size) :
    ∃ source, ofFile bytes = some (source, Sauce.ofBytes? bytes)
      ∧ source.Shows (ByteStream.ofFile bytes).art ∧ source.position = 0 := by
  let art := (ByteStream.ofFile bytes).art
  -- art is a prefix of its file in both cases, and its length is all that has to be found
  have hart : art = ByteStream.artOf bytes (Sauce.ofBytes? bytes) := rfl
  suffices hsource : art <+: bytes
      ∧ ofFile bytes = some (⟨bytes, art.length, 0⟩, Sauce.ofBytes? bytes) from
    ⟨_, hsource.2, shows_of_prefix hsource.1 h, rfl⟩
  unfold ofFile
  rw [sauceOf_eq, Option.bind_eq_bind, Option.bind_some]
  cases hrecord : Sauce.ofBytes? bytes with
  | none =>
    rw [hart, hrecord]
    exact ⟨List.prefix_refl bytes, rfl⟩
  | some sauce =>
    obtain ⟨mark, trailer, -, hfile, -⟩ := ByteStream.exists_mark_append hrecord
    have hle := Sauce.trailerLength_le_of_ofBytes? hrecord
    refine ⟨⟨mark ++ trailer, by rw [← List.append_assoc]; exact hfile.symm⟩, ?_⟩
    dsimp only
    rw [trailerOf_eq (Nat.lt_of_le_of_lt hle h), Option.bind_eq_bind, Option.bind_some,
      artLength_eq, hart, hrecord]
    rfl

end TextArt.Machine
