import TextArt.ByteStream

namespace TextArt

/-!
# Trailers — what stands after the art of a file

A file may end in a record, and the record may announce lines of comments that stand in a block
before it.  Reading takes all of that away again, and at most one end mark before it.

* `Trailer` — a record and the comments that it announces, `Trailer.bytes` as they are written;
* `Trailer.ofBytes?_append` — a file that ends in a trailer has its record, with its comments;
  `Trailer.trailerLength_sauce` says that the trailer is as long as its record says, and
  `Trailer.art_ofFile` what is left of the file;
* `Sauce.trailerLength_le_of_ofBytes?` — whatever a file holds, its record does not say that it is
  longer than the file;
* `ByteStream.exists_mark_append` — so a file with a record is its art, at most one end mark, and
  as many bytes as the record says.
-/

namespace Sauce

variable {before record file : Bytes}

/-- A `slice` of a record that is one byte long holds the number of that byte. -/
theorem littleEndian_slice_one {start : Nat} {b : UInt8} (h : record[start]? = some b) :
    littleEndian (slice record start 1) = b.toNat := by
  obtain ⟨hstart, hb⟩ := List.getElem?_eq_some_iff.mp h
  rw [slice, List.drop_eq_getElem_cons hstart, hb]
  simp [littleEndian]

/-- Lines of `lineLength`, one after the other, are found again. -/
theorem lines_flatten {rows : List Bytes} (h : ∀ row ∈ rows, row.length = lineLength) :
    lines rows.length rows.flatten = rows := by
  induction rows with
  | nil => rfl
  | cons row rows ih =>
    have hrow : row.length = lineLength := h row (List.mem_cons_self ..)
    have hrows := ih fun r hr => h r (List.mem_cons_of_mem _ hr)
    rw [List.length_cons, List.flatten_cons, lines, ← hrow, List.take_left, List.drop_left, hrows]

theorem length_flatten_of_rows {rows : List Bytes} (h : ∀ row ∈ rows, row.length = lineLength) :
    rows.flatten.length = rows.length * lineLength := by
  induction rows with
  | nil => rfl
  | cons row rows ih =>
    have hrows := ih fun r hr => h r (List.mem_cons_of_mem _ hr)
    rw [List.flatten_cons, List.length_append, h row (List.mem_cons_self ..), hrows,
      List.length_cons, Nat.succ_mul, Nat.add_comm]

/-- A record is found where a file ends in `recordLength` bytes that begin with `recordMark`. -/
theorem ofBytes?_append (hlength : record.length = recordLength)
    (hmark : record.take recordMark.length = recordMark) :
    ofBytes? (before ++ record) = some (ofRecord before record) := by
  have hbefore : (before ++ record).length - recordLength = before.length := by
    rw [List.length_append, hlength, Nat.add_sub_cancel]
  have hle : recordLength ≤ (before ++ record).length := by
    rw [List.length_append, hlength]
    exact Nat.le_add_left _ _
  unfold ofBytes?
  rw [hbefore, List.take_left, List.drop_left]
  exact if_pos ⟨hle, hmark⟩

/-! ### Any file -/

/-- The comments that `readComments` finds are none, or as many as were announced, and then there is
    room for their block. -/
theorem readComments_cases (before : Bytes) (count : Nat) :
    readComments before count = []
      ∨ (readComments before count).length = count
        ∧ commentMark.length + count * lineLength ≤ before.length := by
  unfold readComments
  dsimp only
  split
  · next hblock =>
    refine .inr ⟨?_, hblock.1⟩
    rw [List.length_map, length_lines]
  · exact .inl rfl

/-- What `trailerLength` says has room before its record, and in it. -/
theorem trailerLength_ofRecord_le (before record : Bytes) :
    -- the length that is told counts the comments that were found, not those that were announced
    (ofRecord before record).trailerLength ≤ before.length + recordLength := by
  have hcomments : (ofRecord before record).comments
      = readComments before (littleEndian (slice record 104 1)) := rfl
  unfold trailerLength
  rw [hcomments]
  rcases readComments_cases before (littleEndian (slice record 104 1)) with hnone | ⟨hall, hroom⟩
  · rw [hnone]
    exact Nat.le_add_left _ _
  · rw [hall]
    split
    · exact Nat.le_add_left _ _
    · omega

/-- A trailer is no longer than its file: `trailerLength` is at most the length of the file. -/
theorem trailerLength_le_of_ofBytes? {s : Sauce} (h : ofBytes? file = some s) :
    s.trailerLength ≤ file.length := by
  -- a record is only found where the file is as long as one
  unfold ofBytes? at h
  dsimp only at h
  split at h
  · next hrecord =>
    obtain rfl := Option.some.inj h
    have hle := trailerLength_ofRecord_le (file.take (file.length - recordLength))
      (file.drop (file.length - recordLength))
    rwa [List.length_take_of_le (Nat.sub_le _ _), Nat.sub_add_cancel hrecord.1] at hle
  · cases h

end Sauce

namespace ByteStream

/-- What `dropEndMark` leaves of bytes, and the mark, are the bytes. -/
theorem exists_mark_dropEndMark (bytes : Bytes) :
    ∃ mark, (mark = [] ∧ (dropEndMark bytes).getLast? ≠ some endMark ∨ mark = [endMark])
      ∧ dropEndMark bytes ++ mark = bytes := by
  unfold dropEndMark
  split
  -- the last byte is a mark, which is the only one to go
  · next hlast =>
    have hne : bytes ≠ [] := by
      rintro rfl
      cases hlast
    have hmark : bytes.getLast hne = endMark := by
      rw [List.getLast?_eq_some_getLast hne] at hlast
      exact Option.some.inj hlast
    refine ⟨[endMark], .inr rfl, ?_⟩
    rw [← hmark]
    exact List.dropLast_concat_getLast hne
  · next hlast => exact ⟨[], .inl ⟨rfl, hlast⟩, List.append_nil _⟩

@[simp] theorem dropEndMark_append_endMark (bytes : Bytes) :
    dropEndMark (bytes ++ [endMark]) = bytes := by
  simp [dropEndMark]

/-- A file with a record is its `art`, at most one end mark, and the trailer of the record. -/
theorem exists_mark_append {file : Bytes} {s : Sauce} (h : Sauce.ofBytes? file = some s) :
    ∃ mark trailer, (mark = [] ∧ (ofFile file).art.getLast? ≠ some endMark ∨ mark = [endMark])
      ∧ file = (ofFile file).art ++ mark ++ trailer
      ∧ trailer.length = s.trailerLength := by
  have hle := Sauce.trailerLength_le_of_ofBytes? h
  -- what is before the trailer is known from the length that the record tells
  have hart : (ofFile file).art = dropEndMark (file.take (file.length - s.trailerLength)) := by
    show artOf file (Sauce.ofBytes? file) = _
    rw [h]
    rfl
  obtain ⟨mark, hmark, hbytes⟩ :=
    exists_mark_dropEndMark (file.take (file.length - s.trailerLength))
  rw [← hart] at hmark hbytes
  refine ⟨mark, file.drop (file.length - s.trailerLength), hmark, ?_, ?_⟩
  · rw [hbytes, List.take_append_drop]
  · rw [List.length_drop]
    omega

end ByteStream

/-! ### Trailers -/

/-- A record and the comments that it announces. -/
structure Trailer where
  /-- The lines of the comments, if there are any. -/
  rows : List Bytes
  record : Bytes
  length_rows : ∀ row ∈ rows, row.length = Sauce.lineLength
  length_record : record.length = Sauce.recordLength
  marked : record.take Sauce.recordMark.length = Sauce.recordMark
  /-- The number of lines is the byte of the `record` at place 104. -/
  announced : record[104]?.map UInt8.toNat = some rows.length

namespace Trailer

variable (trailer : Trailer) (art : Bytes)

/-- The block of comments, which is left out if there are none. -/
def block : Bytes :=
  if trailer.rows = [] then [] else Sauce.commentMark ++ trailer.rows.flatten

/-- A trailer as it is written: its `block` before its `record`. -/
def bytes : Bytes :=
  trailer.block ++ trailer.record

/-- The contents of the `record`, with its comments. -/
def sauce : Sauce :=
  { Sauce.ofRecord [] trailer.record with comments := trailer.rows.map Sauce.text }

/-- The comments before a record are read back by `Sauce.readComments`. -/
theorem readComments_append :
    Sauce.readComments (art ++ trailer.block) trailer.rows.length
      = trailer.rows.map Sauce.text := by
  unfold block
  by_cases hnone : trailer.rows = []
  · -- a mark before the record does not matter where no comments are announced
    rw [hnone, if_pos rfl]
    unfold Sauce.readComments
    dsimp only
    split <;> rfl
  · -- the block is looked for backwards from the record, and so found where it begins
    rw [if_neg hnone]
    have hlength : (Sauce.commentMark ++ trailer.rows.flatten).length
        = Sauce.commentMark.length + trailer.rows.length * Sauce.lineLength := by
      rw [List.length_append, Sauce.length_flatten_of_rows trailer.length_rows]
    have hstart : (art ++ (Sauce.commentMark ++ trailer.rows.flatten)).length
        - (Sauce.commentMark.length + trailer.rows.length * Sauce.lineLength) = art.length := by
      rw [List.length_append, hlength, Nat.add_sub_cancel]
    have hroom : Sauce.commentMark.length + trailer.rows.length * Sauce.lineLength
        ≤ (art ++ (Sauce.commentMark ++ trailer.rows.flatten)).length := by
      rw [List.length_append, hlength]
      exact Nat.le_add_left _ _
    unfold Sauce.readComments
    dsimp only
    rw [hstart, List.drop_left, List.take_left, List.drop_left, if_pos ⟨hroom, rfl⟩,
      Sauce.lines_flatten trailer.length_rows]

/-- A file that ends in a `Trailer` has its record. -/
theorem ofBytes?_append : Sauce.ofBytes? (art ++ trailer.bytes) = some trailer.sauce := by
  -- the byte at place 104 announces as many lines as there are
  obtain ⟨b, hb, hcount⟩ := Option.map_eq_some_iff.mp trailer.announced
  have hannounced : Sauce.littleEndian (Sauce.slice trailer.record 104 1) = trailer.rows.length :=
    (Sauce.littleEndian_slice_one hb).trans hcount
  have hcomments : (Sauce.ofRecord (art ++ trailer.block) trailer.record).comments
      = trailer.rows.map Sauce.text := by
    show Sauce.readComments _ (Sauce.littleEndian _) = _
    rw [hannounced, trailer.readComments_append art]
  rw [bytes, ← List.append_assoc,
    Sauce.ofBytes?_append trailer.length_record trailer.marked, sauce, ← hcomments]
  rfl

/-- A trailer is as long as its record says by `trailerLength`. -/
theorem trailerLength_sauce : trailer.sauce.trailerLength = trailer.bytes.length := by
  unfold Sauce.trailerLength bytes block
  -- without comments neither the block is written nor its mark counted
  by_cases hnone : trailer.rows = []
  · have hcomments : trailer.sauce.comments.isEmpty = true := by
      show (trailer.rows.map Sauce.text).isEmpty = true
      rw [hnone]
      rfl
    rw [if_pos hcomments, if_pos hnone, List.nil_append, trailer.length_record]
  · have hcomments : ¬ trailer.sauce.comments.isEmpty = true := by
      show ¬ (trailer.rows.map Sauce.text).isEmpty = true
      simpa using hnone
    have hcount : trailer.sauce.comments.length = trailer.rows.length := List.length_map _
    rw [if_neg hcomments, if_neg hnone, hcount, List.length_append, List.length_append,
      Sauce.length_flatten_of_rows trailer.length_rows, trailer.length_record]
    omega

/-- The `art` of a file that ends in a trailer is made of the bytes before it, without an end
    mark. -/
theorem art_ofFile :
    (ByteStream.ofFile (art ++ trailer.bytes)).art = ByteStream.dropEndMark art := by
  have hlength : (art ++ trailer.bytes).length - trailer.sauce.trailerLength = art.length := by
    rw [trailer.trailerLength_sauce, List.length_append, Nat.add_sub_cancel]
  show ByteStream.artOf _ (Sauce.ofBytes? _) = _
  rw [trailer.ofBytes?_append art, ByteStream.artOf, hlength, List.take_left]

end Trailer

end TextArt
