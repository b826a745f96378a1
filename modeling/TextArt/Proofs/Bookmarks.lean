import TextArt.ByteStream

namespace TextArt

/-!
# Bookmarks — art that is not read in one go

A stream keeps the bytes that it has not handed over yet.  Whoever reads it may as well think of
all of the art, with a bookmark at some place of it, and find the same bytes.

* `ByteStream.Request`, `ByteStream.answers` — what a stream can be asked for, and what it
  answers to one request after the other;
* `Bookmark`, `Bookmark.answers` — the same for art with a bookmark in it;
* `Bookmark.answers_eq` — they answer alike, and are at the same place after each answer.
-/

namespace ByteStream

/-- Something that is asked of a `ByteStream`. -/
inductive Request where
  /-- The next byte, which is then read: `ByteStream.get?`. -/
  | get
  /-- The next byte, which is not yet read: `ByteStream.peek?`. -/
  | peek
  | read (n : Nat)
  | seek (position : Nat)
  deriving DecidableEq, Repr

/-- The bytes that are the answer to a `Request`, and what is left to be read after it. -/
def answer (s : ByteStream) : Request → Bytes × ByteStream
  | .get => (s.get?.1.toList, s.get?.2)
  | .peek => (s.peek?.toList, s)
  | .read n => s.read n
  | .seek position => ([], s.seek position)

/-- The answers to some requests, each with the `position` in the art after it. -/
def answers (s : ByteStream) : List Request → List (Bytes × Nat)
  | [] => []
  | request :: requests =>
    let (bytes, s) := s.answer request
    (bytes, s.position) :: s.answers requests

end ByteStream

/-- Art with a bookmark at some `place` of it, the plain thing that a `ByteStream` is compared
    with. -/
structure Bookmark where
  art : Bytes
  place : Nat
  deriving DecidableEq, Repr

namespace Bookmark

/-- The bookmark at another `place`, or at the end of the art if there is no such place. -/
def moved (m : Bookmark) (place : Nat) : Bookmark :=
  { m with place := min place m.art.length }

/-- What comes after a bookmark that is `moved` does not depend on whether there is such a place. -/
theorem drop_moved (m : Bookmark) (place : Nat) :
    m.art.drop (m.moved place).place = m.art.drop place := by
  show m.art.drop (min place m.art.length) = m.art.drop place
  rcases Nat.le_total place m.art.length with hle | hle
  · rw [Nat.min_eq_left hle]
  · rw [Nat.min_eq_right hle, List.drop_length, List.drop_eq_nil_of_le hle]

/-- The bytes at the bookmark that a `Request` asks for, and the bookmark after it. -/
def answer (m : Bookmark) : ByteStream.Request → Bytes × Bookmark
  | .get => (m.art[m.place]?.toList, m.moved (m.place + 1))
  | .peek => (m.art[m.place]?.toList, m)
  | .read n => ((m.art.drop m.place).take n, m.moved (m.place + n))
  | .seek position => ([], m.moved position)

/-- The answers of a `Bookmark` to some requests, each with its `place` after it. -/
def answers (m : Bookmark) : List ByteStream.Request → List (Bytes × Nat)
  | [] => []
  | request :: requests =>
    let (bytes, m) := m.answer request
    (bytes, m.place) :: m.answers requests

/-- A stream hands over the art from the bookmark on: `rest` is the `art` without the part before
    `place`. -/
structure IsIn (m : Bookmark) (s : ByteStream) : Prop where
  art_eq : s.art = m.art
  rest_eq : s.rest = m.art.drop m.place
  place_le : m.place ≤ m.art.length

namespace IsIn

variable {m : Bookmark} {s : ByteStream}

/-- The bookmark is at the `position` of the stream. -/
theorem position_eq (h : m.IsIn s) : s.position = m.place := by
  have hle := h.place_le
  unfold ByteStream.position
  rw [h.art_eq, h.rest_eq, List.length_drop]
  omega

/-- What `peek?` answers is the byte at the bookmark. -/
theorem peek?_eq (h : m.IsIn s) : s.peek? = m.art[m.place]? := by
  unfold ByteStream.peek?
  rw [h.rest_eq, List.head?_drop]

/-- Where a stream has handed over `n` more bytes, the bookmark has `moved` by as many. -/
theorem moved (h : m.IsIn s) (n : Nat) :
    (m.moved (m.place + n)).IsIn (s.toRest (s.rest.drop n) (List.drop_suffix n s.rest)) where
  art_eq := h.art_eq
  rest_eq := by
    show s.rest.drop n = m.art.drop (m.moved (m.place + n)).place
    rw [drop_moved, h.rest_eq, List.drop_drop]
  place_le := Nat.min_le_right _ _

/-- A bookmark answers a `Request` as the stream does, and `IsIn` what is left of it. -/
theorem answer (h : m.IsIn s) (request : ByteStream.Request) :
    (s.answer request).1 = (m.answer request).1
      ∧ (m.answer request).2.IsIn (s.answer request).2 := by
  cases request with
  | get =>
    have hget : s.get?.2 = s.toRest (s.rest.drop 1) (List.drop_suffix 1 s.rest) := by
      simp [ByteStream.get?]
    refine ⟨congrArg Option.toList h.peek?_eq, ?_⟩
    show (m.moved (m.place + 1)).IsIn s.get?.2
    rw [hget]
    exact h.moved 1
  | peek => exact ⟨congrArg Option.toList h.peek?_eq, h⟩
  | read n =>
    refine ⟨?_, h.moved n⟩
    show s.rest.take n = (m.art.drop m.place).take n
    rw [h.rest_eq]
  | seek position =>
    refine ⟨rfl, h.art_eq, ?_, Nat.min_le_right _ _⟩
    show s.art.drop position = m.art.drop (m.moved position).place
    rw [drop_moved, h.art_eq]

/-- Any requests have the same `answers` from a bookmark and a stream that it `IsIn`. -/
theorem answers_eq (h : m.IsIn s) (requests : List ByteStream.Request) :
    s.answers requests = m.answers requests := by
  -- the two move on together, so the relation between them is what the induction carries
  induction requests generalizing m s with
  | nil => rfl
  | cons request requests ih =>
    obtain ⟨hbytes, hnext⟩ := h.answer request
    show ((s.answer request).1, (s.answer request).2.position)
        :: (s.answer request).2.answers requests = _
    rw [hbytes, hnext.position_eq, ih hnext]
    rfl

end IsIn

/-- The art of a file is read as from its beginning: a bookmark at 0 `IsIn` what `ofFile` makes. -/
theorem isIn_ofFile (file : Bytes) : IsIn ⟨(ByteStream.ofFile file).art, 0⟩ (.ofFile file) :=
  ⟨rfl, rfl, Nat.zero_le _⟩

end Bookmark

end TextArt
