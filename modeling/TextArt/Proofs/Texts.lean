import TextArt.Proofs.Chunks
import TextArt.Proofs.SavedCursor

namespace TextArt

/-!
# Texts — a terminal that takes all of some bytes

A stream that is read to its end leaves a terminal that depends on nothing but the bytes that
the stream had left.  So the terminal may be taken to read a text, with no stream at all.

* `Terminal.takeText`, `Terminal.countText` — the terminal after a text, and the bytes counted;
* `Terminal.terminal_readToEnd`, `Terminal.consumed_readToEnd` — reading a stream to its end is
  taking its text;
* `Terminal.Heeds`, `Terminal.EndsOn` — the bytes that do something else for the byte after
  them, and the last byte of a text that no open sequence takes in;
* `Terminal.takeText_append`, `Terminal.countText_append` — a text that is cut in two is taken
  as the one part and then the other, unless the cut hides a byte from one that heeds it;
* `Terminal.takeText_append_of_cut_line` — a cut inside the end of a line hides a byte, but only
  the count tells.
-/

namespace Terminal

/-! ### The text of a stream -/

/-- What is left of the bytes after a byte when it is taken; one is missing where `skipsNext` says
    so. -/
def leaves (t : Terminal) (b : UInt8) (rest : Bytes) : Bytes :=
  if t.skipsNext b rest.head? then rest.tail else rest

theorem length_leaves_le (t : Terminal) (b : UInt8) (rest : Bytes) :
    (t.leaves b rest).length ≤ rest.length := by
  unfold leaves
  split
  · rw [List.length_tail]
    exact Nat.sub_le _ _
  · exact Nat.le_refl _

/-- The terminal that has taken all bytes of a text by `feed`. -/
def takeText (t : Terminal) : Bytes → Terminal
  | [] => t
  | b :: rest => (t.feed b rest.head?).takeText (t.leaves b rest)
termination_by text => text.length
decreasing_by exact Nat.lt_succ_of_le (t.length_leaves_le b rest)

/-- The number of bytes of a text, a byte and the one it takes along counting as one. -/
def countText (t : Terminal) : Bytes → Nat
  | [] => 0
  | b :: rest => (t.feed b rest.head?).countText (t.leaves b rest) + 1
termination_by text => text.length
decreasing_by exact Nat.lt_succ_of_le (t.length_leaves_le b rest)

variable {t : Terminal}

@[simp] theorem takeText_nil : t.takeText [] = t := by
  rw [takeText]

@[simp] theorem countText_nil : t.countText [] = 0 := by
  rw [countText]

theorem takeText_cons (b : UInt8) (rest : Bytes) :
    t.takeText (b :: rest) = (t.feed b rest.head?).takeText (t.leaves b rest) := by
  rw [takeText]

theorem countText_cons (b : UInt8) (rest : Bytes) :
    t.countText (b :: rest) = (t.feed b rest.head?).countText (t.leaves b rest) + 1 := by
  rw [countText]

/-- What `feed` preserves of a terminal for every byte, `takeText` preserves. -/
theorem takeText_preserves {holds : Terminal → Prop}
    (hfeed : ∀ t b next, holds t → holds (t.feed b next)) (h : holds t) (text : Bytes) :
    holds (t.takeText text) := by
  fun_induction takeText t text with
  | case1 t => exact h
  | case2 t b rest ih => exact ih (hfeed t b rest.head? h)

/-- The bytes of a stream lead, by `Place.Takes`, to the terminal that has taken them as a text. -/
theorem takes_text (t : Terminal) (s : ByteStream) :
    ∃ q, Place.Takes (t.countText s.rest) ⟨t, s⟩ q ∧ q.terminal = t.takeText s.rest
      ∧ q.stream.rest = [] := by
  -- a byte shortens what is left of the stream, by one byte or two
  induction hlength : s.rest.length using Nat.strongRecOn generalizing t s with
  | _ length ih =>
    cases hrest : s.rest with
    | nil =>
      refine ⟨⟨t, s⟩, ?_, ?_, hrest⟩
      · rw [countText_nil]
        exact .refl _
      · rw [takeText_nil]
    | cons b rest =>
      let p : Place := ⟨t, s⟩
      have hp : p.stream.rest = b :: rest := hrest
      have hterminal : p.next.terminal = t.feed b rest.head? := Place.terminal_next hp
      have hleft : p.next.stream.rest = t.leaves b rest := Place.rest_next hp
      have hne : p.stream.rest ≠ [] := by
        rw [hp]
        exact List.cons_ne_nil _ _
      have hless : p.next.stream.rest.length < length := by
        rw [← hlength]
        exact Reading.length_rest_step (r := p.start) hne
      obtain ⟨q, htakes, hq, hend⟩ := ih _ hless p.next.terminal p.next.stream rfl
      refine ⟨q, ?_, ?_, hend⟩
      · rw [countText_cons, ← hterminal, ← hleft]
        exact .head hne htakes
      · rw [takeText_cons, ← hterminal, ← hleft]
        exact hq

/-- To `readToEnd` a stream leaves the terminal that has taken the bytes as a text. -/
theorem terminal_readToEnd (t : Terminal) (s : ByteStream) :
    (t.readToEnd s).terminal = t.takeText s.rest := by
  obtain ⟨q, htakes, hq, hend⟩ := t.takes_text s
  obtain ⟨hplace, _⟩ := (t.takes_readToEnd s).end_unique htakes (t.rest_readToEnd s) hend
  rw [← hq, ← hplace]
  rfl

/-- To `readToEnd` a stream counts the bytes of the text by `countText`. -/
theorem consumed_readToEnd (t : Terminal) (s : ByteStream) :
    (t.readToEnd s).consumed = t.countText s.rest := by
  obtain ⟨q, htakes, _, hend⟩ := t.takes_text s
  exact ((t.takes_readToEnd s).end_unique htakes (t.rest_readToEnd s) hend).2

/-! ### Bytes outside of a sequence -/

section

variable (hclosed : t.pending = none)

include hclosed

theorem feed_lineFeed (next : Option UInt8) : t.feed lineFeed next = t.newLine := by
  simp [feed_eq, hclosed]

theorem feed_carriageReturn_lineFeed : t.feed carriageReturn (some lineFeed) = t.newLine := by
  simp [feed_eq, hclosed, carriageReturn, lineFeed]

theorem feed_carriageReturn {next : Option UInt8} (h : next ≠ some lineFeed) :
    t.feed carriageReturn next = t := by
  have hline : carriageReturn ≠ lineFeed := by decide
  simp [feed_eq, hclosed, h, hline]

theorem feed_endMark (next : Option UInt8) : t.feed ByteStream.endMark next = t := by
  simp [feed_eq, hclosed, ByteStream.endMark, carriageReturn, lineFeed]

end

@[simp] theorem leaves_nil (b : UInt8) : t.leaves b [] = [] :=
  if_neg (by simp [skipsNext])

/-! ### Cuts -/

/-- Outside of a sequence, a byte does something else for the byte after it than it does at the end:
    a carriage return before a line feed, and an escape before a bracket. -/
def Heeds (b : UInt8) (next : Option UInt8) : Prop :=
  b = carriageReturn ∧ next = some lineFeed ∨ b = escape ∧ next = some bracket

instance (b : UInt8) (next : Option UInt8) : Decidable (Heeds b next) :=
  inferInstanceAs (Decidable (_ ∨ _))

/-- A byte that does not `Heeds` the one after it does what it would do at the end. -/
theorem feed_of_not_heeds {b : UInt8} {next : Option UInt8}
    (h : t.pending = none → ¬ Heeds b next) : t.feed b next = t.feed b none := by
  rw [feed_eq, feed_eq]
  cases hpending : t.pending with
  | some sequence => rfl
  | none =>
    have hheeds := h hpending
    simp only [Heeds, not_or] at hheeds
    dsimp only
    by_cases hreturn : b = carriageReturn
    · have hnext : next ≠ some lineFeed := fun hnext => hheeds.1 ⟨hreturn, hnext⟩
      simp [hreturn, hnext]
    · simp [hreturn, hheeds.2]

/-- A byte that heeds nothing leaves all bytes after it, as `leaves` tells. -/
theorem leaves_of_not_heeds {b : UInt8} {rest : Bytes}
    (h : t.pending = none → ¬ Heeds b rest.head?) : t.leaves b rest = rest := by
  refine if_neg fun hskips => ?_
  obtain ⟨hpending, hreturn, hnext⟩ := skipsNext_iff.mp hskips
  exact h hpending (.inl ⟨hreturn, hnext⟩)

/-- The last byte of a text is `b`, and no sequence is open when a terminal takes it. -/
inductive EndsOn (b : UInt8) : Terminal → Bytes → Prop where
  | last {t : Terminal} (h : t.pending = none) : EndsOn b t [b]
  | head {t : Terminal} (c : UInt8) {rest : Bytes}
      (h : EndsOn b (t.feed c rest.head?) (t.leaves c rest)) : EndsOn b t (c :: rest)

/-- A byte that is not the last one of a part does the same as in the whole text, and it leaves what
    it `leaves` of that part. -/
theorem feed_append_of_ne_nil (b : UInt8) {p : Bytes} (hne : p ≠ []) (q : Bytes) :
    t.feed b (p ++ q).head? = t.feed b p.head? ∧ t.leaves b (p ++ q) = t.leaves b p ++ q := by
  obtain ⟨c, p, rfl⟩ := List.exists_cons_of_ne_nil hne
  refine ⟨rfl, ?_⟩
  unfold leaves
  rw [List.cons_append, List.head?_cons, List.head?_cons]
  split <;> rfl

/-- What `feed` does for the last byte of a part is the same in the whole text, if the byte does not
    heed what comes after that part. -/
theorem feed_append {b : UInt8} {p q : Bytes}
    (h : ∀ c, EndsOn c t (b :: p) → ¬ Heeds c q.head?) :
    t.feed b (p ++ q).head? = t.feed b p.head? ∧ t.leaves b (p ++ q) = t.leaves b p ++ q := by
  by_cases hnil : p = []
  · subst hnil
    have hheeds : t.pending = none → ¬ Heeds b q.head? := fun hpending => h b (.last hpending)
    rw [List.nil_append, leaves_nil]
    exact ⟨feed_of_not_heeds hheeds, leaves_of_not_heeds hheeds⟩
  · exact feed_append_of_ne_nil b hnil q

/-- **Texts compose.** A text that is cut in two is taken by `takeText` as the one part and then the
    other, if the last byte of the first part, which `EndsOn` finds, does not heed what the cut
    hides from it. -/
theorem takeText_append {p q : Bytes} (h : ∀ b, EndsOn b t p → ¬ Heeds b q.head?) :
    t.takeText (p ++ q) = (t.takeText p).takeText q := by
  -- byte by byte through the first part; the byte it ends on stays the same on the way
  fun_induction takeText t p with
  | case1 t => rfl
  | case2 t b p ih =>
    obtain ⟨hfeed, hleaves⟩ := feed_append h
    rw [List.cons_append, takeText_cons, hfeed, hleaves]
    exact ih fun c hends => h c (.head b hends)

/-- The bytes of the two parts are counted by `countText` one part after the other. -/
theorem countText_append {p q : Bytes} (h : ∀ b, EndsOn b t p → ¬ Heeds b q.head?) :
    t.countText (p ++ q) = t.countText p + (t.takeText p).countText q := by
  fun_induction takeText t p with
  | case1 t => rw [List.nil_append, countText_nil, Nat.zero_add]
  | case2 t b p ih =>
    obtain ⟨hfeed, hleaves⟩ := feed_append h
    rw [List.cons_append, countText_cons, countText_cons, hfeed, hleaves,
      ih fun c hends => h c (.head b hends)]
    omega

/-- The byte that a text `EndsOn` is its last one. -/
theorem EndsOn.getLast?_eq {b : UInt8} {text : Bytes} (h : EndsOn b t text) :
    text.getLast? = some b := by
  induction h with
  | last _ => rfl
  | @head t c rest _ ih =>
    -- what a byte leaves is an end of what there is
    have hsuffix : t.leaves c rest <:+ c :: rest := by
      unfold leaves
      split
      · exact (List.tail_suffix _).trans (List.suffix_cons _ _)
      · exact List.suffix_cons _ _
    obtain ⟨front, hfront⟩ := hsuffix
    rw [← hfront, List.getLast?_append, ih, Option.some_or]

/-- A line that is cut between its `carriageReturn` and its `lineFeed` ends all the same, but the
    two are counted as two. -/
theorem takeText_append_of_cut_line {p : Bytes} (h : EndsOn carriageReturn t p) (q : Bytes) :
    t.takeText (p ++ lineFeed :: q) = (t.takeText p).takeText (lineFeed :: q)
      ∧ t.countText (p ++ lineFeed :: q) + 1
        = t.countText p + (t.takeText p).countText (lineFeed :: q) := by
  induction h with
  | @last t hclosed =>
    have hnothing : t.feed carriageReturn none = t :=
      feed_carriageReturn hclosed (Option.some_ne_none _).symm
    have hwhole : t.leaves carriageReturn (lineFeed :: q) = q := by
      simp [leaves, skipsNext, hclosed]
    have hline : t.leaves lineFeed q = q := by
      simp [leaves, skipsNext, lineFeed, carriageReturn]
    rw [List.singleton_append, takeText_cons, countText_cons, takeText_cons carriageReturn,
      countText_cons carriageReturn, List.head?_cons, List.head?_nil,
      feed_carriageReturn_lineFeed hclosed, hnothing, hwhole, leaves_nil, takeText_nil,
      countText_nil, takeText_cons, countText_cons, feed_lineFeed hclosed, hline]
    exact ⟨rfl, by omega⟩
  | @head t c rest hends ih =>
    have hne : rest ≠ [] := by
      rintro rfl
      rw [leaves_nil] at hends
      cases hends
    obtain ⟨hfeed, hleaves⟩ := feed_append_of_ne_nil (t := t) c hne (lineFeed :: q)
    rw [List.cons_append, takeText_cons, countText_cons, hfeed, hleaves, takeText_cons c,
      countText_cons c, ih.1]
    exact ⟨rfl, by omega⟩

/-- **Streams compose.** Two files without records, on which `readToEnd` is called one after the
    other, leave the terminal that the two in one file leave, and count as many bytes, if the end of
    the first one does not heed the beginning of the second. The terminal may be in any state, and
    the first file may leave a sequence open. -/
theorem parts_eq_whole (t : Terminal) {p q : Bytes} (hp : Sauce.ofBytes? p = none)
    (hq : Sauce.ofBytes? q = none) (hpq : Sauce.ofBytes? (p ++ q) = none)
    (hcut : ∀ b, EndsOn b t p → ¬ Heeds b q.head?) :
    let first := t.readToEnd (.ofFile p)
    let second := first.terminal.readToEnd (.ofFile q)
    let whole := t.readToEnd (.ofFile (p ++ q))
    whole.terminal = second.terminal ∧ whole.consumed = first.consumed + second.consumed := by
  intro first second whole
  have hfirst : first.terminal = t.takeText p := by
    rw [terminal_readToEnd, ByteStream.rest_ofFile_of_none hp]
  have hsecond : second.terminal = (t.takeText p).takeText q := by
    rw [terminal_readToEnd, ByteStream.rest_ofFile_of_none hq, hfirst]
  constructor
  · rw [terminal_readToEnd, ByteStream.rest_ofFile_of_none hpq, hsecond]
    exact takeText_append hcut
  · show whole.consumed = first.consumed + (first.terminal.readToEnd (.ofFile q)).consumed
    rw [consumed_readToEnd, consumed_readToEnd, consumed_readToEnd, hfirst,
      ByteStream.rest_ofFile_of_none hp, ByteStream.rest_ofFile_of_none hq,
      ByteStream.rest_ofFile_of_none hpq]
    exact countText_append hcut

/-- A case of `parts_eq_whole` with a cut between a carriage return and a line feed inside of a
    sequence, where neither of them ends a line. -/
theorem parts_inside_sequence :
    let t := { Terminal.new .ordinary 4 2 4 2 with pending := some [0x33, bracket] }
    let p : Bytes := [carriageReturn]
    let q : Bytes := [lineFeed, 0x31, 0x6D, 0x42]
    (Sauce.ofBytes? p = none ∧ Sauce.ofBytes? q = none ∧ Sauce.ofBytes? (p ++ q) = none
      ∧ ∀ b, EndsOn b t p → ¬ Heeds b q.head?)
    ∧ (t.readToEnd (.ofFile (p ++ q))).terminal
        = ((t.readToEnd (.ofFile p)).terminal.readToEnd (.ofFile q)).terminal
    ∧ (t.readToEnd (.ofFile (p ++ q))).consumed
        = (t.readToEnd (.ofFile p)).consumed
          + ((t.readToEnd (.ofFile p)).terminal.readToEnd (.ofFile q)).consumed := by
  intro t p q
  have hp : Sauce.ofBytes? p = none := Sauce.ofBytes?_of_short (by decide)
  have hq : Sauce.ofBytes? q = none := Sauce.ofBytes?_of_short (by decide)
  have hpq : Sauce.ofBytes? (p ++ q) = none := Sauce.ofBytes?_of_short (by decide)
  have hcut : ∀ b, EndsOn b t p → ¬ Heeds b q.head? := by
    intro b hends
    change EndsOn b _ [carriageReturn] at hends
    rcases hends with hclosed | ⟨_, hends⟩
    · cases hclosed
    · cases hends
  exact ⟨⟨hp, hq, hpq, hcut⟩, parts_eq_whole t hp hq hpq hcut⟩

end Terminal

end TextArt
