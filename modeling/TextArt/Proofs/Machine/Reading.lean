import TextArt.Proofs.Chunks
import TextArt.Proofs.Machine.Device

namespace TextArt

/-!
# Readings of a machine — a file and a place in it

A machine keeps all bytes of a file, the number of those that are art, and its place among them.
It reads until some number of bytes has been taken, and again and again where it reads to the end,
which may be never.

* `Machine.Source` — a file being read; `Machine.Source.Shows` — what of it is still to come;
* `Machine.feed`, `Machine.run`, `Machine.Device.readOn` — one byte, some of them, and all;
* `Machine.Progress.Follows` — a machine has come as far as a reading of a sound terminal;
* `Machine.feed_follows`, `Machine.run_follows`, `Machine.readOn_follows` — a machine that is
  about to read as a reading is, reads what that reads and does not fail, and it comes to the end.
-/

namespace Machine

/-! ### Sources -/

/-- A file, the number of its bytes that are art, and a place among them, as a machine keeps a
    `ByteStream`. -/
structure Source where
  bytes : Bytes
  size : Nat
  position : Nat

namespace Source

/-- The next byte; the outer `Option` is a failure. -/
def peek (s : Source) : Option (Option UInt8) :=
  if s.position < s.size then do
    let b ← s.bytes[s.position]?
    pure (some b)
  else pure none

/-- Take the next byte that `peek` sees. -/
def get (s : Source) : Option (Option UInt8 × Source) := do
  match ← s.peek with
  | none => pure (none, s)
  | some b => do
    let position ← word (s.position + 1)
    pure (some b, { s with position })

/-- Take up to `n` bytes. -/
def read (s : Source) (n : Nat) : Option (Bytes × Source) := do
  let stop := min (saturatedWord (s.position + n)) s.size
  let taken ← slice s.bytes s.position stop
  pure (taken, { s with position := stop })

/-- Go to a `position` of the art. -/
def seek (s : Source) (position : Nat) : Source :=
  { s with position := min position s.size }

/-- The bytes in `rest` are what is still to come of a source, and there are not too many of
    them. -/
structure Shows (s : Source) (rest : Bytes) : Prop where
  size_le : s.size ≤ s.bytes.length
  short : s.size < UInt64.size
  position_le : s.position ≤ s.size
  rest_eq : (s.bytes.take s.size).drop s.position = rest

variable {s : Source} {rest : Bytes}

theorem Shows.length_eq (h : s.Shows rest) : rest.length = s.size - s.position := by
  rw [← h.rest_eq, List.length_drop, List.length_take, Nat.min_eq_left h.size_le]

/-- Going on by as many bytes as there are leaves what the source then `Shows`. -/
theorem Shows.goOn (h : s.Shows rest) {n : Nat} (hn : n ≤ rest.length) :
    ({ s with position := s.position + n } : Source).Shows (rest.drop n) where
  size_le := h.size_le
  short := h.short
  position_le := by
    have hlength := h.length_eq
    have hposition := h.position_le
    show s.position + n ≤ s.size
    omega
  rest_eq := by rw [← h.rest_eq, List.drop_drop]

theorem peek_eq (h : s.Shows rest) : s.peek = some rest.head? := by
  have hlength := h.length_eq
  have hnext : rest.head? = (s.bytes.take s.size)[s.position]? := by
    rw [← h.rest_eq, List.head?_drop]
  unfold peek
  split
  · next hlt =>
    have hbyte : s.position < s.bytes.length := Nat.lt_of_lt_of_le hlt h.size_le
    rw [hnext, List.getElem?_take_of_lt hlt, List.getElem?_eq_getElem hbyte]
    rfl
  · next hge =>
    have hnil : rest = [] := List.length_eq_zero_iff.mp (by omega)
    rw [hnil]
    rfl

theorem get_cons {b : UInt8} (h : s.Shows (b :: rest)) :
    s.get = some (some b, { s with position := s.position + 1 }) := by
  have hlength := h.length_eq
  have hshort := h.short
  rw [List.length_cons] at hlength
  rw [get, peek_eq h, List.head?_cons, Option.bind_eq_bind, Option.bind_some]
  dsimp only
  rw [word_eq (by omega)]
  rfl

theorem get_nil (h : s.Shows []) : s.get = some (none, s) := by
  rw [get, peek_eq h]
  rfl

/-- To `read` one byte more is to go on by it. -/
theorem read_one {b : UInt8} (h : s.Shows (b :: rest)) :
    s.read 1 = some ([b], { s with position := s.position + 1 }) := by
  have hlength := h.length_eq
  have hshort := h.short
  have hsize := h.size_le
  rw [List.length_cons] at hlength
  have hstop : min (saturatedWord (s.position + 1)) s.size = s.position + 1 := by
    unfold saturatedWord
    omega
  have htaken : (s.bytes.take (s.position + 1)).drop s.position = [b] := by
    have hone := congrArg (List.take 1) h.rest_eq
    rw [List.take_drop, List.take_take, Nat.min_eq_left (by omega)] at hone
    exact hone
  rw [read, hstop, slice_eq (Nat.le_succ _) (by omega), htaken]
  rfl

end Source

/-! ### Bytes -/

/-- A `Device` on its way through a `Source`. -/
structure Progress where
  device : Device
  source : Source
  consumed : Nat := 0
  scrolled : Bool := false

section Counting

variable (count : Nat → Option Nat)

/-- What a byte does, with its `source` in view from which it may take the next one along; also say
    whether the surface scrolled. -/
def feed (d : Device) (b : UInt8) (source : Source) : Option (Bool × Device × Source) :=
  match d.pending with
  | some sequence => do
    let (scrolled, d) ← accumulate count d sequence b
    pure (scrolled, d, source)
  | none =>
    if b = Terminal.lineFeed then do
      let (scrolled, d) ← newLine count d
      pure (scrolled, d, source)
    else if b = Terminal.carriageReturn then do
      if (← source.peek) = some Terminal.lineFeed then do
        let (_, source) ← source.read 1
        let (scrolled, d) ← newLine count d
        pure (scrolled, d, source)
      else pure (false, d, source)
    else if b = ByteStream.endMark then pure (false, d, source)
    else if b = Terminal.escape then do
      if (← source.peek) = some Terminal.bracket then
        pure (false, { d with pending := some [] }, source)
      else do
        let (scrolled, d) ← draw count d b
        pure (scrolled, d, source)
    else do
      let (scrolled, d) ← draw count d b
      pure (scrolled, d, source)

/-- Take up to some number of bytes by `feed`, but none after one that scrolls. -/
def run : Nat → Progress → Option Progress
  | 0, p => pure p
  | n + 1, p =>
    if p.scrolled then pure p
    else do
      let (taken, source) ← p.source.get
      match taken with
      | none => pure p
      | some b => do
        let consumed ← word (p.consumed + 1)
        let (scrolled, device, source) ← feed count p.device b source
        run n { device, source, consumed, scrolled }

/-- Take up to `max` bytes, ending early with one that scrolls. -/
def read (d : Device) (source : Source) (max : Nat) : Option Progress :=
  run count max { device := d, source }

/-- Read without a limit, again after every scroll, until nothing is read; `taken` bytes have been
    read before. -/
def Device.readOn (d : Device) (source : Source) (taken : Nat) :
    Option (Device × Source × Nat) := do
  let p ← read count d source Terminal.unlimited
  if p.consumed = 0 then pure (p.device, p.source, taken)
  else do
    let taken ← word (taken + p.consumed)
    p.device |>.readOn p.source taken
partial_fixpoint

end Counting

/-! ### Readings that go through -/

section Running

variable {columns rows : Nat} {count : Nat → Option Nat} {t : Terminal}

/-- **A sound terminal takes every byte**, whatever byte comes after it, and takes that one along
    where it should.  What the machine reports of it is what `Terminal.feedScrolling` reports. -/
theorem feed_follows (h : t.Sound columns rows) (hcount : count t.scrolls = some (t.scrolls + 1))
    {source : Source} {rest : Bytes} (hsource : source.Shows rest) (b : UInt8) :
    ∃ source',
      feed count (.of t) b source
        = some ((t.feedScrolling b rest.head?).1, .of (t.feed b rest.head?), source')
      ∧ source'.Shows (if t.skipsNext b rest.head? then rest.tail else rest)
      ∧ (t.feed b rest.head?).Sound columns rows
      ∧ (t.feed b rest.head?).scrolls ≤ t.scrolls + 1 := by
  -- where no byte is taken along, only the device and the report matter
  have halone : ∀ {x : Option (Bool × Device)} {y : Bool × Terminal},
      Reports columns rows (t.scrolls + 1) x y → t.skipsNext b rest.head? = false →
      ∃ source', (x.bind fun (scrolled, d) => some (scrolled, d, source))
          = some (y.1, Device.of y.2, source')
        ∧ source'.Shows (if t.skipsNext b rest.head? then rest.tail else rest)
        ∧ y.2.Sound columns rows ∧ y.2.scrolls ≤ t.scrolls + 1 := by
    intro x y hy hskips
    refine ⟨source, ?_, ?_, hy.sound, hy.scrolls⟩
    · rw [hy.eq]
      rfl
    · rw [hskips]
      exact hsource
  -- a byte that only opens a sequence, or does nothing, reports that it does not scroll
  have hquiet : ∀ u : Terminal, u.Sound columns rows → u.scrolls ≤ t.scrolls + 1 →
      Reports columns rows (t.scrolls + 1) (some (false, .of u)) (false, u) :=
    fun u hsound hscrolls => ⟨rfl, hsound, hscrolls⟩
  have hpeek := Source.peek_eq hsource
  have hnewLine := newLine_reports hcount h
  have hdraw := draw_reports hcount h b
  unfold Terminal.feed Terminal.feedScrolling feed
  rw [Device.pending_of]
  cases hpending : t.pending with
  | some sequence =>
    exact halone (accumulate_reports hcount h sequence b) (by simp [Terminal.skipsNext, hpending])
  | none =>
    dsimp only
    have hkeeps : b ≠ Terminal.carriageReturn → t.skipsNext b rest.head? = false := fun hb => by
      simp [Terminal.skipsNext, hb]
    by_cases hlineFeed : b = Terminal.lineFeed
    · rw [if_pos hlineFeed, if_pos hlineFeed]
      exact halone hnewLine (hkeeps (hlineFeed ▸ by decide))
    rw [if_neg hlineFeed, if_neg hlineFeed]
    by_cases hreturn : b = Terminal.carriageReturn
    · rw [if_pos hreturn, if_pos hreturn, hpeek, Option.bind_eq_bind, Option.bind_some]
      by_cases hnext : rest.head? = some Terminal.lineFeed
      · -- the line feed after the carriage return is taken along
        obtain ⟨rest, rfl⟩ := List.head?_eq_some_iff.mp hnext
        have hskips : t.skipsNext b (Terminal.lineFeed :: rest).head? = true := by
          simp [Terminal.skipsNext, hpending, hreturn]
        refine ⟨{ source with position := source.position + 1 }, ?_, ?_, ?_⟩
        · rw [if_pos hnext, if_pos hnext, Source.read_one hsource, Option.bind_eq_bind,
            Option.bind_some, hnewLine.eq]
          rfl
        · rw [if_pos hskips]
          exact hsource.goOn (Nat.succ_le_succ (Nat.zero_le _))
        · rw [if_pos hnext]
          exact ⟨hnewLine.sound, hnewLine.scrolls⟩
      · rw [if_neg hnext, if_neg hnext]
        exact halone (hquiet t h (Nat.le_succ _)) (by simp [Terminal.skipsNext, hnext])
    rw [if_neg hreturn, if_neg hreturn]
    by_cases hend : b = ByteStream.endMark
    · rw [if_pos hend, if_pos hend]
      exact halone (hquiet t h (Nat.le_succ _)) (hkeeps hreturn)
    rw [if_neg hend, if_neg hend]
    by_cases hescape : b = Terminal.escape
    · rw [if_pos hescape, hpeek, Option.bind_eq_bind, Option.bind_some]
      by_cases hnext : rest.head? = some Terminal.bracket
      · rw [if_pos hnext, if_pos ⟨hescape, hnext⟩]
        exact halone (hquiet _ (h.withPending (some [])) (Nat.le_succ _)) (hkeeps hreturn)
      · rw [if_neg hnext, if_neg fun hboth => hnext hboth.2]
        exact halone hdraw (hkeeps hreturn)
    · rw [if_neg hescape, if_neg fun hboth => hescape hboth.1]
      exact halone hdraw (hkeeps hreturn)

/-- A machine has come as far as a `Reading` of a `Sound` terminal. -/
structure Progress.Follows (columns rows : Nat) (p : Progress) (r : Reading) : Prop where
  device : p.device = .of r.terminal
  consumed : p.consumed = r.consumed
  scrolled : p.scrolled = r.scrolled
  source : p.source.Shows r.stream.rest
  sound : r.terminal.Sound columns rows

/-- How often a `Reading` may still scroll: every byte that it has scrolls once at most. -/
def scrollLimit (r : Reading) : Nat :=
  r.terminal.scrolls + r.stream.rest.length

/-- **A machine reads what a reading reads**: `Progress.Follows` is kept by `run`, up to any number
    of bytes that the machine can count. -/
theorem run_follows (n : Nat) {p : Progress} {r : Reading} (h : p.Follows columns rows r)
    (hconsumed : r.consumed + n < UInt64.size)
    (hcount : ∀ k < scrollLimit r, count k = some (k + 1)) :
    ∃ q, run count n p = some q ∧ q.Follows columns rows (Reading.run n r)
      ∧ scrollLimit (Reading.run n r) ≤ scrollLimit r := by
  induction n generalizing p r with
  | zero => exact ⟨p, rfl, h, Nat.le_refl _⟩
  | succ n ih =>
    have hstop : (r.scrolled || r.stream.atEnd) = true → run count (n + 1) p = some p →
        ∃ q, run count (n + 1) p = some q ∧ q.Follows columns rows (Reading.run (n + 1) r)
          ∧ scrollLimit (Reading.run (n + 1) r) ≤ scrollLimit r := fun hstop hrun => by
      rw [Reading.run, if_pos hstop]
      exact ⟨p, hrun, h, Nat.le_refl _⟩
    by_cases hscrolled : r.scrolled = true
    · refine hstop (by rw [hscrolled, Bool.true_or]) ?_
      rw [run, if_pos (h.scrolled.trans hscrolled)]
      rfl
    have hgo : ¬ p.scrolled = true := h.scrolled ▸ hscrolled
    by_cases hnil : r.stream.rest = []
    · have hsource := h.source
      rw [hnil] at hsource
      refine hstop (by rw [ByteStream.atEnd, hnil, List.isEmpty_nil, Bool.or_true]) ?_
      rw [run, if_neg hgo, Source.get_nil hsource]
      rfl
    · obtain ⟨b, rest, hrest⟩ := List.exists_cons_of_ne_nil hnil
      have hsource := h.source
      rw [hrest] at hsource
      have hlimit : scrollLimit r = r.terminal.scrolls + (rest.length + 1) := by
        rw [scrollLimit, hrest, List.length_cons]
      have hmore : ({ p.source with position := p.source.position + 1 } : Source).Shows rest :=
        hsource.goOn (Nat.succ_le_succ (Nat.zero_le _))
      obtain ⟨source, hfeed, hshows, hsound, hscrolls⟩ :=
        feed_follows h.sound (hcount r.terminal.scrolls (by omega)) hmore b
      -- the machine is where the reading is one byte on
      have hstep : Progress.Follows columns rows
          { device := .of (r.terminal.feed b rest.head?), source
            consumed := r.consumed + 1
            scrolled := (r.terminal.feedScrolling b rest.head?).1 }
          r.step :=
        { device := by rw [Reading.terminal_step hrest]
          consumed := (Reading.consumed_step hnil).symm
          scrolled := (Reading.scrolled_step hrest).symm
          source := Reading.rest_step hrest ▸ hshows
          sound := Reading.terminal_step hrest ▸ hsound }
      have hless : scrollLimit r.step ≤ scrollLimit r := by
        rw [hlimit, scrollLimit, Reading.terminal_step hrest, Reading.rest_step hrest]
        split
        · rw [List.length_tail]
          omega
        · omega
      obtain ⟨q, hrun, hq, hle⟩ := ih hstep (by rw [Reading.consumed_step hnil]; omega)
        fun k hk => hcount k (Nat.lt_of_lt_of_le hk hless)
      have hgoes : ¬ (r.scrolled || r.stream.atEnd) = true := by
        simp [hscrolled, ByteStream.atEnd, hnil]
      rw [run, if_neg hgo, Source.get_cons hsource, Reading.run, if_neg hgoes]
      refine ⟨q, ?_, hq, Nat.le_trans hle hless⟩
      rw [Option.bind_eq_bind, Option.bind_some, h.consumed, h.device]
      dsimp only
      rw [word_eq (by omega), Option.bind_eq_bind, Option.bind_some, hfeed]
      exact hrun

/-- A machine that begins to `read` follows a reading that begins. -/
theorem read_follows (h : t.Sound columns rows) {source : Source} {s : ByteStream}
    (hsource : source.Shows s.rest) {max : Nat} (hmax : max < UInt64.size)
    (hcount : ∀ k < t.scrolls + s.rest.length, count k = some (k + 1)) :
    ∃ q, read count (.of t) source max = some q ∧ q.Follows columns rows (t.read s max)
      ∧ scrollLimit (t.read s max) ≤ t.scrolls + s.rest.length :=
  run_follows max ⟨rfl, rfl, rfl, hsource, h⟩ (by rwa [Nat.zero_add]) hcount

/-- **A machine reads to the end.** By `readOn` it comes there, and on the way neither the bytes nor
    the scrolls become more than it can count. -/
theorem readOn_follows (h : t.Sound columns rows) {source : Source} {s : ByteStream}
    (hsource : source.Shows s.rest) {taken : Nat} (htaken : taken + s.rest.length < UInt64.size)
    (hcount : ∀ k < t.scrolls + s.rest.length, count k = some (k + 1)) :
    (t.readOn s taken).terminal.Sound columns rows
      ∧ ∃ source', Device.readOn count (.of t) source taken
        = some (.of (t.readOn s taken).terminal, source', (t.readOn s taken).consumed) := by
  have hmax : Terminal.unlimited < UInt64.size := by decide
  fun_induction Terminal.readOn t s taken generalizing source with
  | case1 t s taken r hr =>
    obtain ⟨q, hread, hq, -⟩ := read_follows h hsource hmax hcount
    refine ⟨hq.sound, q.source, ?_⟩
    rw [Device.readOn, hread, Option.bind_eq_bind, Option.bind_some, if_pos (hq.consumed.trans hr),
      hq.device]
    rfl
  | case2 t s taken r hr ih =>
    obtain ⟨q, hread, hq, hle⟩ := read_follows h hsource hmax hcount
    have hlength : r.stream.rest.length + r.consumed ≤ s.rest.length :=
      t.length_rest_read s Terminal.unlimited
    have hgo : ¬ q.consumed = 0 := hq.consumed ▸ hr
    obtain ⟨hsound, source', hon⟩ := ih hq.sound hq.source (by omega)
      fun k hk => hcount k (Nat.lt_of_lt_of_le hk hle)
    refine ⟨hsound, source', ?_⟩
    rw [Device.readOn, hread, Option.bind_eq_bind, Option.bind_some, if_neg hgo, hq.consumed,
      hq.device, word_eq (show taken + r.consumed < UInt64.size by omega), Option.bind_eq_bind,
      Option.bind_some]
    exact hon

end Running

end Machine

end TextArt
