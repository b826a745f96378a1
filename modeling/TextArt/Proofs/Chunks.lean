import TextArt.Terminal
import Mathlib.Algebra.Order.BigOperators.Group.Finset
import Mathlib.Data.Nat.Find

namespace TextArt

open scoped BigOperators

/-!
# Chunks — a stream read in pieces is a stream read at once

A reading counts the bytes it takes and remembers whether the last one scrolled, and both
are forgotten from one chunk to the next.  What matters is its place: the terminal and the
stream it reads.

* `Place.next` — the place one byte on, which is all that `Reading.step` depends on
  (`Reading.place_step`);
* `Place.Takes` — some number of bytes lead from one place to another, and preserve what every
  byte preserves (`Place.Takes.preserves`);
* `Place.Takes.end_unique` — from one place there is one place at the end of the stream,
  and one number of bytes to get there;
* `Terminal.takes_read`, `Terminal.takes_readToEnd` — what reading does, as bytes taken;
* `Terminal.reads` — reading in chunks, which ends where reading at once does, after as many
  bytes, whatever the sizes of the chunks.
-/

/-- A `Terminal` and the `ByteStream` that it reads. -/
structure Place where
  terminal : Terminal
  stream : ByteStream

/-- Where a `Reading` is, whatever it has counted. -/
def Reading.place (r : Reading) : Place where
  terminal := r.terminal
  stream := r.stream

namespace Place

/-- A `Reading` that begins at a place. -/
def start (p : Place) : Reading where
  terminal := p.terminal
  stream := p.stream

/-- The `Place` one byte on. -/
def next (p : Place) : Place :=
  p.start.step.place

/-- The `next` place is reached when a byte is fed to the terminal with the byte after it in
    view. -/
theorem terminal_next {p : Place} {b : UInt8} {rest : Bytes} (h : p.stream.rest = b :: rest) :
    p.next.terminal = p.terminal.feed b rest.head? :=
  Reading.terminal_step (r := p.start) h

theorem rest_next {p : Place} {b : UInt8} {rest : Bytes} (h : p.stream.rest = b :: rest) :
    p.next.stream.rest = if p.terminal.skipsNext b rest.head? then rest.tail else rest :=
  Reading.rest_step (r := p.start) h

/-- A number of bytes, all of which there are, lead from one `Place` to another. -/
inductive Takes : Nat → Place → Place → Prop where
  | refl (p : Place) : Takes 0 p p
  | head {n : Nat} {p q : Place} (h : p.stream.rest ≠ []) (ht : Takes n p.next q) :
    Takes (n + 1) p q

variable {p q r : Place} {m n : Nat}

/-- No bytes lead nowhere else: `Takes 0` is equality. -/
theorem Takes.eq_of_zero (h : Takes 0 p q) : q = p := by
  cases h
  rfl

/-- Bytes after bytes: the numbers of `Takes` add up. -/
theorem Takes.trans (h₁ : Takes m p q) (h₂ : Takes n q r) : Takes (m + n) p r := by
  induction h₁ with
  | refl p => rwa [Nat.zero_add]
  | head h _ ih =>
    rw [Nat.add_right_comm]
    exact .head h (ih h₂)

/-- Every byte that is taken shortens what is left in `rest`. -/
theorem Takes.add_length_le (h : Takes n p q) :
    n + q.stream.rest.length ≤ p.stream.rest.length := by
  induction h with
  | refl p => rw [Nat.zero_add]
  | @head n p q hne _ ih =>
    have hstep : p.next.stream.rest.length < p.stream.rest.length :=
      Reading.length_rest_step (r := p.start) hne
    omega

/-- What `feed` preserves of a terminal, any number of bytes preserve. -/
theorem Takes.preserves {holds : Terminal → Prop}
    (hfeed : ∀ t b next, holds t → holds (t.feed b next)) (h : Takes n p q)
    (hp : holds p.terminal) : holds q.terminal := by
  induction h with
  | refl p => exact hp
  | @head n p q hne _ ih =>
    obtain ⟨b, rest, hrest⟩ := List.exists_cons_of_ne_nil hne
    refine ih ?_
    rw [terminal_next hrest]
    exact hfeed _ _ _ hp

/-- From one place there is one way to the end of the stream, as `next` is a function. -/
theorem Takes.end_unique (h₁ : Takes m p q) (h₂ : Takes n p r) (hq : q.stream.rest = [])
    (hr : r.stream.rest = []) : q = r ∧ m = n := by
  -- both ways begin with the same byte, as long as there is one
  induction h₁ generalizing n with
  | refl p =>
    cases h₂ with
    | refl => exact ⟨rfl, rfl⟩
    | head h _ => exact absurd hq h
  | head h _ ih =>
    cases h₂ with
    | refl => exact absurd hr h
    | head _ h₂ =>
      obtain ⟨hplace, hcount⟩ := ih h₂ hq
      exact ⟨hplace, congrArg Nat.succ hcount⟩

end Place

/-! ### What a reading takes -/

namespace Reading

/-- What `Reading.step` does to the place depends on the place alone. -/
theorem place_step (r : Reading) : r.step.place = r.place.next := by
  obtain ⟨t, ⟨art, rest, record, hsuffix⟩, consumed, scrolled⟩ := r
  cases rest <;> rfl

/-- Where bytes are left, `step` reports a scroll if the count of `scrolls` grows. -/
theorem scrolled_step_eq_decide {r : Reading} (h : r.stream.rest ≠ []) :
    r.step.scrolled = decide (r.terminal.scrolls < r.step.terminal.scrolls) := by
  obtain ⟨b, rest, hrest⟩ := List.exists_cons_of_ne_nil h
  rw [scrolled_step hrest, terminal_step hrest, Terminal.feedScrolling_fst]

/-- A `run` takes the bytes that it counts in `consumed`. -/
theorem takes_run (n : Nat) (r : Reading) :
    ∃ k, (run n r).consumed = r.consumed + k ∧ Place.Takes k r.place (run n r).place := by
  induction n generalizing r with
  | zero => exact ⟨0, rfl, .refl _⟩
  | succ n ih =>
    unfold run
    -- a run goes on unless the last byte scrolled or no byte is left
    by_cases hstop : (r.scrolled || r.stream.atEnd) = true
    · rw [if_pos hstop]
      exact ⟨0, rfl, .refl _⟩
    · rw [if_neg hstop]
      have hne : r.stream.rest ≠ [] := by
        intro hnil
        simp [ByteStream.atEnd, hnil] at hstop
      obtain ⟨k, hcount, htakes⟩ := ih r.step
      refine ⟨k + 1, ?_, .head hne ?_⟩
      · rw [hcount, consumed_step hne]
        omega
      · rw [← place_step]
        exact htakes

/-- A `run` for which there is a byte, and that may take it, counts one. -/
theorem consumed_lt_run {n : Nat} (hn : 1 ≤ n) {r : Reading} (hscrolled : r.scrolled = false)
    (hne : r.stream.rest ≠ []) : r.consumed < (run n r).consumed := by
  obtain ⟨n, rfl⟩ := Nat.exists_eq_add_of_le' hn
  have hgo : ¬ (r.scrolled || r.stream.atEnd) = true := by
    simp [hscrolled, ByteStream.atEnd, hne]
  rw [run, if_neg hgo]
  obtain ⟨k, hcount, _⟩ := takes_run n r.step
  rw [hcount, consumed_step hne]
  omega

end Reading

namespace Terminal

variable (t : Terminal) (s : ByteStream)

/-- `Terminal.read` takes the bytes that it counts. -/
theorem takes_read (max : Nat) :
    Place.Takes (t.read s max).consumed ⟨t, s⟩ (t.read s max).place := by
  obtain ⟨k, hcount, htakes⟩ := Reading.takes_run max ⟨t, s, 0, false⟩
  have hk : (t.read s max).consumed = k := hcount.trans (Nat.zero_add k)
  rw [hk]
  exact htakes

/-- `Terminal.read` takes nothing only where there is nothing to take. -/
theorem consumed_read_eq_zero_iff {max : Nat} (hmax : 1 ≤ max) :
    (t.read s max).consumed = 0 ↔ s.rest = [] := by
  constructor
  · intro hzero
    by_contra hne
    have hsome : 0 < (t.read s max).consumed :=
      Reading.consumed_lt_run (r := ⟨t, s, 0, false⟩) hmax rfl hne
    exact absurd hzero (Nat.ne_of_gt hsome)
  · intro hnil
    have hlength := t.length_rest_read s max
    rw [hnil, List.length_nil] at hlength
    omega

/-- Where `Terminal.read` takes nothing the place stays. -/
theorem place_read_of_consumed_eq_zero {max : Nat} (h : (t.read s max).consumed = 0) :
    (t.read s max).place = ⟨t, s⟩ := by
  have htakes := t.takes_read s max
  rw [h] at htakes
  exact htakes.eq_of_zero

/-- `Terminal.readOn` takes the bytes that it adds to its count, and ends where the stream does. -/
theorem takes_readOn (taken : Nat) :
    (∃ k, (t.readOn s taken).consumed = taken + k
      ∧ Place.Takes k ⟨t, s⟩ (t.readOn s taken).place)
    ∧ (t.readOn s taken).stream.rest = [] := by
  fun_induction readOn t s taken with
  | case1 t s taken r hr =>
    -- nothing was read, so the stream was at its end before
    have hplace := t.place_read_of_consumed_eq_zero s hr
    refine ⟨⟨0, rfl, ?_⟩, ?_⟩
    · show Place.Takes 0 ⟨t, s⟩ r.place
      rw [hplace]
      exact .refl _
    · show r.place.stream.rest = []
      rw [hplace]
      exact (t.consumed_read_eq_zero_iff s (by decide)).1 hr
  | case2 t s taken r hr ih =>
    -- the bytes of this reading, and then those of the next ones
    obtain ⟨⟨k, hcount, htakes⟩, hend⟩ := ih
    refine ⟨⟨r.consumed + k, ?_, (t.takes_read s unlimited).trans htakes⟩, hend⟩
    rw [hcount, Nat.add_assoc]

/-- `Terminal.readToEnd` takes all bytes, and counts them. -/
theorem takes_readToEnd :
    Place.Takes (t.readToEnd s).consumed ⟨t, s⟩ (t.readToEnd s).place := by
  obtain ⟨⟨k, hcount, htakes⟩, _⟩ := t.takes_readOn s 0
  have hk : (t.readToEnd s).consumed = k := hcount.trans (Nat.zero_add k)
  rw [hk]
  exact htakes

/-- `Terminal.readToEnd` leaves nothing in `rest`. -/
theorem rest_readToEnd : (t.readToEnd s).stream.rest = [] :=
  (t.takes_readOn s 0).2

/-! ### Chunks -/

/-- The readings of a stream in chunks, each for its own `budget` of bytes and each from where the
    one before ended. -/
def reads (budget : Nat → Nat) : Nat → Reading
  | 0 => t.read s (budget 0)
  | k + 1 => (reads budget k).terminal.read (reads budget k).stream (budget (k + 1))

/-- The chunks so far have taken the bytes that they have counted, as the sum of their
    `consumed`. -/
theorem takes_reads (budget : Nat → Nat) (k : Nat) :
    Place.Takes (∑ i ∈ Finset.range (k + 1), (t.reads s budget i).consumed) ⟨t, s⟩
      (t.reads s budget k).place := by
  induction k with
  | zero =>
    rw [Finset.sum_range_one]
    exact t.takes_read s (budget 0)
  | succ k ih =>
    rw [Finset.sum_range_succ]
    exact ih.trans (takes_read _ _ (budget (k + 1)))

/-- Some chunk of `reads` takes nothing, as every other one shortens the rest. -/
theorem exists_consumed_reads_eq_zero (budget : Nat → Nat) :
    ∃ k, (t.reads s budget k).consumed = 0 := by
  by_contra hnever
  rw [not_exists] at hnever
  -- as many chunks as there are bytes, and one more, take too much
  have hlength : ∑ i ∈ Finset.range (s.rest.length + 1), (t.reads s budget i).consumed
      ≤ s.rest.length :=
    Nat.le_of_add_right_le (t.takes_reads s budget s.rest.length).add_length_le
  have hsum : (Finset.range (s.rest.length + 1)).card
      ≤ ∑ i ∈ Finset.range (s.rest.length + 1), (t.reads s budget i).consumed := by
    rw [Finset.card_eq_sum_ones]
    exact Finset.sum_le_sum fun i _ => Nat.one_le_iff_ne_zero.2 (hnever i)
  rw [Finset.card_range] at hsum
  omega

/-- A chunk that takes nothing is one at the end of the stream, where its `budget` is at least 1. -/
theorem rest_reads_of_consumed_eq_zero {budget : Nat → Nat} (hbudget : ∀ i, 1 ≤ budget i)
    {k : Nat} (h : (t.reads s budget k).consumed = 0) : (t.reads s budget k).stream.rest = [] := by
  cases k with
  | zero =>
    have hplace := t.place_read_of_consumed_eq_zero s h
    show (t.read s (budget 0)).place.stream.rest = []
    rw [hplace]
    exact (t.consumed_read_eq_zero_iff s (hbudget 0)).1 h
  | succ k =>
    have hplace := place_read_of_consumed_eq_zero _ _ h
    show (read _ _ (budget (k + 1))).place.stream.rest = []
    rw [hplace]
    exact (consumed_read_eq_zero_iff _ _ (hbudget (k + 1))).1 h

/-- **Chunks do not matter.** Read a stream in chunks by `reads`, each `budget` being at least 1,
    from any terminal and any place of the stream, until a reading takes nothing: the terminal and
    the stream are those that `readToEnd` leaves, and so is the number of bytes. -/
theorem reads_eq_readToEnd (budget : Nat → Nat) (hbudget : ∀ i, 1 ≤ budget i) :
    ∃ n, (t.reads s budget n).consumed = 0
      ∧ (∀ k < n, (t.reads s budget k).consumed ≠ 0)
      ∧ (t.reads s budget n).terminal = (t.readToEnd s).terminal
      ∧ (t.reads s budget n).stream = (t.readToEnd s).stream
      ∧ ∑ k ∈ Finset.range (n + 1), (t.reads s budget k).consumed
        = (t.readToEnd s).consumed := by
  classical
  have hexists := t.exists_consumed_reads_eq_zero s budget
  refine ⟨Nat.find hexists, Nat.find_spec hexists, fun k hk => Nat.find_min hexists hk, ?_⟩
  obtain ⟨hplace, hcount⟩ := (t.takes_reads s budget _).end_unique (t.takes_readToEnd s)
    (t.rest_reads_of_consumed_eq_zero s hbudget (Nat.find_spec hexists)) (t.rest_readToEnd s)
  exact ⟨congrArg Place.terminal hplace, congrArg Place.stream hplace, hcount⟩

/-- A case of `reads_eq_readToEnd` with single bytes, cut inside an escape sequence and between a
    carriage return and its line feed. -/
theorem bytewise_reads_eq_readToEnd :
    let t := Terminal.new .ordinary 4 2 4 2
    let s := ByteStream.ofFile [0x1B, 0x5B, 0x35, 0x6D, 0x41, 0x0D, 0x0A, 0x42]
    (∀ _i : Nat, 1 ≤ 1)
    ∧ ∃ n, (t.reads s (fun _ => 1) n).consumed = 0
      ∧ (∀ k < n, (t.reads s (fun _ => 1) k).consumed ≠ 0)
      ∧ (t.reads s (fun _ => 1) n).terminal = (t.readToEnd s).terminal
      ∧ (t.reads s (fun _ => 1) n).stream = (t.readToEnd s).stream
      ∧ ∑ k ∈ Finset.range (n + 1), (t.reads s (fun _ => 1) k).consumed
        = (t.readToEnd s).consumed :=
  ⟨fun _ => Nat.le_refl 1, reads_eq_readToEnd _ _ (fun _ => 1) fun _ => Nat.le_refl 1⟩

end Terminal

end TextArt
