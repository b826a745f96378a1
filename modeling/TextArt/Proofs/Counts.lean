import TextArt.Proofs.Calendar
import TextArt.Proofs.Page
import TextArt.Proofs.SavedCursor
import Mathlib.Data.Nat.Count

namespace TextArt

open scoped BigOperators

/-!
# Counts — what a reading reports, and where it leaves the stream

A reading reports how many bytes it has taken and whether the last one scrolled.  A line feed
that is taken along with the carriage return before it is not counted, and a byte scrolls at
most once; so the two reports say how far the stream has moved on and how far the screen has.

* `Place.AtPair` — a carriage return and a line feed come next, to be taken as one;
* `Place.pairs` — how many of the next bytes are such pairs;
* `Place.position_next` — a byte moves the stream by one, and a pair by two;
* `Place.Takes.position_eq` — so some bytes move it by their number and by that of the pairs;
* `Reading.scrolls_run` — a reading scrolls it once if it says so, and never otherwise;
* `Terminal.accounts_read` — the reports of a bounded reading, and of reading to the end.
-/

/-! ### Pairs -/

namespace ByteStream

variable (s : ByteStream)

theorem atEnd_iff : s.atEnd = true ↔ s.rest = [] :=
  List.isEmpty_iff

/-- What has been read of the art, which is `position` bytes, and what is left of it in `rest` are
    the art. -/
theorem position_add_length : s.position + s.rest.length = s.art.length :=
  Nat.sub_add_cancel s.rest_suffix.length_le

end ByteStream

namespace Place

/-- A carriage return and a line feed come next, and no sequence is open that would take them as its
    own bytes. -/
def AtPair (p : Place) : Prop :=
  p.terminal.pending = none
    ∧ [Terminal.carriageReturn, Terminal.lineFeed] <+: p.stream.rest

instance : DecidablePred AtPair := fun _ => inferInstanceAs (Decidable (_ ∧ _))

/-- The pairs among the next `n` bytes, when a pair counts as one of them. -/
def pairs (p : Place) (n : Nat) : Nat :=
  Nat.count (fun i => (next^[i] p).AtPair) n

variable {p q : Place} {n : Nat}

/-- The `pairs` of some bytes are the first one, if it is `AtPair`, and those of the others. -/
theorem pairs_succ (p : Place) (n : Nat) :
    p.pairs (n + 1) = p.next.pairs n + if p.AtPair then 1 else 0 :=
  Nat.count_succ' (fun i => (next^[i] p).AtPair) n

/-- A byte takes the next one along, as `skipsNext` tells, exactly at a pair. -/
theorem atPair_iff {b : UInt8} {rest : Bytes} (h : p.stream.rest = b :: rest) :
    p.AtPair ↔ p.terminal.skipsNext b rest.head? = true := by
  have hprefix : [Terminal.carriageReturn, Terminal.lineFeed] <+: b :: rest
      ↔ b = Terminal.carriageReturn ∧ rest.head? = some Terminal.lineFeed := by
    rw [List.cons_prefix_cons, List.head?_eq_some_iff, eq_comm]
    exact and_congr_right fun _ =>
      ⟨fun ⟨later, hlater⟩ => ⟨later, hlater.symm⟩, fun ⟨later, hlater⟩ => ⟨later, hlater.symm⟩⟩
  rw [AtPair, h, hprefix, Terminal.skipsNext_iff]

/-- A byte moves the `position` by one, and a pair by two. -/
theorem position_next (h : p.stream.rest ≠ []) :
    p.next.stream.position = p.stream.position + if p.AtPair then 2 else 1 := by
  obtain ⟨b, rest, hrest⟩ := List.exists_cons_of_ne_nil h
  have hbefore := p.stream.position_add_length
  have hafter := p.next.stream.position_add_length
  rw [rest_next hrest, art_next] at hafter
  rw [hrest, List.length_cons] at hbefore
  by_cases hpair : p.AtPair
  · have hskips := (atPair_iff hrest).mp hpair
    -- the line feed of the pair is there to be taken
    have hfeed : rest ≠ [] := by
      intro hnil
      have hnext := (Terminal.skipsNext_iff.mp hskips).2.2
      rw [hnil] at hnext
      exact absurd hnext (Option.some_ne_none _).symm
    have hlength := List.length_pos_iff.mpr hfeed
    rw [if_pos hskips, List.length_tail] at hafter
    rw [if_pos hpair]
    omega
  · rw [if_neg (fun hskips => hpair ((atPair_iff hrest).mpr hskips))] at hafter
    rw [if_neg hpair]
    omega

namespace Takes

/-- Some bytes lead where as many times `next` does. -/
theorem eq_iterate (h : Takes n p q) : q = next^[n] p := by
  induction h with
  | refl p => rfl
  | head _ _ ih => exact ih

/-- Before each of some bytes that are taken, there is a byte left in `rest`. -/
theorem rest_ne_nil (h : Takes n p q) {i : Nat} (hi : i < n) :
    (next^[i] p).stream.rest ≠ [] := by
  induction h generalizing i with
  | refl p => exact absurd hi (Nat.not_lt_zero i)
  | head hne _ ih =>
    cases i with
    | zero => exact hne
    | succ i => exact ih (Nat.lt_of_succ_lt_succ hi)

/-- Some bytes move the `position` by their number and by that of the `pairs` among them. -/
theorem position_eq (h : Takes n p q) :
    q.stream.position = p.stream.position + n + p.pairs n := by
  induction h with
  | refl p => rfl
  | @head n p q hne _ ih =>
    rw [ih, position_next hne, pairs_succ]
    split <;> omega

/-- The bytes to the end of a stream are those that are left of it, without the line feeds of the
    `pairs`. -/
theorem add_pairs_eq_length (h : Takes n p q) (hend : q.stream.rest = []) :
    n + p.pairs n = p.stream.rest.length := by
  have hart : q.stream.art = p.stream.art := by
    clear hend
    induction h with
    | refl p => rfl
    | @head n p q _ _ ih => rw [ih, art_next]
  have hbefore := p.stream.position_add_length
  have hafter := q.stream.position_add_length
  rw [hend, h.position_eq, hart] at hafter
  have hnone : ([] : Bytes).length = 0 := rfl
  omega

end Takes

end Place

/-! ### Scrolls -/

namespace Reading

/-- A byte scrolls the screen once if `step` reports it, and not otherwise. -/
theorem scrolls_step {r : Reading} (h : r.stream.rest ≠ []) :
    r.step.terminal.scrolls = r.terminal.scrolls + if r.step.scrolled then 1 else 0 := by
  obtain ⟨b, rest, hrest⟩ := List.exists_cons_of_ne_nil h
  rw [scrolled_step hrest, terminal_step hrest, Terminal.scrolls_feed, Bool.toNat, Bool.cond_eq_ite]

/-- A `run` ends with the first byte that scrolls, so it scrolls once or not at all. -/
theorem scrolls_run (n : Nat) {r : Reading} (h : r.scrolled = false) :
    (run n r).terminal.scrolls
      = r.terminal.scrolls + if (run n r).scrolled then 1 else 0 := by
  induction n generalizing r with
  | zero =>
    rw [run, h]
    rfl
  | succ n ih =>
    -- as nothing has scrolled yet, only the end of the stream keeps the run from its next byte
    rw [run, h, Bool.false_or]
    by_cases hend : r.stream.atEnd = true
    · rw [if_pos hend, h]
      rfl
    · rw [if_neg hend]
      have hne : r.stream.rest ≠ [] := by
        intro hnil
        simp [ByteStream.atEnd, hnil] at hend
      have hstep := scrolls_step hne
      cases hscrolled : r.step.scrolled with
      | false =>
        rw [hscrolled] at hstep
        rw [ih hscrolled, hstep]
        rfl
      | true =>
        -- the run is over
        have hover : run n r.step = r.step := by
          cases n with
          | zero => rfl
          | succ n => rw [run, hscrolled, Bool.true_or, if_pos rfl]
        rw [hover, hstep]

/-- A `run` takes no more bytes than it may. -/
theorem consumed_run_le (n : Nat) (r : Reading) : (run n r).consumed ≤ r.consumed + n := by
  induction n generalizing r with
  | zero => exact Nat.le_refl _
  | succ n ih =>
    rw [run]
    by_cases hstop : (r.scrolled || r.stream.atEnd) = true
    · rw [if_pos hstop]
      exact Nat.le_add_right _ _
    · rw [if_neg hstop]
      have hne : r.stream.rest ≠ [] := by
        intro hnil
        simp [ByteStream.atEnd, hnil] at hstop
      have hlater := ih r.step
      rw [consumed_step hne] at hlater
      omega

end Reading

/-! ### Reports -/

namespace Terminal

variable (t : Terminal) (s : ByteStream)

/-- The reports of one reading: how many bytes it has `consumed`, which of them were pairs, whether
    the last one `scrolled`, and why there are no more. -/
structure Accounts (max : Nat) (r : Reading) : Prop where
  consumed_le : r.consumed ≤ max
  consumed_eq_zero_iff : r.consumed = 0 ↔ max = 0 ∨ s.atEnd = true
  /-- The reading ends where `consumed` single bytes lead. -/
  place_eq : r.place = Place.next^[r.consumed] ⟨t, s⟩
  /-- None of the bytes ends between the two of a pair. -/
  unsplit : ∀ i < r.consumed,
    (Place.next^[i + 1] ⟨t, s⟩).stream.position
      = (Place.next^[i] ⟨t, s⟩).stream.position
        + if (Place.next^[i] ⟨t, s⟩).AtPair then 2 else 1
  position_eq : r.stream.position = s.position + r.consumed + Place.pairs ⟨t, s⟩ r.consumed
  scrolls_eq : r.terminal.scrolls = t.scrolls + if r.scrolled then 1 else 0
  atEnd : r.consumed < max → r.scrolled = false → r.stream.atEnd = true

/-- The reports of a bounded `read` are true; the cases are those of the run that it is. -/
theorem accounts (max : Nat) : t.Accounts s max (t.read s max) := by
  have htakes := t.takes_read s max
  have hmost : (t.read s max).consumed ≤ max := by
    have hrun := Reading.consumed_run_le max { terminal := t, stream := s }
    rwa [Nat.zero_add] at hrun
  have hposition := htakes.position_eq
  exact
    { consumed_le := hmost
      consumed_eq_zero_iff := by
        rw [s.atEnd_iff]
        rcases Nat.eq_zero_or_pos max with rfl | hmax
        · exact ⟨fun _ => .inl rfl, fun _ => Nat.le_zero.mp hmost⟩
        · rw [t.consumed_read_eq_zero_iff s hmax]
          exact ⟨.inr, fun h => h.resolve_left (Nat.ne_of_gt hmax)⟩
      place_eq := htakes.eq_iterate
      unsplit := by
        intro i hi
        rw [Function.iterate_succ_apply']
        exact Place.position_next (htakes.rest_ne_nil hi)
      position_eq := hposition
      scrolls_eq := Reading.scrolls_run max rfl
      atEnd := by
        intro hfew hstill
        have hfull := Reading.full_or_ended max { terminal := t, stream := s }
        rw [Nat.zero_add] at hfull
        rcases hfull with hall | hscrolled | hend
        · exact absurd hall (Nat.ne_of_lt hfew)
        · exact absurd hscrolled (Bool.eq_false_iff.mp hstill)
        · exact hend }

/-- **A reading accounts for its bytes.**  From any terminal and any place of a stream, a reading
    of at most `max` bytes takes no more, and none exactly if it may take none or there is none;
    it moves the stream by the bytes that it counts and by the line feeds that pairs take along,
    and never splits a pair; it scrolls once if it says so and never otherwise; and it takes fewer
    bytes than it may only for a scroll or at the end of the stream.

    So reading on without a limit comes to a reading that takes nothing, at the end of the stream;
    what the readings before have taken is all that was left, without the line feeds of pairs. -/
theorem accounts_read :
    (∀ max, t.Accounts s max (t.read s max))
    ∧ (∃ n, (t.reads s (fun _ => unlimited) n).consumed = 0
      ∧ (∀ k < n, (t.reads s (fun _ => unlimited) k).consumed ≠ 0)
      ∧ (t.readToEnd s).place = (t.reads s (fun _ => unlimited) n).place
      ∧ (t.readToEnd s).consumed
        = ∑ k ∈ Finset.range n, (t.reads s (fun _ => unlimited) k).consumed)
    ∧ (t.readToEnd s).stream.atEnd = true
    ∧ (t.readToEnd s).consumed
      = s.rest.length - Place.pairs ⟨t, s⟩ (t.readToEnd s).consumed
    ∧ Place.pairs ⟨t, s⟩ (t.readToEnd s).consumed ≤ s.rest.length := by
  classical
  have hlength : (t.readToEnd s).consumed + Place.pairs ⟨t, s⟩ (t.readToEnd s).consumed
      = s.rest.length :=
    (t.takes_readToEnd s).add_pairs_eq_length (t.rest_readToEnd s)
  refine ⟨t.accounts s, ?_, (ByteStream.atEnd_iff _).mpr (t.rest_readToEnd s), by omega, by omega⟩
  have hexists := t.exists_consumed_reads_eq_zero s fun _ => unlimited
  have hnone := Nat.find_spec hexists
  have hend := t.rest_reads_of_consumed_eq_zero s (fun _ => by decide) hnone
  -- the two ways to the end of the stream are the same, and the last reading adds nothing
  obtain ⟨hplace, hcount⟩ := (t.takes_readToEnd s).end_unique
    (t.takes_reads s (fun _ => unlimited) _) (t.rest_readToEnd s) hend
  rw [Finset.sum_range_succ, hnone, Nat.add_zero] at hcount
  exact ⟨Nat.find hexists, hnone, fun k hk => Nat.find_min hexists hk, hplace, hcount⟩

/-- A pair counts as one byte, but in an open sequence its bytes are not `AtPair`. -/
example :
    (Place.mk (.new .ordinary 4 2 4 2)
      (.ofFile [0x0D, 0x0A, 0x1B, 0x5B, 0x0D, 0x0A])).pairs 5 = 1 := by
  decide +kernel

end Terminal

end TextArt
