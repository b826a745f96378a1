import TextArt.Proofs.Acts

namespace TextArt

/-!
# Time — it passes alike in portions of any size

A clock that is told twice that some time is over stands where it would stand had it been
told once, unless it fires in between.  A player lets time pass up to the moment when a
clock fires, and then the rest; so it does not matter where the time is divided.

* `Ticker.after_of_isDue_eq_false`, `Ticker.soonest_after` — clocks on the way to the moment when
  the next of them fires;
* `Player.wait_wait`, `Player.tick_wait` — a wait, and a wait that ends with a tick, may be
  divided before that moment;
* `Player.advance_one_advance` — a nanosecond may be split off at the front;
* `Player.advance_advance` — and with it any time.
-/

/-! ### Clocks on their way -/

namespace Ticker

variable {clock clock' : Ticker} {time period : Nat} {pos : 0 < period}

/-- In no time nothing happens to a clock: `after 0` is the clock. -/
@[simp] theorem after_zero (clock : Ticker) : clock.after 0 period pos = clock := by
  cases clock with
  | stopped left => rfl
  | running left hleft => exact dif_pos hleft

/-- A clock that is not due has that much less time left, so `after` composes. -/
theorem after_of_isDue_eq_false (h : clock.isDue time = false) (more : Nat) :
    (clock.after time period pos).after more period pos = clock.after (time + more) period pos
      ∧ (clock.after time period pos).isDue more = clock.isDue (time + more) := by
  cases clock with
  | stopped left =>
    refine ⟨?_, rfl⟩
    show stopped (left - time - more) = stopped (left - (time + more))
    rw [Nat.sub_sub]
  | running left hleft =>
    have hlt : time < left := Nat.not_le.1 (of_decide_eq_false h)
    have hafter : (running left hleft).after time period pos
        = running (left - time) (Nat.sub_pos_of_lt hlt) := dif_pos hlt
    rw [hafter]
    constructor
    · -- what is left is used up by `more` just if it is used up by both
      by_cases hmore : more < left - time
      · have hboth : time + more < left := by omega
        simp only [after, dif_pos hmore, dif_pos hboth, Nat.sub_sub]
      · have hboth : ¬ time + more < left := by omega
        simp only [after, dif_neg hmore, dif_neg hboth]
    · show decide (left - time ≤ more) = decide (left ≤ time + more)
      rw [decide_eq_decide]
      omega

/-- The time that `soonest` gives gets shorter as it passes. -/
theorem soonest_after {next : { time : Nat // 0 < time }}
    (h : clock.soonest clock' = some next) (hlt : time < next.1) {period' : Nat}
    {pos' : 0 < period'} :
    (clock.after time period pos).soonest (clock'.after time period' pos')
      = some ⟨next.1 - time, Nat.sub_pos_of_lt hlt⟩ := by
  have hfirst : clock.isDue time = false := isDue_eq_false h hlt
  have hsecond : clock'.isDue time = false :=
    isDue_eq_false ((soonest_comm ..).symm.trans h) hlt
  -- neither of the two fires within the time
  cases clock with
  | stopped left =>
    cases clock' with
    | stopped left' => cases h
    | running left' hleft' =>
      have hlt' : time < left' := Nat.not_le.1 (of_decide_eq_false hsecond)
      cases h
      simp only [after, dif_pos hlt', soonest]
  | running left hleft =>
    have hlt₁ : time < left := Nat.not_le.1 (of_decide_eq_false hfirst)
    cases clock' with
    | stopped left' =>
      cases h
      simp only [after, dif_pos hlt₁, soonest]
    | running left' hleft' =>
      have hlt₂ : time < left' := Nat.not_le.1 (of_decide_eq_false hsecond)
      cases h
      simp only [after, dif_pos hlt₁, dif_pos hlt₂, soonest, Nat.sub_min_sub_right]

end Ticker

/-! ### Players on their way -/

namespace Player

variable {p : Player} {time : Nat} {next : { time : Nat // 0 < time }}

@[simp] theorem wait_zero (p : Player) : p.wait 0 = p := by
  simp [wait]

theorem wait_wait (hnext : p.chunkTicker.soonest p.blinkTicker = some next)
    (hlt : time < next.1) (more : Nat) : (p.wait time).wait more = p.wait (time + more) := by
  have hchunk := Ticker.isDue_eq_false hnext hlt
  have hblink := Ticker.isDue_eq_false ((Ticker.soonest_comm ..).symm.trans hnext) hlt
  simp only [wait, (Ticker.after_of_isDue_eq_false hchunk more).1,
    (Ticker.after_of_isDue_eq_false hblink more).1]

/-- A `tick` may be waited for in two parts, the first of them a `wait`. -/
theorem tick_wait (hnext : p.chunkTicker.soonest p.blinkTicker = some next)
    (hlt : time < next.1) (more : Nat) : (p.wait time).tick more = p.tick (time + more) := by
  have hchunk := Ticker.isDue_eq_false hnext hlt
  have hblink := Ticker.isDue_eq_false ((Ticker.soonest_comm ..).symm.trans hnext) hlt
  have hchunkDue : (p.wait time).chunkTicker.isDue more = p.chunkTicker.isDue (time + more) :=
    (Ticker.after_of_isDue_eq_false hchunk more).2
  have hblinkDue : (p.wait time).blinkTicker.isDue more = p.blinkTicker.isDue (time + more) :=
    (Ticker.after_of_isDue_eq_false hblink more).2
  rw [tick_eq, tick_eq, hchunkDue, hblinkDue, wait_wait hnext hlt]

/-- To `advance` by no time does nothing but that a cancelled run stops its clocks, which it would
    do later, too. -/
theorem advance_zero_advance (p : Player) (time : Nat) :
    (p.advance 0).advance time = p.advance time := by
  cases hcancelled : p.cancelled with
  | true =>
    have hhalt : p.halt.cancelled = true := hcancelled
    rw [advance_of_cancelled hcancelled, advance_of_cancelled hcancelled,
      advance_of_cancelled hhalt, halt_halt]
  | false =>
    cases hnext : p.chunkTicker.soonest p.blinkTicker with
    | none => rw [advance_of_none hcancelled hnext]
    | some next => rw [advance_of_lt hcancelled hnext next.2, wait_zero]

/-- A nanosecond may be split off at the front of an `advance`. -/
theorem advance_one_advance (p : Player) (time : Nat) :
    (p.advance 1).advance time = p.advance (1 + time) := by
  cases hcancelled : p.cancelled with
  | true =>
    have hhalt : p.halt.cancelled = true := hcancelled
    rw [advance_of_cancelled hcancelled, advance_of_cancelled hcancelled,
      advance_of_cancelled hhalt, halt_halt]
  | false =>
    cases hnext : p.chunkTicker.soonest p.blinkTicker with
    | none =>
      rw [advance_of_none hcancelled hnext, advance_of_none hcancelled hnext,
        advance_of_none hcancelled hnext]
    | some next =>
      rcases Nat.lt_or_ge 1 next.1 with hlt | hle
      · -- no clock fires within the nanosecond
        have hcancelled' : (p.wait 1).cancelled = false := hcancelled
        have hnext' : (p.wait 1).chunkTicker.soonest (p.wait 1).blinkTicker
            = some ⟨next.1 - 1, Nat.sub_pos_of_lt hlt⟩ := Ticker.soonest_after hnext hlt
        rw [advance_of_lt hcancelled hnext hlt]
        rcases Nat.lt_or_ge time (next.1 - 1) with hlater | hnow
        · rw [advance_of_lt hcancelled' hnext' hlater, wait_wait hnext hlt,
            advance_of_lt hcancelled hnext (by omega)]
        · have hwhole : 1 + (next.1 - 1) = next.1 := by omega
          have hrest : time - (next.1 - 1) = 1 + time - next.1 := by omega
          rw [advance_of_le hcancelled' hnext' hnow, tick_wait hnext hlt, hwhole, hrest,
            advance_of_le hcancelled hnext (by omega)]
      · -- a clock fires just at its end
        have hnone : 1 - next.1 = 0 := Nat.sub_eq_zero_of_le next.2
        have hrest : 1 + time - next.1 = time := by omega
        rw [advance_of_le hcancelled hnext hle, advance_of_le hcancelled hnext (by omega),
          hnone, hrest, advance_zero_advance]

/-- **Time passes alike in portions of any size.** To `advance` by two spells of time one after the
    other does to any player what one spell as long as both does: to its art, its terminal, its
    clocks, running or stopped, and to those who wait and those who have been called back, whether
    or not some of them cancel the run on the way. -/
theorem advance_advance (p : Player) (a b : Nat) :
    (p.advance a).advance b = p.advance (a + b) := by
  induction a generalizing p with
  | zero => rw [advance_zero_advance, Nat.zero_add]
  | succ a ih =>
    calc (p.advance (a + 1)).advance b
        = ((p.advance 1).advance a).advance b := by rw [advance_one_advance, Nat.add_comm 1 a]
      _ = (p.advance 1).advance (a + b) := ih (p.advance 1)
      _ = p.advance (a + 1 + b) := by rw [advance_one_advance, ← Nat.add_assoc, Nat.add_comm 1 a]

end Player

end TextArt
