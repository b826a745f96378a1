import TextArt.Proofs.Orders

namespace TextArt

/-!
# Moves — the cursor goes the way that it is told

Each of the four moves puts the cursor at the nearest place of a range.  Whether that is the way
that the move is called depends on where the cursor was: it has to be in the range itself.  For
three of the moves the range is the whole screen, which the cursor never leaves; the range of a
move down is without the last row, to which other ways lead.

* `GoesBack`, `GoesOn` — how far a move takes a coordinate, and which way;
* `goesBack_nearest`, `goesOn_nearest` — what the nearest place of a range does, from a place in
  the range;
* `Script.inBounds_meet`, `Terminal.inBounds_serve` — no byte and no order takes the cursor off
  the screen;
* `Terminal.moves_of_orders` — the four moves, after any orders;
* `Terminal.down_from_last_row` — a move down that goes up.
-/

/-! ### Ways -/

/-- A coordinate goes from `a` to `b`, back by at most `n`, and by `n` itself where there are as
    many places before `a`. -/
def GoesBack (n a b : Nat) : Prop :=
  b ≤ a ∧ a - b ≤ n ∧ (n < a → b + n = a)

/-- A coordinate goes from `a` to `b`, on by at most `n`, and by `n` itself where there are as
    many places up to the last one. -/
def GoesOn (n last a b : Nat) : Prop :=
  a ≤ b ∧ b - a ≤ n ∧ (a + n ≤ last → b = a + n)

variable {a last : Nat}

/-- `GoesBack` ends at the first place, as `nearest` does. -/
theorem goesBack_nearest (hfirst : 1 ≤ a) (hlast : a ≤ last) (n : Nat) :
    GoesBack n a (nearest (a - n) last) := by
  have hnearest : nearest (a - n) last = max 1 (a - n) := by
    unfold nearest
    omega
  rw [hnearest]
  refine ⟨?_, ?_, fun hroom => ?_⟩ <;> omega

/-- `GoesOn` ends at the last place, as `nearest` does. -/
theorem goesOn_nearest (hfirst : 1 ≤ a) (hlast : a ≤ last) (n : Nat) :
    GoesOn n last a (nearest (a + n) last) := by
  have hnearest : nearest (a + n) last = min (a + n) last := by
    unfold nearest
    omega
  rw [hnearest]
  refine ⟨?_, ?_, fun hroom => ?_⟩ <;> omega

/-! ### The edges of the screen -/

namespace Script

variable {c : Script}

theorem inBounds_newLine (h : c.session.InBounds) : c.newLine.session.InBounds := by
  unfold newLine
  dsimp only
  split
  · exact h.toFirstColumn
  · next hlast =>
    have habove := Nat.not_le.mp (c.session.atLastRow_iff.not.mp hlast)
    exact h.toNextRow habove

theorem inBounds_draw (h : c.session.InBounds) (code : UInt8) :
    (c.draw code).session.InBounds := by
  have hdrawn : (c.drawCell code).session = c.session := rfl
  unfold draw advance
  rw [hdrawn]
  split
  · exact inBounds_newLine (c := c.drawCell code) h
  · next hlast =>
    have hroom := Nat.not_le.mp (c.session.atLastColumn_iff.not.mp hlast)
    exact h.toNextColumn hroom

theorem inBounds_execute (h : c.session.InBounds) (command : Command) :
    (c.execute command).session.InBounds := by
  cases command with
  | up n => exact Session.inBounds_up h n
  | down n => exact Session.inBounds_down h n
  | forward n =>
    -- in the last column, a new line comes before the move
    unfold execute
    dsimp only
    split
    · exact Session.inBounds_forward (inBounds_newLine h) n
    · exact Session.inBounds_forward h n
  | backward n => exact Session.inBounds_backward h n
  | position row column => exact Session.inBounds_moveTo h _ row
  | eraseDisplay mode =>
    unfold execute
    dsimp only
    split
    · exact Session.inBounds_moveTo h 1 1
    · exact h
  | saveCursor => exact Session.inBounds_save h
  | restoreCursor => exact Session.inBounds_restore h
  | freeColor paper color => cases paper <;> exact h
  | eraseLine | rendition => exact h

/-- Whatever a byte asks for, the cursors stay `InBounds`, on the screen. -/
theorem inBounds_meet (h : c.session.InBounds) (demand : Demand) :
    (c.meet demand).session.InBounds := by
  cases demand with
  | note pending => exact h
  | obey command => exact inBounds_execute (c := { c with pending := none }) h command
  | newLine => exact inBounds_newLine h
  | draw code => exact inBounds_draw h code

end Script

namespace Terminal

variable {t : Terminal}

theorem inBounds_feed (h : t.session.InBounds) (b : UInt8) (next : Option UInt8) :
    (t.feed b next).session.InBounds := by
  rw [feed_eq_after, Script.feed_eq_meet]
  exact Script.inBounds_meet (c := t.script) h _

theorem inBounds_read (h : t.session.InBounds) (s : ByteStream) (max : Nat) :
    (t.read s max).terminal.session.InBounds :=
  @Place.Takes.preserves _ _ _ (fun t => t.session.InBounds)
    (fun _ b next ht => inBounds_feed ht b next) (t.takes_read s max) h

/-- No `Order` takes a cursor off the screen. -/
theorem inBounds_serve (h : t.session.InBounds) (order : Order) :
    (t.serve order).session.InBounds := by
  cases order with
  | read tape budget => exact inBounds_read h tape.stream budget.toNat
  | execute command =>
    have hscript : t.execute command = t.after (t.script.execute command) :=
      t.execute_after t.script command
    rw [serve, hscript]
    exact Script.inBounds_execute (c := t.script) h command
  | resetEscape => exact h
  | resetPen => exact h
  | reset => exact Session.inBounds_reset h

theorem inBounds_foldl_serve (h : t.session.InBounds) (orders : List Order) :
    (orders.foldl serve t).session.InBounds := by
  induction orders generalizing t with
  | nil => exact h
  | cons order orders ih => exact ih (inBounds_serve h order)

/-! ### The four moves -/

/-- **Moves go the way that they are told, but for one.** Whatever `orders` have been given to a
    terminal of any size, on a screen of any size: a move up or left `GoesBack`, a move right that
    does not start in the last column `GoesOn`, none of them further than it is told, exactly that
    far if it can, and none touches the other coordinate. So does a move down, for which the last
    row does not count, unless it starts there and there are other rows: then it goes one row up,
    however far it is told to go. -/
theorem moves_of_orders (config : Config) (columns rows screenColumns screenRows : Nat)
    (orders : List Order) (n : Nat) :
    let t := orders.foldl serve (.new config columns rows screenColumns screenRows)
    let s := t.session
    let moved (command : Command) := (t.execute command).session.cursor
    ((moved (.up n)).x = s.cursor.x ∧ GoesBack n s.cursor.y (moved (.up n)).y)
      ∧ ((moved (.backward n)).y = s.cursor.y ∧ GoesBack n s.cursor.x (moved (.backward n)).x)
      ∧ (s.cursor.x < s.columns →
        (moved (.forward n)).y = s.cursor.y
          ∧ GoesOn n s.columns s.cursor.x (moved (.forward n)).x)
      ∧ (moved (.down n)).x = s.cursor.x
      ∧ if s.cursor.y = s.rows ∧ 2 ≤ s.rows then (moved (.down n)).y + 1 = s.cursor.y
        else GoesOn n (s.rows - 1) s.cursor.y (moved (.down n)).y := by
  intro t s moved
  have hinside : s.InBounds := inBounds_foldl_serve (Session.inBounds_new columns rows) orders
  obtain ⟨hx, hxlast, hy, hylast⟩ := hinside.1
  refine ⟨⟨rfl, goesBack_nearest hy hylast n⟩, ⟨rfl, goesBack_nearest hx hxlast n⟩,
    fun hroom => ?_, rfl, ?_⟩
  · -- away from the last column there is no new line
    have hfirst : ¬ s.atLastColumn = true :=
      s.atLastColumn_iff.not.mpr (Nat.not_le.mpr hroom)
    have hmoved : moved (.forward n) = (s.forward n).cursor := by
      have hexecute : t.execute (.forward n) = t.moveCursor (·.forward n) := by
        rw [execute_forward, if_neg hfirst]
      exact congrArg (fun t : Terminal => t.session.cursor) hexecute
    rw [hmoved]
    exact ⟨rfl, goesOn_nearest hx hxlast n⟩
  · have hdown : (moved (.down n)).y = nearest (s.cursor.y + n) (s.rows - 1) := rfl
    rw [hdown]
    split
    · -- the nearest place of the range is the row above
      next hlow =>
      unfold nearest
      omega
    · next hhigh =>
      rcases Nat.lt_or_ge s.cursor.y s.rows with habove | hlow
      · exact goesOn_nearest hy (by omega) n
      · -- in the only row there is nowhere to go
        have hone : s.rows = 1 ∧ s.cursor.y = 1 := by omega
        have hstay : nearest (s.cursor.y + n) (s.rows - 1) = 1 := by
          unfold nearest
          omega
        rw [hstay]
        refine ⟨?_, ?_, fun hroom => ?_⟩ <;> omega

/-- A case of `moves_of_orders`: a line feed leads to the last of two rows; a move down from there,
    by a row or by none, leads up. -/
theorem down_from_last_row :
    let t := [Order.read ⟨.ofFile [0x0A], by decide, []⟩ 1].foldl serve (.new .ordinary 2 2 2 2)
    ¬ t.session.cursor.y ≤ (t.execute (.down 1)).session.cursor.y
      ∧ ¬ t.session.cursor.y - (t.execute (.down 0)).session.cursor.y ≤ 0 := by
  decide +kernel

end Terminal

end TextArt
