import TextArt.Proofs.Machine.Reading

namespace TextArt

/-!
# Orders — whatever is asked of a terminal, it stays sound

A terminal is asked to read some bytes of some source, to obey a command that no source brought
along, to forget an open sequence, to take up its first pen, or to begin anew; in any order, and
with any numbers.

* `Order`, `Terminal.serve` — what can be asked of a terminal, and what it does;
* `Machine.serve` — the same with the numbers of a machine, and `Machine.serve_eq` says that it does
  not fail;
* `Terminal.safe_of_orders` — after any orders the cursors are on the screen, the pen is dim and its
  indices are in the palette, the next character has a cell, and a machine has gone through all of
  them.
-/

/-- Art that a machine can keep, being read as a `ByteStream`, and what stands behind it in its
    file. -/
structure Tape where
  stream : ByteStream
  countable : stream.length < UInt64.size
  trailer : Bytes

/-- What can be asked of a `Terminal`. -/
inductive Order where
  /-- Take up to `budget` bytes of a tape. -/
  | read (tape : Tape) (budget : UInt64)
  | execute (command : Command)
  | resetEscape
  | resetPen
  | reset

/-- What a terminal does when it is given an `Order`. -/
def Terminal.serve (t : Terminal) : Order → Terminal
  | .read tape budget => (t.read tape.stream budget.toNat).terminal
  | .execute command => t.execute command
  | .resetEscape => t.resetEscape
  | .resetPen => t.resetPen
  | .reset => t.reset

namespace Machine

/-- The `Source` of a tape. -/
def Source.ofTape (tape : Tape) : Source where
  bytes := tape.stream.art ++ tape.trailer
  size := tape.stream.length
  position := tape.stream.position

/-- The source of a tape `Shows` what is left of its stream, and nothing of its trailer. -/
theorem Source.shows_ofTape (tape : Tape) : (ofTape tape).Shows tape.stream.rest where
  size_le := by
    show tape.stream.art.length ≤ (tape.stream.art ++ tape.trailer).length
    rw [List.length_append]
    exact Nat.le_add_right _ _
  short := tape.countable
  position_le := Nat.sub_le _ _
  rest_eq := by
    show ((tape.stream.art ++ tape.trailer).take tape.stream.art.length).drop _ = _
    rw [List.take_left]
    exact (List.suffix_iff_eq_drop.mp tape.stream.rest_suffix).symm

/-- What a `Device` does when it is given an `Order`. Its count of scrolls is as large as it needs
    to be. -/
def serve (d : Device) : Order → Option Device
  | .read tape budget => do
    let p ← read (fun n => some (n + 1)) d (.ofTape tape) budget.toNat
    pure p.device
  | .execute command => do
    let (_, d) ← execute (fun n => some (n + 1)) d command
    pure d
  | .resetEscape => pure { d with pending := none }
  | .resetPen => pure { d with session := { d.session with pen := {} }, pending := none }
  | .reset => resetDevice d

variable {columns rows : Nat} {t : Terminal}

/-- No `Order` makes a `Sound` terminal fail, or unsound. -/
theorem serve_eq (h : t.Sound columns rows) (order : Order) :
    serve (.of t) order = some (.of (t.serve order)) ∧ (t.serve order).Sound columns rows := by
  cases order with
  | read tape budget =>
    -- the count of scrolls has no limit here, so reading succeeds whatever it comes to
    obtain ⟨q, hread, hq, -⟩ := read_follows h (Source.shows_ofTape tape) budget.toNat_lt
      fun k _ => (rfl : some (k + 1) = some (k + 1))
    refine ⟨?_, hq.sound⟩
    rw [serve, hread, Option.bind_eq_bind, Option.bind_some, hq.device]
    rfl
  | execute command =>
    have hreports : Reports columns rows (t.scrolls + 1)
        (execute (fun n => some (n + 1)) (.of t) command) (t.executeScrolling command) :=
      execute_reports rfl h command
    refine ⟨?_, hreports.sound⟩
    rw [serve, hreports.eq]
    rfl
  | resetEscape => exact ⟨rfl, h.withPending none⟩
  | resetPen => exact ⟨rfl, h.change ⟨rfl, rfl⟩ h.inBounds Pen.dim_initial (.refl _) rfl⟩
  | reset => exact ⟨(reset_runs h).eq, (reset_runs h).sound⟩

theorem foldlM_serve_eq (h : t.Sound columns rows) (orders : List Order) :
    orders.foldlM serve (.of t) = some (.of (orders.foldl Terminal.serve t))
      ∧ (orders.foldl Terminal.serve t).Sound columns rows := by
  induction orders generalizing t with
  | nil => exact ⟨rfl, h⟩
  | cons order orders ih =>
    obtain ⟨hserve, hsound⟩ := serve_eq h order
    rw [List.foldlM_cons, hserve, Option.bind_eq_bind, Option.bind_some]
    exact ih hsound

end Machine

namespace Terminal

/-- **A terminal is safe from its orders.** Let any `orders` be given to a terminal of one up to 512
    columns and of one up to 256 rows, one after the other: the size of its session stays; the
    cursor, and the saved one if there is one, is on the screen; the colours of the pen are from the
    dim half of the palette, so that the index of the ink, the one of the paper, with `icecolors` or
    without, and the one of the paper of a blinking cell are all in the palette; the cell in which
    the next character is drawn lies on the rasters as a whole; and `Device.serve` does all of it as
    well, with no number that a machine does not have, no range that is inverted, no colour that is
    not in the palette, and no byte that is not in a raster. -/
theorem safe_of_orders (config : Config) {columns rows : Nat}
    (hcolumns : 1 ≤ columns ∧ columns ≤ 512) (hrows : 1 ≤ rows ∧ rows ≤ 256)
    (orders : List Order) :
    let t := orders.foldl serve (.new config columns rows columns rows)
    (t.session.columns = columns ∧ t.session.rows = rows)
      ∧ (∀ c, c = t.session.cursor ∨ t.session.saved = some c →
          (1 ≤ c.x ∧ c.x ≤ columns) ∧ 1 ≤ c.y ∧ c.y ≤ rows)
      ∧ (t.session.pen.foreground ≤ 7 ∧ t.session.pen.background ≤ 7)
      ∧ (t.session.pen.indices.1 ≤ 15 ∧ t.session.pen.indices.2 ≤ 15
        ∧ t.session.pen.paperIndex t.icecolors ≤ 15 ∧ t.session.pen.indices.2 + 8 ≤ 15)
      ∧ ((t.session.cursor.x - 1) * t.screen.cellWidth + t.screen.cellWidth
          ≤ t.screen.visible.width
        ∧ (t.session.cursor.y - 1) * t.screen.cellHeight + t.screen.cellHeight
          ≤ t.screen.visible.height)
      ∧ (Machine.newDevice config columns rows).bind (orders.foldlM Machine.serve)
        = some (.of t) := by
  intro t
  have hnew := Machine.new_runs config hcolumns.1 hcolumns.2 hrows.1 hrows.2
  -- safety is that of a sound terminal, which every order of the list leaves sound
  obtain ⟨hmachine, hsound⟩ : _ ∧ t.Sound columns rows := Machine.foldlM_serve_eq hnew.sound orders
  obtain ⟨hink, hpaper⟩ := hsound.dim.indices_le
  refine ⟨hsound.session, fun c hc => ?_, hsound.dim, ⟨hink, by omega, ?_, by omega⟩,
    hsound.cell_inside, ?_⟩
  -- of the two cursors one is always there and the other perhaps, with the same bounds
  · have hcontains : t.session.Contains c := by
      rcases hc with rfl | hc
      · exact hsound.inBounds.1
      · exact hsound.inBounds.2 c hc
    obtain ⟨hx, hxlast, hy, hylast⟩ := hcontains
    exact ⟨⟨hx, hsound.session.1 ▸ hxlast⟩, hy, hsound.session.2 ▸ hylast⟩
  · exact hsound.dim.paperIndex_le t.icecolors
  · rw [hnew.eq]
    exact hmachine

/-- A case of `safe_of_orders` on a screen of one cell, where the range that a move down looks in
    ends before it begins. -/
theorem safe_of_orders_one_cell :
    (1 ≤ 1 ∧ 1 ≤ 512) ∧ (1 ≤ 1 ∧ 1 ≤ 256)
      ∧ ∃ t, (Machine.newDevice .ordinary 1 1).bind
        ([.execute (.down (2 ^ 63 - 1)), .execute .saveCursor, .execute (.up (-2 ^ 63)),
          .read ⟨⟨[0x41, 0x0A], [0x41, 0x0A], none, List.suffix_refl _⟩, by decide, []⟩ 2,
          .resetPen, .execute (.forward (2 ^ 63 - 1)), .execute .restoreCursor,
          .reset].foldlM Machine.serve)
        = some (Machine.Device.of t) :=
  ⟨⟨by decide, by decide⟩, ⟨by decide, by decide⟩, _,
    (safe_of_orders .ordinary ⟨by decide, by decide⟩ ⟨by decide, by decide⟩ _).2.2.2.2.2⟩

end Terminal

end TextArt
