import TextArt.Proofs.Demands

namespace TextArt

/-!
# Recasts — scripts that tell the same with other names

Where the cursor goes and when the screen scrolls depends neither on the pen nor on the saved
place of the cursor, and not on how often the screen has scrolled before.  So a script may be told
with these replaced, before or after a demand is met.

* `Recast` — what replaces pens, rendition numbers, saved places, open sequences and the count;
* `Script.recast`, `Demand.recast` — scripts and demands that are told with it;
* `Script.newLine_recast`, `Script.draw_recast`, `Script.execute_recast` — it does not matter when;
* `Script.meet_recast` — so a demand is met in the same way, if saved places are not replaced or it
  has nothing to do with them.
-/

/-- The `Edit` with another pen. -/
def Edit.withPen (f : Pen → Pen) : Edit → Edit
  | glyph column row code pen => glyph column row code (f pen)
  | eraseRest column row => eraseRest column row
  | eraseAll => eraseAll
  | scroll => scroll

/-- The `Command` with other rendition numbers. -/
def Command.withValues (f : List Int → List Int) : Command → Command
  | rendition values => rendition (f values)
  | command => command

/-- A command has nothing to do with the saved place of the cursor: it is neither `saveCursor` nor
    `restoreCursor`. -/
def Command.Forgetful (command : Command) : Prop :=
  command ≠ .saveCursor ∧ command ≠ .restoreCursor

/-- What replaces the parts of a `Script` that the cursor does not depend on. Rendition numbers are
    replaced by numbers that do to the other pens what they do to the pens. -/
structure Recast where
  pen : Pen → Pen
  values : List Int → List Int
  saved : Option Cursor → Option Cursor
  pending : Option Bytes → Option Bytes
  /-- The scrolls that are counted in addition. -/
  extra : Nat
  pen_onPen : ∀ (command : Command) (p : Pen),
    pen (command.onPen p) = (command.withValues values).onPen (pen p)
  pending_none : pending none = none

/-- The `Recast` with another saved place, and scrolls that are counted in addition. -/
def Recast.samePens (saved : Option Cursor → Option Cursor) (extra : Nat) : Recast where
  pen := id
  values := id
  saved := saved
  pending := id
  extra := extra
  pen_onPen := by
    intro command p
    cases command <;> rfl
  pending_none := rfl

namespace Script

variable (r : Recast) (c : Script)

/-- The `Script` with its parts replaced. -/
def recast (r : Recast) (c : Script) : Script where
  honorsClear := c.honorsClear
  session := { c.session with saved := r.saved c.session.saved, pen := r.pen c.session.pen }
  pending := r.pending c.pending
  scrolls := c.scrolls + r.extra
  edits := c.edits.map (Edit.withPen r.pen)

theorem newLine_recast : (c.recast r).newLine = c.newLine.recast r := by
  unfold newLine
  dsimp only
  by_cases hlast : c.session.atLastRow
  · have hlast' : (c.recast r).session.atLastRow := hlast
    rw [if_pos hlast, if_pos hlast']
    -- the two sides count the scroll before and after the extra ones
    let first : Script := { c with
      session := { c.session with cursor := { c.session.cursor with x := 1 } }
      edits := .scroll :: c.edits }
    exact congrArg (fun scrolls => { first.recast r with scrolls })
      (Nat.add_right_comm c.scrolls r.extra 1)
  · have hlast' : ¬ (c.recast r).session.atLastRow := hlast
    rw [if_neg hlast, if_neg hlast']
    rfl

theorem draw_recast (code : UInt8) : (c.recast r).draw code = (c.draw code).recast r := by
  unfold draw advance
  by_cases hlast : (c.drawCell code).session.atLastColumn
  · have hlast' : ((c.recast r).drawCell code).session.atLastColumn := hlast
    rw [if_pos hlast, if_pos hlast']
    exact (c.drawCell code).newLine_recast r
  · have hlast' : ¬ ((c.recast r).drawCell code).session.atLastColumn := hlast
    rw [if_neg hlast, if_neg hlast']
    rfl

/-- Every `Command` does the same to a recast script, if the saved place is not replaced or the
    command is `Forgetful` of it. -/
theorem execute_recast {command : Command} (h : r.saved = id ∨ command.Forgetful) :
    (c.recast r).execute (command.withValues r.values) = (c.execute command).recast r := by
  have hpen := r.pen_onPen command c.session.pen
  -- only `saveCursor` and `restoreCursor` ask for the place that may be replaced
  cases command with
  | forward n =>
    unfold execute Command.withValues
    dsimp only
    by_cases hlast : c.session.atLastColumn
    · have hlast' : (c.recast r).session.atLastColumn := hlast
      rw [if_pos hlast, if_pos hlast', newLine_recast]
      rfl
    · have hlast' : ¬ (c.recast r).session.atLastColumn := hlast
      rw [if_neg hlast, if_neg hlast']
      rfl
  | eraseDisplay mode =>
    unfold execute Command.withValues
    dsimp only
    by_cases hclears : (c.honorsClear && mode = 2) = true
    · have hclears' : ((c.recast r).honorsClear && mode = 2) = true := hclears
      rw [if_pos hclears, if_pos hclears']
      rfl
    · have hclears' : ¬ ((c.recast r).honorsClear && mode = 2) = true := hclears
      rw [if_neg hclears, if_neg hclears']
  | saveCursor =>
    have hsaved : r.saved = id := h.resolve_right fun hforgetful => hforgetful.1 rfl
    show ({ c.recast r with session := (c.recast r).session.save } : Script)
      = recast r { c with session := c.session.save }
    unfold recast Session.save
    rw [hsaved]
    rfl
  | restoreCursor =>
    have hsaved : r.saved = id := h.resolve_right fun hforgetful => hforgetful.2 rfl
    show ({ c.recast r with session := (c.recast r).session.restore } : Script)
      = recast r { c with session := c.session.restore }
    unfold recast Session.restore
    rw [hsaved]
    rfl
  | rendition values =>
    exact congrArg (fun pen => (c.recast r).changeSession fun s => { s with pen }) hpen.symm
  | freeColor paper color =>
    cases paper <;>
      exact congrArg (fun pen => (c.recast r).changeSession fun s => { s with pen }) hpen.symm
  | _ => rfl

end Script

/-- The `Demand` told with other parts. -/
def Demand.recast (r : Recast) : Demand → Demand
  | note pending => note (r.pending pending)
  | obey command => obey (command.withValues r.values)
  | newLine => newLine
  | draw code => draw code

/-- A `Demand` does not touch the saved place, nor ask for it. -/
def Demand.Forgetful (demand : Demand) : Prop :=
  demand ≠ .obey .saveCursor ∧ demand ≠ .obey .restoreCursor

/-- **Scripts may be recast.** To `meet` a demand is the same before and after, if the saved place
    of the cursor is not replaced or the demand is `Forgetful` of it. -/
theorem Script.meet_recast (r : Recast) (c : Script) {demand : Demand}
    (h : r.saved = id ∨ demand.Forgetful) :
    (c.recast r).meet (demand.recast r) = (c.meet demand).recast r := by
  cases demand with
  | note pending => rfl
  | obey command =>
    -- a demand for a command is as forgetful as the command
    have hcommand : r.saved = id ∨ command.Forgetful :=
      h.imp_right fun hforgetful =>
        ⟨fun hsave => hforgetful.1 (congrArg Demand.obey hsave),
          fun hrestore => hforgetful.2 (congrArg Demand.obey hrestore)⟩
    have hclosed : ({ c.recast r with pending := none } : Script)
        = recast r { c with pending := none } := by
      unfold recast
      rw [r.pending_none]
    show ({ c.recast r with pending := none } : Script).execute (command.withValues r.values) = _
    rw [hclosed, execute_recast r _ hcommand]
    rfl
  | newLine => exact c.newLine_recast r
  | draw code => exact c.draw_recast r code

/-! ### With the same pens -/

theorem Script.recast_samePens (c : Script) (saved : Option Cursor → Option Cursor)
    (extra : Nat) :
    c.recast (.samePens saved extra)
      = { c with
          session := { c.session with saved := saved c.session.saved }
          scrolls := c.scrolls + extra } := by
  have hedits : c.edits.map (Edit.withPen id) = c.edits :=
    List.map_id'' (fun e => by cases e <;> rfl) c.edits
  show ({ c with
    session := { c.session with saved := saved c.session.saved }
    scrolls := c.scrolls + extra
    edits := c.edits.map (Edit.withPen id) } : Script) = _
  rw [hedits]

theorem Demand.recast_samePens (demand : Demand) (saved : Option Cursor → Option Cursor)
    (extra : Nat) : demand.recast (.samePens saved extra) = demand := by
  cases demand with
  | obey command => cases command <;> rfl
  | _ => rfl

/-- With `Recast.samePens` a demand stays the same. -/
theorem Script.meet_recast_samePens (c : Script) {saved : Option Cursor → Option Cursor}
    {extra : Nat} {demand : Demand} (h : saved = id ∨ demand.Forgetful) :
    (c.recast (.samePens saved extra)).meet demand
      = (c.meet demand).recast (.samePens saved extra) := by
  have hmeet := meet_recast (.samePens saved extra) c h
  rwa [Demand.recast_samePens] at hmeet

end TextArt
