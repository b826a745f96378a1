import TextArt.Proofs.Chunks
import TextArt.Proofs.Script

namespace TextArt

/-!
# Retouches — changes of a screen that nothing drawn later notices

To start the blink of a screen anew, say, touches nothing that a character or a command of the text
depends on.  So it makes no difference whether that is done before the text or after it.

* `Retouch` — a change of a screen that commutes with every edit; `Retouch.restart` is the one
  above;
* `Terminal.feed_retouch`, `Terminal.read_retouch` — one byte, and the bytes of one chunk.
-/

/-- A `change` of a screen that may as well be made after an edit as before it. -/
structure Retouch where
  onScreen : Screen → Screen
  edit_onScreen : ∀ (font : Font) (palette : Palette) (icecolors : Bool) (e : Edit) (s : Screen),
    e.onScreen font palette icecolors (onScreen s)
      = onScreen (e.onScreen font palette icecolors s)

namespace Retouch

variable (r : Retouch)

theorem foldr_edit_onScreen (font : Font) (palette : Palette) (icecolors : Bool)
    (edits : List Edit) (s : Screen) :
    edits.foldr (Edit.onScreen font palette icecolors) (r.onScreen s)
      = r.onScreen (edits.foldr (Edit.onScreen font palette icecolors) s) := by
  induction edits with
  | nil => rfl
  | cons e edits ih => rw [List.foldr_cons, List.foldr_cons, ih, r.edit_onScreen]

/-- The blink is started anew by `restartBlink`, as a `Retouch`. -/
def restart : Retouch where
  onScreen := Screen.restartBlink
  edit_onScreen := by
    intro font palette icecolors e s
    cases e with
    | glyph column row code pen =>
      -- drawing forgets the kept picture, and so does starting the blink anew
      show s.restartBlink.write font code (pen.look palette icecolors) column row
        = (s.write font code (pen.look palette icecolors) column row).restartBlink
      unfold Screen.write
      dsimp only
      cases (pen.look palette icecolors).masks <;> rfl
    | eraseRest column row => rfl
    | eraseAll => rfl
    | scroll => rfl

end Retouch

namespace Terminal

/-- A `Terminal` with a retouched screen. -/
def retouch (r : Retouch) (t : Terminal) : Terminal :=
  { t with screen := r.onScreen t.screen }

variable (r : Retouch) (t : Terminal)

theorem after_retouch (c : Script) : (t.retouch r).after c = (t.after c).retouch r := by
  have hscreen := r.foldr_edit_onScreen t.font t.palette t.icecolors c.edits t.screen
  exact congrArg (fun screen => { t.after c with screen }) hscreen

/-- To `feed` a byte does the same on a retouched screen. -/
theorem feed_retouch (b : UInt8) (next : Option UInt8) :
    (t.retouch r).feed b next = (t.feed b next).retouch r :=
  calc (t.retouch r).feed b next
      = ((t.retouch r).after t.script).feed b next := rfl
    _ = (t.retouch r).after (t.script.feed b next) := feed_after (t.retouch r) t.script b next
    _ = (t.after (t.script.feed b next)).retouch r := t.after_retouch r _
    _ = (t.feed b next).retouch r := by rw [← feed_eq_after]

/-- `feedScrolling` also reports the same: the count by which a scroll can be told is not on the
    screen. -/
theorem feedScrolling_retouch (b : UInt8) (next : Option UInt8) :
    (t.retouch r).feedScrolling b next
      = ((t.feedScrolling b next).1, (t.feed b next).retouch r) := by
  refine Prod.ext ?_ (t.feed_retouch r b next)
  rw [feedScrolling_fst, feedScrolling_fst, feed_retouch]
  rfl

end Terminal

namespace Reading

/-- A `Reading` with a retouched screen. -/
def retouch (r : Retouch) (reading : Reading) : Reading :=
  { reading with terminal := reading.terminal.retouch r }

variable (r : Retouch)

theorem step_retouch (reading : Reading) : (reading.retouch r).step = reading.step.retouch r := by
  obtain ⟨t, ⟨art, rest, record, hsuffix⟩, consumed, scrolled⟩ := reading
  cases rest with
  | nil => rfl
  | cons b rest =>
    let reading : Reading := ⟨t, ⟨art, b :: rest, record, hsuffix⟩, consumed, scrolled⟩
    have hfeed := t.feedScrolling_retouch r b rest.head?
    exact congrArg (fun left => { reading.step with terminal := left.2, scrolled := left.1 }) hfeed

theorem run_retouch (n : Nat) (reading : Reading) :
    run n (reading.retouch r) = (run n reading).retouch r := by
  induction n generalizing reading with
  | zero => rfl
  | succ n ih =>
    rw [run, run, apply_ite (retouch r), ← ih, ← step_retouch]
    rfl

end Reading

namespace Terminal

variable (r : Retouch) (t : Terminal) (s : ByteStream)

theorem read_retouch (max : Nat) : (t.retouch r).read s max = (t.read s max).retouch r :=
  Reading.run_retouch r max { terminal := t, stream := s }

end Terminal

end TextArt
