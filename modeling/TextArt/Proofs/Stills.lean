import TextArt.Proofs.Forms
import TextArt.Proofs.SavedCursor

namespace TextArt

/-!
# Stills — the blink is not in the picture

Without bright paper, a blinking character has the same colours on the visible raster as a steady
one.  So two terminals that are asked for the same things, but for rendition numbers that switch
the blink, have the same still picture, and differ in nothing but the blink.

* `Pen.steady`, `Recast.steady` — pens that do not blink, and scripts that are told with them;
* `Screen.still`, `Terminal.still` — a screen with nothing but its picture, and a terminal with
  such a screen, a steady pen and no open sequence;
* `Terminal.meet`, `Terminal.still_meet` — what a terminal makes of a demand, and that a demand
  makes the same of it when all that concerns the blink is left out;
* `Demand.steady?` — a demand without the numbers that switch the blink;
* `Demand.inText` — the demands of the bytes of a text;
* `Terminal.blink_unseen` — so the blink is not seen in a still picture.
-/

/-! ### Pens -/

namespace Pen

/-- The `Pen` with the blink off. -/
def steady (p : Pen) : Pen :=
  { p with blink := false }

/-- The rendition numbers that do not switch the blink, which 5 and 25 do. -/
def steadyValues (values : List Int) : List Int :=
  values.filter fun value => value ≠ 5 ∧ value ≠ 25

/-- A number that switches the blink does nothing else that `steady` would not undo. -/
theorem steady_apply_switch (p : Pen) {value : Int} (h : value = 5 ∨ value = 25) :
    (p.apply value).steady = p.steady := by
  rcases h with rfl | rfl
  · rfl
  · rfl

/-- Any other number does the same whether or not the pen blinks, so `steady` may come before or
    after it. -/
theorem steady_apply (p : Pen) {value : Int} (h : value ≠ 5 ∧ value ≠ 25) :
    (p.apply value).steady = p.steady.apply value := by
  obtain ⟨hon, hoff⟩ := h
  unfold apply
  split_ifs
  all_goals rfl

theorem steady_foldl_apply (values : List Int) (p : Pen) :
    (values.foldl apply p).steady = (steadyValues values).foldl apply p.steady := by
  induction values generalizing p with
  | nil => rfl
  | cons value values ih =>
    by_cases hsteady : value ≠ 5 ∧ value ≠ 25
    · have hkept : steadyValues (value :: values) = value :: steadyValues values :=
        List.filter_cons_of_pos (decide_eq_true hsteady)
      rw [List.foldl_cons, ih, p.steady_apply hsteady, hkept, List.foldl_cons]
    · have hswitch : value = 5 ∨ value = 25 := by omega
      have hdropped : steadyValues (value :: values) = steadyValues values :=
        List.filter_cons_of_neg (fun h => hsteady (of_decide_eq_true h))
      rw [List.foldl_cons, ih, p.steady_apply_switch hswitch, hdropped]

theorem steadyValues_steadyValues (values : List Int) :
    steadyValues (steadyValues values) = steadyValues values := by
  unfold steadyValues
  rw [List.filter_filter]
  exact congrArg (values.filter ·) (funext fun value => Bool.and_self _)

/-- Without `icecolors` the colours of a pen's `look` do not depend on the blink. -/
theorem look_steady (p : Pen) (palette : Palette) :
    (p.steady.look palette false).ink = (p.look palette false).ink
      ∧ (p.steady.look palette false).paper = (p.look palette false).paper := by
  refine ⟨rfl, ?_⟩
  show p.freeBackground.getD (palette.color (p.steady.paperIndex false))
    = p.freeBackground.getD (palette.color (p.paperIndex false))
  rw [paperIndex_of_not_icecolors, paperIndex_of_not_icecolors]
  rfl

end Pen

/-- The `Recast` with `steady` pens in place of all pens, and nothing of open sequences. -/
def Recast.steady : Recast where
  pen := Pen.steady
  values := Pen.steadyValues
  saved := id
  pending := fun _ => none
  extra := 0
  pen_onPen := by
    intro command p
    cases command with
    | rendition values => exact Pen.steady_foldl_apply values p
    | freeColor paper color => cases paper <;> rfl
    | _ => rfl
  pending_none := rfl

/-! ### Pictures -/

namespace Screen

/-- The screen with nothing but its picture: nothing blinks on it, and the picture lies on the
    masks, too. -/
def still (s : Screen) : Screen :=
  { s with
    onMask := s.visible
    offMask := s.visible
    next := .on
    shown := none
    composedLast := none }

/-- What a `Look` does to the masks is not in the `still` picture. -/
theorem still_write (s : Screen) (font : Font) (code : UInt8) (look : Look) (column row : Nat) :
    (s.write font code look column row).still
      = (s.still.draw column row (font.paint code look.ink look.paper)).still := by
  unfold write
  cases look.masks <;> rfl

end Screen

namespace Edit

variable (font : Font) (palette : Palette)

/-- An `Edit` with a steady pen makes the same picture of the `still` picture of a screen. -/
theorem still_onScreen (e : Edit) (s : Screen) :
    (e.onScreen font palette false s).still
      = ((e.withPen Pen.steady).onScreen font palette false s.still).still := by
  cases e with
  | glyph column row code pen =>
    obtain ⟨hink, hpaper⟩ := pen.look_steady palette
    show (s.write font code (pen.look palette false) column row).still
      = (s.still.write font code (pen.steady.look palette false) column row).still
    rw [Screen.still_write, Screen.still_write, hink, hpaper]
    rfl
  | eraseRest column row => rfl
  | eraseAll => rfl
  | scroll => rfl

theorem still_foldr_onScreen (edits : List Edit) (s : Screen) :
    (edits.foldr (onScreen font palette false) s).still
      = ((edits.map (withPen Pen.steady)).foldr (onScreen font palette false) s.still).still := by
  induction edits with
  | nil => rfl
  | cons e edits ih =>
    have htwice : (e.withPen Pen.steady).withPen Pen.steady = e.withPen Pen.steady := by
      cases e <;> rfl
    have hsteady := (e.withPen Pen.steady).still_onScreen font palette
      ((edits.map (withPen Pen.steady)).foldr (onScreen font palette false) s.still)
    rw [htwice] at hsteady
    rw [List.map_cons, List.foldr_cons, List.foldr_cons, still_onScreen, ih, hsteady]

end Edit

/-! ### Demands -/

namespace Terminal

variable {t u : Terminal}

/-- What a terminal makes of a `Demand`. -/
def meet (t : Terminal) : Demand → Terminal
  | .note pending => { t with pending }
  | .obey command => t.resetEscape.execute command
  | .newLine => t.newLine
  | .draw code => t.draw code

theorem meet_after (t : Terminal) (c : Script) (demand : Demand) :
    (t.after c).meet demand = t.after (c.meet demand) := by
  cases demand with
  | note pending => rfl
  | obey command => exact execute_after t { c with pending := none } command
  | newLine => exact newLine_after t c
  | draw code => exact draw_after t c code

/-- A terminal meets a `Demand` as its `script` does. -/
theorem meet_eq_after (t : Terminal) (demand : Demand) :
    t.meet demand = t.after (t.script.meet demand) :=
  meet_after t t.script demand

theorem foldl_meet_after (t : Terminal) (c : Script) (demands : List Demand) :
    demands.foldl meet (t.after c) = t.after (demands.foldl Script.meet c) := by
  induction demands generalizing c with
  | nil => rfl
  | cons demand demands ih => rw [List.foldl_cons, List.foldl_cons, meet_after, ih]

/-- The terminal with nothing but its picture, a `steady` pen and no open sequence. -/
def still (t : Terminal) : Terminal :=
  { t with
    session := { t.session with pen := t.session.pen.steady }
    pending := none
    screen := t.screen.still }

/-- Terminals that are equal when `still` have the same picture, cursors and scrolls, and their pens
    differ in nothing but the blink. -/
theorem eq_of_still_eq (h : t.still = u.still) :
    t.screen.visible = u.screen.visible ∧ t.session.cursor = u.session.cursor
      ∧ t.session.saved = u.session.saved ∧ t.scrolls = u.scrolls
      ∧ t.session.pen.steady = u.session.pen.steady := by
  have hvisible := congrArg (fun v : Terminal => v.screen.visible) h
  have hcursor := congrArg (fun v : Terminal => v.session.cursor) h
  have hsaved := congrArg (fun v : Terminal => v.session.saved) h
  have hscrolls := congrArg Terminal.scrolls h
  have hpen := congrArg (fun v : Terminal => v.session.pen) h
  exact ⟨hvisible, hcursor, hsaved, hscrolls, hpen⟩

/-- The edits of a script make the same picture with `steady` pens, which `Recast.steady` gives
    them. -/
theorem still_after (ht : t.icecolors = false) (c : Script) :
    (t.after c).still = (t.still.after (c.recast .steady)).still := by
  have hscreen : (t.after c).screen.still = (t.still.after (c.recast .steady)).screen.still := by
    show (c.edits.foldr (Edit.onScreen t.font t.palette t.icecolors) t.screen).still
      = ((c.edits.map (Edit.withPen Pen.steady)).foldr
          (Edit.onScreen t.font t.palette t.icecolors) t.screen.still).still
    rw [ht]
    exact Edit.still_foldr_onScreen t.font t.palette c.edits t.screen
  exact congrArg (fun screen => { (t.after c).still with screen }) hscreen

/-- To `meet` a demand without all that concerns the blink makes the same of a terminal without
    it. -/
theorem still_meet (ht : t.icecolors = false) (demand : Demand) :
    (t.meet demand).still = (t.still.meet (demand.recast .steady)).still := by
  have hscript : t.still.script = t.script.recast .steady := rfl
  rw [meet_eq_after, meet_eq_after, hscript, Script.meet_recast _ _ (.inl rfl)]
  exact still_after ht _

theorem icecolors_meet (t : Terminal) (demand : Demand) :
    (t.meet demand).icecolors = t.icecolors := by
  rw [meet_eq_after]
  rfl

end Terminal

namespace Demand

/-- What a `Demand` asks for apart from the blink: nothing, if it only puts bytes of a sequence
    aside or only switches the blink. -/
def steady? : Demand → Option Demand
  | note _ => none
  | obey (.rendition values) =>
    if Pen.steadyValues values = [] then none
    else some (obey (.rendition (Pen.steadyValues values)))
  | demand => some demand

theorem recast_of_steady? {demand rest : Demand} (h : demand.steady? = some rest) :
    demand.recast .steady = rest.recast .steady := by
  cases demand with
  | note pending => cases h
  | obey command =>
    -- only rendition numbers can be left out in part; leaving them out twice changes nothing more
    cases command with
    | rendition values =>
      change (if Pen.steadyValues values = [] then none
        else some (obey (.rendition (Pen.steadyValues values)))) = some rest at h
      split at h
      · cases h
      · cases h
        show obey (.rendition (Pen.steadyValues values))
          = obey (.rendition (Pen.steadyValues (Pen.steadyValues values)))
        rw [Pen.steadyValues_steadyValues]
    | _ =>
      cases h
      rfl
  | newLine =>
    cases h
    rfl
  | draw code =>
    cases h
    rfl

end Demand

namespace Terminal

variable {t u : Terminal}

/-- A demand that asks for nothing apart from the blink, as `steady?` tells, does nothing apart from
    it. -/
theorem still_meet_of_steady? {demand : Demand} (h : demand.steady? = none) :
    (t.meet demand).still = t.still := by
  cases demand with
  | note pending => rfl
  | obey command =>
    cases command with
    | rendition values =>
      -- all of the numbers switch the blink, so none of them is left
      have hnone : Pen.steadyValues values = [] := by
        by_contra hsome
        exact absurd ((if_neg hsome).symm.trans h) (Option.some_ne_none _)
      have hpen : (values.foldl Pen.apply t.session.pen).steady = t.session.pen.steady := by
        rw [Pen.steady_foldl_apply, hnone]
        rfl
      exact congrArg (fun pen => { t.still with session := { t.still.session with pen } }) hpen
    | _ => cases h
  | newLine => cases h
  | draw code => cases h

/-- Terminals that are equal when `still` are so after any demands, if those of one of them leave
    out all that `steady?` leaves out. The induction is on the demands. -/
theorem still_foldl_meet (ht : t.icecolors = false) (hu : u.icecolors = false)
    (h : t.still = u.still) (demands : List Demand) :
    (demands.foldl meet t).still = ((demands.filterMap Demand.steady?).foldl meet u).still := by
  induction demands generalizing t u with
  | nil => exact h
  | cons demand demands ih =>
    have ht' : (t.meet demand).icecolors = false := (t.icecolors_meet demand).trans ht
    -- the demand does nothing that can be seen, or both terminals meet what can be
    cases hsteady : demand.steady? with
    | none =>
      rw [List.foldl_cons, List.filterMap_cons_none hsteady]
      exact ih ht' hu ((still_meet_of_steady? hsteady).trans h)
    | some rest =>
      have hmeet : (t.meet demand).still = (u.meet rest).still := by
        rw [still_meet ht, still_meet hu, h, Demand.recast_of_steady? hsteady]
      rw [List.foldl_cons, List.filterMap_cons_some hsteady, List.foldl_cons]
      exact ih ht' ((u.icecolors_meet rest).trans hu) hmeet

end Terminal

/-! ### Texts -/

/-- The demands of the first `n` bytes of a text, a byte and the one it takes along counting as one.
    A sequence may be open before the text. -/
def Demand.inText (pending : Option Bytes) : Nat → Bytes → List Demand
  | 0, _ => []
  | _, [] => []
  | n + 1, b :: rest =>
    let demand := ofByte pending b rest.head?
    let skips := pending.isNone && b = Terminal.carriageReturn
      && rest.head? = some Terminal.lineFeed
    demand :: inText (demand.pendingAfter pending) n (if skips then rest.tail else rest)

/-- A script after `n` bytes has met the demands that `Demand.inText` finds in them. -/
theorem Script.afterBytes_eq_foldl_meet (c : Script) (n : Nat) (text : Bytes) :
    c.afterBytes n text = (Demand.inText c.pending n text).foldl meet c := by
  induction n generalizing c text with
  | zero => rfl
  | succ n ih =>
    cases text with
    | nil => exact congrArg Prod.fst (Function.iterate_fixed (f := step) rfl (n + 1))
    | cons b rest =>
      show (c.feed b rest.head?).afterBytes n (if c.skipsNext b rest.head? then rest.tail else rest)
        = _
      rw [ih, feed_eq_meet, pending_meet]
      rfl

/-- A terminal after `n` bytes of a stream has met the demands that `Demand.inText` finds in
    them. -/
theorem Reading.terminal_iterate_step_eq_foldl_meet (t : Terminal) (s : ByteStream) (n : Nat) :
    (step^[n] { terminal := t, stream := s }).terminal
      = (Demand.inText t.pending n s.rest).foldl Terminal.meet t := by
  have hmeet := t.foldl_meet_after t.script (Demand.inText t.pending n s.rest)
  rw [Terminal.after_script] at hmeet
  rw [terminal_iterate_step, Script.afterBytes_eq_foldl_meet]
  exact hmeet.symm

/-- **The blink is not in a still picture.** Let two terminals without `icecolors`, in their first
    state, meet the same demands one after the other, but for those that `steady?` leaves out:
    rendition numbers that switch the blink, and bytes put aside. Then they have the same picture,
    the same places of the cursor and as many scrolls, and their pens differ in nothing but the
    blink; this is so after every demand, as the demands may end anywhere, and the bytes of a stream
    are demands like that. Nor do the phases of the blink and the `frame` change the picture or the
    masks. -/
theorem Terminal.blink_unseen (font : Font) (palette : Palette) (honorsClear : Bool)
    (columns rows screenColumns screenRows : Nat) {demands demands' : List Demand}
    (h : demands.filterMap Demand.steady? = demands'.filterMap Demand.steady?) :
    let first := blank font palette false honorsClear columns rows screenColumns screenRows
    let t := demands.foldl meet first
    let u := demands'.foldl meet first
    (t.screen.visible = u.screen.visible
      ∧ t.session.cursor = u.session.cursor
      ∧ t.session.saved = u.session.saved
      ∧ t.scrolls = u.scrolls
      ∧ t.session.pen.steady = u.session.pen.steady)
    ∧ (∀ s n, (Reading.step^[n] { terminal := first, stream := s }).terminal
      = (Demand.inText none n s.rest).foldl meet first)
    ∧ ∀ screen : Screen, ∀ changed ∈ [screen.merge, screen.restartBlink, screen.frame.2],
      changed.visible = screen.visible ∧ ∀ phase, changed.mask phase = screen.mask phase := by
  intro first t u
  have hstill : t.still = u.still := by
    have ht := still_foldl_meet (t := first) (u := first) rfl rfl rfl demands
    have hu := still_foldl_meet (t := first) (u := first) rfl rfl rfl demands'
    rw [h] at ht
    exact ht.trans hu.symm
  refine ⟨eq_of_still_eq hstill, Reading.terminal_iterate_step_eq_foldl_meet first,
    fun screen changed hchanged => ?_⟩
  -- starting the blink anew takes back all that the three do, and touches no raster
  have hblink : changed.restartBlink = screen.restartBlink := by
    simp only [List.mem_cons, List.not_mem_nil, or_false] at hchanged
    rcases hchanged with rfl | rfl | rfl
    · exact screen.restartBlink_merge
    · rfl
    · exact screen.restartBlink_frame
  have hvisible := congrArg Screen.visible hblink
  have hmask := fun phase => congrArg (fun s : Screen => s.mask phase) hblink
  refine ⟨hvisible, fun phase => ?_⟩
  cases phase with
  | on => exact hmask .on
  | off => exact hmask .off

/-- A case of `blink_unseen`: a red character that blinks and a steady one after it, and the two
    without a switch of the blink. -/
theorem Terminal.blink_unseen_of_two_characters :
    let first := blank (.preset "80x25" .eight) .ansi false true 4 2 4 2
    let s := ByteStream.ofFile
      [0x1B, 0x5B, 0x35, 0x3B, 0x33, 0x31, 0x6D, 0x41, 0x1B, 0x5B, 0x32, 0x35, 0x6D, 0x42]
    let u := ByteStream.ofFile [0x1B, 0x5B, 0x33, 0x31, 0x6D, 0x41, 0x42]
    (Demand.inText none 14 s.rest).filterMap Demand.steady?
      = (Demand.inText none 7 u.rest).filterMap Demand.steady?
    ∧ (Reading.step^[14] { terminal := first, stream := s }).terminal.screen.visible
      = (Reading.step^[7] { terminal := first, stream := u }).terminal.screen.visible := by
  intro first s u
  have hsteady : (Demand.inText none 14 s.rest).filterMap Demand.steady?
      = (Demand.inText none 7 u.rest).filterMap Demand.steady? := by
    decide
  obtain ⟨⟨hvisible, -⟩, hdemands, -⟩ :=
    blink_unseen (.preset "80x25" .eight) .ansi true 4 2 4 2 hsteady
  rw [hdemands, hdemands]
  exact ⟨hsteady, hvisible⟩

end TextArt
