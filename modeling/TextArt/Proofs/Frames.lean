import TextArt.Proofs.Forms

namespace TextArt

/-!
# Frames — a picture that is kept is the picture of now

A screen keeps its composed picture until something changes.  Whatever is asked of a screen, and
in whatever order, nobody can tell: a frame shows the visible raster of now, with the mask of the
shown phase over it.

* `Screen.Change`, `Screen.Act` — what can be asked of a screen, `Screen.answers` being what it
  answers;
* `Screen.unkept` — a screen without the picture that it keeps, which a change forgets without
  looking at it (`Screen.Change.unkept_onScreen`);
* `Screen.Fresh.foldl_after` — so a kept picture is never stale;
* `Screen.Buffered` — a screen that has a raster of its own for the frame, and a mark for when the
  raster is stale;
* `Screen.frame_of_now` — every frame of either is composed from the rasters of now.
-/

namespace Screen

/-! ### Acts -/

/-- What can change a `Screen`: one constructor for each operation that writes to a raster or to the
    blink. -/
inductive Change where
  | draw (column row : Nat) (bitmap : Array Color)
  | drawBlink (column row : Nat) (on off : Array Color)
  | stopBlink (column row : Nat)
  | clearToEndOfRow (column row : Nat)
  | clearArea (x y w h : Nat)
  | clearAll
  | scroll
  | merge
  | restartBlink
  | reset

/-- Change a `Screen`. -/
def Change.onScreen : Change → Screen → Screen
  | draw column row bitmap, s => s.draw column row bitmap
  | drawBlink column row on off, s => s.drawBlink column row on off
  | stopBlink column row, s => s.stopBlink column row
  | clearToEndOfRow column row, s => s.clearToEndOfRow column row
  | clearArea x y w h, s => s.clearArea x y w h
  | clearAll, s => s.clearAll
  | scroll, s => s.scroll
  | merge, s => s.merge
  | restartBlink, s => s.restartBlink
  | reset, s => s.reset

/-- What can be asked of a `Screen`: a change, or its frame. -/
inductive Act where
  | change (c : Change)
  | frame

/-- The screen after an `Act`. -/
def after (s : Screen) : Act → Screen
  | .change c => c.onScreen s
  | .frame => s.frame.2

/-- What an `Act` gives back. -/
inductive Answer where
  | nothing
  | phase (p : Phase)
  | picture (r : Raster)

/-- The answer of a screen to an `Act`: `merge` tells the phase that it shows, and `frame` is a
    picture. -/
def answer (s : Screen) : Act → Answer
  | .change .merge => .phase s.next
  | .change _ => .nothing
  | .frame => .picture s.frame.1

/-- The answers to some acts, one after the other. -/
def answers (s : Screen) : List Act → List Answer
  | [] => []
  | a :: acts => s.answer a :: (s.after a).answers acts

/-- Whether an `Act` is a change. -/
def Act.isChange : Act → Bool
  | change _ => true
  | frame => false

/-! ### The kept picture -/

/-- A screen without the picture that `composedLast` keeps. -/
def unkept (s : Screen) : Screen :=
  { s with composedLast := none }

variable {s u : Screen}

@[simp] theorem composed_unkept (s : Screen) : s.unkept.composed = s.composed := rfl

theorem composed_eq_of_unkept (h : s.unkept = u.unkept) : s.composed = u.composed := by
  rw [← composed_unkept s, h, composed_unkept]

/-- A `Change` keeps no picture. -/
theorem Change.unkept_onScreen (c : Change) (s : Screen) :
    (c.onScreen s).unkept = c.onScreen s := by
  cases c <;> rfl

/-- A `Change` pays no attention to a kept picture. -/
theorem Change.onScreen_unkept (c : Change) (s : Screen) : c.onScreen s.unkept = c.onScreen s := by
  cases c <;> rfl

/-- Taking the `frame` keeps a picture and does nothing else. -/
theorem unkept_frame (s : Screen) : s.frame.2.unkept = s.unkept := by
  unfold frame
  split <;> rfl

theorem fresh_new (columns rows cellWidth cellHeight : Nat) (background : Color) :
    (new columns rows cellWidth cellHeight background).Fresh := by
  intro picture hpicture
  cases hpicture

/-- No `Act` leaves a stale picture: a `Fresh` screen stays so. -/
theorem Fresh.after (h : s.Fresh) (a : Act) : (s.after a).Fresh := by
  cases a with
  | change c =>
    intro picture hpicture
    -- a change throws the kept picture away, so there is none that could be stale
    have hnone : (c.onScreen s).composedLast = none :=
      (congrArg composedLast (c.unkept_onScreen s)).symm
    cases hnone.symm.trans hpicture
  | frame =>
    intro picture hpicture
    show picture = s.frame.2.composed
    have hframe : s.frame.2.composedLast = some s.frame.1 := by
      unfold frame
      split
      · next hkept => exact hkept
      · rfl
    rw [composed_frame_snd, ← frame_fst_of_fresh h]
    exact (Option.some.inj (hframe.symm.trans hpicture)).symm

theorem Fresh.foldl_after (h : s.Fresh) (acts : List Act) : (acts.foldl Screen.after s).Fresh := by
  induction acts generalizing s with
  | nil => exact h
  | cons a acts ih => exact ih (h.after a)

/-! ### Acts without a kept picture -/

/-- Screens that are equal when `unkept` are so after any `Act`. -/
theorem unkept_after (h : s.unkept = u.unkept) (a : Act) :
    (s.after a).unkept = (u.after a).unkept := by
  cases a with
  | change c =>
    show (c.onScreen s).unkept = (c.onScreen u).unkept
    rw [← c.onScreen_unkept s, h, c.onScreen_unkept]
  | frame =>
    show s.frame.2.unkept = u.frame.2.unkept
    rw [unkept_frame, h, unkept_frame]

/-- Frames in between change nothing but the kept picture, so they can be filtered out by
    `Act.isChange`. -/
theorem unkept_foldl_after (h : s.unkept = u.unkept) (acts : List Act) :
    (acts.foldl after s).unkept = ((acts.filter Act.isChange).foldl after u).unkept := by
  induction acts generalizing s u with
  | nil => exact h
  | cons a acts ih =>
    -- a change is made on both sides, and a frame on one of them only
    cases a with
    | change c => exact ih (unkept_after h (.change c))
    | frame => exact ih ((unkept_frame s).trans h)

/-- Screens that are equal when `unkept` give the same `answers`, if no picture is stale. -/
theorem answers_eq_of_unkept (hs : s.Fresh) (hu : u.Fresh) (h : s.unkept = u.unkept)
    (acts : List Act) : s.answers acts = u.answers acts := by
  induction acts generalizing s u with
  | nil => rfl
  | cons a acts ih =>
    -- a change answers from the blink alone, and a frame is the picture composed of now
    have hanswer : s.answer a = u.answer a := by
      have hnext : s.next = u.next := by
        show s.unkept.next = u.unkept.next
        rw [h]
      cases a with
      | change c => cases c <;> simp only [answer, hnext]
      | frame =>
        show Answer.picture s.frame.1 = Answer.picture u.frame.1
        rw [frame_fst_of_fresh hs, frame_fst_of_fresh hu, composed_eq_of_unkept h]
    show s.answer a :: (s.after a).answers acts = u.answer a :: (u.after a).answers acts
    rw [hanswer, ih (hs.after a) (hu.after a) (unkept_after h a)]

/-! ### Sizes -/

theorem Even.mask (h : s.Even) (phase : Phase) : s.visible.SameSize (s.mask phase) := by
  cases phase with
  | on => exact h.onMask.symm
  | off => exact h.offMask.symm

theorem sameSize_overlay (r top : Raster) : (r.overlay top).SameSize r :=
  ⟨Raster.width_overlay .., Raster.height_overlay ..⟩

theorem sameSize_composed (s : Screen) : s.composed.SameSize s.visible := by
  unfold composed
  cases s.shown with
  | none => exact .refl _
  | some phase => exact sameSize_overlay ..

theorem Change.sameForm_onScreen (c : Change) (s : Screen) : (c.onScreen s).SameForm s := by
  have hput : ∀ (r : Raster) (x y w h : Nat) (bitmap : Array Color),
      (r.put x y w h bitmap).SameSize r := fun _ _ _ _ _ _ =>
    ⟨Raster.width_put .., Raster.height_put ..⟩
  have hclear : ∀ (r : Raster) (x y w h : Nat), (r.clear x y w h).SameSize r := fun _ _ _ _ _ =>
    ⟨Raster.width_clear .., Raster.height_clear ..⟩
  cases c with
  | draw column row bitmap => exact { SameForm.refl s with visible := hput .. }
  | drawBlink column row on off =>
    exact { SameForm.refl s with onMask := hput .., offMask := hput .. }
  | stopBlink column row => exact { SameForm.refl s with onMask := hclear .., offMask := hclear .. }
  | clearToEndOfRow column row => exact s.sameForm_clearArea ..
  | clearArea x y w h => exact s.sameForm_clearArea ..
  | clearAll => exact s.sameForm_clearArea ..
  | scroll => exact s.sameForm_scroll
  | merge => exact { SameForm.refl s with }
  | restartBlink => exact { SameForm.refl s with }
  | reset => exact s.sameForm_reset

/-- No `Act` changes the size of a raster. -/
theorem sameForm_after (s : Screen) (a : Act) : (s.after a).SameForm s := by
  cases a with
  | change c => exact c.sameForm_onScreen s
  | frame =>
    show s.frame.2.SameForm s
    unfold frame
    split
    · exact .refl s
    · exact { SameForm.refl s with }

theorem sameForm_foldl_after (s : Screen) (acts : List Act) :
    (acts.foldl after s).SameForm s := by
  induction acts generalizing s with
  | nil => exact .refl s
  | cons a acts ih => exact (ih (s.after a)).trans (s.sameForm_after a)

/-! ### A frame that is a raster of its own -/

/-- A screen that has a raster of its own for the frame, and a mark for when that raster is `stale`.
    The screen itself keeps no picture. -/
structure Buffered where
  screen : Screen
  buffer : Raster
  stale : Bool

namespace Buffered

/-- An empty screen, its frame not yet made. -/
def new (columns rows cellWidth cellHeight : Nat) (background : Color) : Buffered where
  screen := .new columns rows cellWidth cellHeight background
  buffer := .blank (extent columns cellWidth) (extent rows cellHeight)
  stale := true

/-- The `buffer` with the visible raster copied onto it, and the mask of the shown phase laid over
    that. -/
def renewed (b : Buffered) : Raster :=
  let copied := b.buffer.copy b.screen.visible
  match b.screen.shown with
  | none => copied
  | some phase => copied.overlay (b.screen.mask phase)

/-- The frame, which is `renewed` only if it is `stale`. -/
def frame (b : Buffered) : Raster × Buffered :=
  if b.stale then (b.renewed, { b with buffer := b.renewed, stale := false })
  else (b.buffer, b)

/-- The screen after an `Act`; a change marks the frame as `stale`. -/
def after (b : Buffered) : Act → Buffered
  | .change c => { b with screen := c.onScreen b.screen, stale := true }
  | .frame => b.frame.2

/-- A buffered screen and a screen that keeps its picture show the same, and the `buffer` is the
    kept picture, if there is one. -/
structure Matches (b : Buffered) (s : Screen) : Prop where
  screen_eq : b.screen = s.unkept
  kept_eq : s.composedLast = if b.stale then none else some b.buffer
  sameSize : b.buffer.SameSize s.visible

variable {b : Buffered} {s : Screen}

theorem matches_new (columns rows cellWidth cellHeight : Nat) (background : Color) :
    (new columns rows cellWidth cellHeight background).Matches
      (.new columns rows cellWidth cellHeight background) where
  screen_eq := rfl
  kept_eq := rfl
  sameSize := ⟨(Raster.width_fill ..).symm, (Raster.height_fill ..).symm⟩

namespace Matches

/-- The sizes that copying and laying over ask for are right, so the `renewed` buffer is the
    `composed` picture. -/
theorem renewed_eq (h : b.Matches s) : b.renewed = s.composed := by
  have hcopied : b.buffer.copy s.visible = s.visible := if_pos h.sameSize
  have hshown : s.unkept.shown = s.shown := rfl
  unfold renewed composed
  rw [h.screen_eq, hshown]
  cases s.shown with
  | none => exact hcopied
  | some phase => exact congrArg (Raster.overlay · (s.mask phase)) hcopied

theorem frame (h : b.Matches s) :
    b.frame.1 = s.frame.1 ∧ b.frame.2.Matches s.frame.2 := by
  have hkept := h.kept_eq
  unfold Buffered.frame Screen.frame
  -- the buffer is stale where the screen keeps nothing
  cases hstale : b.stale with
  | true =>
    rw [hstale, if_pos rfl] at hkept
    rw [hkept, if_pos rfl]
    dsimp only
    rw [h.renewed_eq]
    exact ⟨rfl, ⟨h.screen_eq, rfl, s.sameSize_composed⟩⟩
  | false =>
    rw [hstale, if_neg Bool.false_ne_true] at hkept
    rw [hkept, if_neg Bool.false_ne_true]
    exact ⟨rfl, h⟩

theorem after (h : b.Matches s) (a : Act) : (b.after a).Matches (s.after a) := by
  cases a with
  | change c =>
    have hscreen : c.onScreen b.screen = (c.onScreen s).unkept := by
      rw [h.screen_eq, c.onScreen_unkept, c.unkept_onScreen]
    exact ⟨hscreen, congrArg composedLast (c.unkept_onScreen s).symm,
      h.sameSize.trans (c.sameForm_onScreen s).visible.symm⟩
  | frame => exact h.frame.2

theorem foldl_after (h : b.Matches s) (acts : List Act) :
    (acts.foldl Buffered.after b).Matches (acts.foldl Screen.after s) := by
  induction acts generalizing b s with
  | nil => exact h
  | cons a acts ih => exact ih (h.after a)

end Matches

end Buffered

/-- **A frame is of now.** Ask anything of a `new` screen, in any order. The `frame` that it gives
    then is the visible raster of then, with the mask of the shown phase over it if a phase is
    shown; all rasters still have the size that they were made with, also the `buffer` of a
    `Buffered` screen, which gives the same frame; and had no frame been taken on the way, the
    screen would be the same but for the picture that it keeps, and would give the same
    `answers`. -/
theorem frame_of_now (columns rows cellWidth cellHeight : Nat) (background : Color)
    (acts : List Act) :
    let first := new columns rows cellWidth cellHeight background
    let blank := Raster.blank (extent columns cellWidth) (extent rows cellHeight)
    let now := acts.foldl after first
    let buffered := acts.foldl Buffered.after
      (.new columns rows cellWidth cellHeight background)
    let unframed := (acts.filter Act.isChange).foldl after first
    (now.frame.1 = now.composed
      ∧ ∀ x y, now.frame.1.pixel? x y =
        match now.shown with
        | none => now.visible.pixel? x y
        | some phase => ((now.mask phase).pixel? x y).bind fun top =>
            (now.visible.pixel? x y).map fun below => top.onto below)
    ∧ (∀ raster ∈ [now.visible, now.onMask, now.offMask, now.frame.1], raster.SameSize blank)
    ∧ (buffered.screen = now.unkept ∧ buffered.frame.1 = now.frame.1
      ∧ buffered.buffer.SameSize blank)
    ∧ unframed.unkept = now.unkept
    ∧ ∀ later, unframed.answers later = now.answers later := by
  intro first blank now buffered unframed
  have hfirst : first.Fresh := fresh_new columns rows cellWidth cellHeight background
  have hfresh : now.Fresh := hfirst.foldl_after acts
  have hunframed : unframed.Fresh := hfirst.foldl_after _
  have hunkept : now.unkept = unframed.unkept := unkept_foldl_after rfl acts
  -- one size for all rasters is needed wherever one of them is copied or laid over another
  have hform : now.SameForm first := sameForm_foldl_after first acts
  have heven : now.Even := hform.even (even_new ..)
  have hmatches : buffered.Matches now := (Buffered.matches_new ..).foldl_after acts
  have hframe : now.frame.1 = now.composed := frame_fst_of_fresh hfresh
  have hsize : now.visible.SameSize blank :=
    hform.visible.trans ⟨Raster.width_fill .., Raster.height_fill ..⟩
  refine ⟨⟨hframe, fun x y => ?_⟩, ?_, ?_, hunkept.symm, fun later => ?_⟩
  · rw [hframe, composed]
    cases now.shown with
    | none => rfl
    | some phase => exact now.visible.pixel?_overlay (heven.mask phase) x y
  · intro raster hraster
    simp only [List.mem_cons, List.not_mem_nil, or_false] at hraster
    rcases hraster with rfl | rfl | rfl | rfl
    · exact hsize
    · exact heven.onMask.trans hsize
    · exact heven.offMask.trans hsize
    · rw [hframe]
      exact now.sameSize_composed.trans hsize
  · exact ⟨hmatches.screen_eq, hmatches.frame.1, hmatches.sameSize.trans hsize⟩
  · exact answers_eq_of_unkept hunframed hfresh hunkept.symm later

end Screen

end TextArt
