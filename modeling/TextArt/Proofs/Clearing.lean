import TextArt.Proofs.Calendar
import TextArt.Proofs.Forms
import TextArt.Proofs.Tokens

namespace TextArt

/-!
# Clearing — a text that is forgotten

Two sequences, one that clears the screen and one that takes up the first pen, leave nothing of
what a text has done before them but the saved place of the cursor and the count of scrolls.  So
a text after them is drawn as if it stood alone, if it does not ask for that place.

* `Terminal.clearing` — the two sequences; `Terminal.takeText_clearing` is what they do;
* `Terminal.clear_eq` — a terminal that takes them is in its first state again, but for the saved
  place and the count;
* `Terminal.counting`, `Terminal.takeText_counting` — a terminal that has counted more scrolls, to
  which a text does the same;
* `Terminal.unsaved_takeText` — a text that saves a place first does the same whatever is saved;
* `Terminal.readToEnd_of_cleared` — so what comes before the two sequences is forgotten.
-/

namespace Terminal

/-! ### The two sequences -/

/-- The sequences that clear the screen and take up the first pen. -/
def clearing : Bytes :=
  [escape, bracket, 0x32, 0x4A, escape, bracket, 0x30, 0x6D]

variable {t u : Terminal}

/-- The two sequences of `clearing` are two commands, `eraseDisplay` and `rendition`. -/
theorem takeText_clearing (hclosed : t.pending = none) :
    t.takeText clearing = (t.execute (.eraseDisplay 2)).execute (.rendition [0]) := by
  have htwo : isLetter 0x32 = false := by decide
  have hzero : isLetter 0x30 = false := by decide
  -- the two sequences are two tokens, so that what they do is what the tokens do
  have hspells : Token.Spells [.command [0x32] 0x4A, .command [0x30] 0x6D] clearing :=
    .cons ⟨List.forall_mem_singleton.mpr htwo, rfl⟩
      (.cons ⟨List.forall_mem_singleton.mpr hzero, rfl⟩ .nil)
  have hscreen : Command.parse? [bracket, 0x32, 0x4A] = some (.eraseDisplay 2) := by decide
  have hpen : Command.parse? [bracket, 0x30, 0x6D] = some (.rendition [0]) := by decide
  have hobey : [Token.command [0x32] 0x4A, Token.command [0x30] 0x6D].foldl obey t
      = (t.execute (.eraseDisplay 2)).execute (.rendition [0]) := by
    show ((t.obey (.command [0x32] 0x4A)).obey (.command [0x30] 0x6D)) = _
    simp only [obey, List.singleton_append, hscreen, hpen]
  have hkept : ((t.obey (.command [0x32] 0x4A)).obey (.command [0x30] 0x6D)).pending = none := by
    rw [pending_obey, pending_obey, hclosed]
  rw [takeText_of_spells hspells hclosed, ← hobey]
  show { (t.obey (.command [0x32] 0x4A)).obey (.command [0x30] 0x6D) with pending := none } = _
  rw [← hkept]
  rfl

/-- A terminal of the `SameForm` as a blank one that takes the two sequences is blank again, but for
    the saved place of the cursor, the open sequence and the count of scrolls. -/
theorem clear_eq (h : t.SameForm u) (heven : u.screen.Even) (hhonors : t.honorsClear = true)
    (hblink : t.screen.blinkState = (none, .on)) :
    (t.execute (.eraseDisplay 2)).execute (.rendition [0])
      = { u.reset with
          session := { u.reset.session with saved := t.session.saved }
          pending := t.pending
          scrolls := t.scrolls } := by
  have hscreen : t.screen.clearAll = t.screen.reset := by
    have hshown : t.screen.shown = none := congrArg Prod.fst hblink
    have hnext : t.screen.next = .on := congrArg Prod.snd hblink
    show { t.screen.reset with next := t.screen.next, shown := t.screen.shown } = t.screen.reset
    rw [hshown, hnext]
    rfl
  have hcursor : t.session.moveTo 1 1 = { t.session with cursor := {} } := by
    have hone : ∀ high, nearest 1 high = 1 := by
      intro high
      unfold nearest
      omega
    unfold Session.moveTo
    rw [hone, hone]
  have hcleared : t.execute (.eraseDisplay 2)
      = { t with session := t.session.moveTo 1 1, screen := t.screen.clearAll } := by
    rw [execute_eraseDisplay, hhonors]
    rfl
  have hreset := h.reset_eq heven
  rw [hcleared, hcursor, hscreen]
  show { t.reset with pending := t.pending, scrolls := t.scrolls } = _
  rw [hreset]

/-! ### What a text does not depend on -/

/-- The terminal that has counted `n` more scrolls. -/
def counting (n : Nat) (t : Terminal) : Terminal :=
  { t with scrolls := t.scrolls + n }

theorem feed_counting (n : Nat) (t : Terminal) (b : UInt8) (next : Option UInt8) :
    (t.counting n).feed b next = (t.feed b next).counting n := by
  have hscript : (t.counting n).script = t.script.recast (.samePens id n) :=
    (t.script.recast_samePens id n).symm
  rw [feed_eq_after, feed_eq_after, Script.feed_eq_meet, Script.feed_eq_meet, hscript,
    Script.meet_recast_samePens _ (.inl rfl), Script.recast_samePens]
  rfl

/-- A text does not ask how many scrolls were counted before it, so `counting` can be put off to its
    end. -/
theorem takeText_counting (n : Nat) (t : Terminal) (text : Bytes) :
    (t.counting n).takeText text = (t.takeText text).counting n := by
  fun_induction takeText t text with
  | case1 t => rw [takeText_nil]
  | case2 t b rest ih =>
    have hleaves : (t.counting n).leaves b rest = t.leaves b rest := rfl
    rw [takeText_cons, feed_counting, hleaves, ih]

/-- A text that `SavesFirst`, before it asks for a saved place, does the same whatever place is
    saved, so it keeps equality up to `unsaved`. -/
theorem unsaved_takeText (h : t.unsaved = u.unsaved) (hclosed : t.pending = none) {text : Bytes}
    (hfirst : SavesFirst none text) :
    (t.takeText text).unsaved = (u.takeText text).unsaved := by
  let s : ByteStream :=
    { art := text, rest := text, record := none, rest_suffix := List.suffix_refl text }
  have hagrees : Place.Agrees True ⟨t, s⟩ ⟨u, s⟩ :=
    { unsaved_eq := h
      art_eq := rfl
      rest_eq := rfl
      saved := .inr ⟨trivial, hclosed ▸ hfirst, hfirst⟩ }
  have hread := hagrees.readToEnd.unsaved_eq
  rw [← terminal_readToEnd t s, ← terminal_readToEnd u s]
  exact hread

/-! ### What comes before the two sequences -/

/-- No byte heeds the escape that `clearing` begins with, and its last letter heeds nothing, so what
    stands before and after it is taken as if alone. -/
theorem takeText_append_clearing (t : Terminal) (p q : Bytes) :
    t.takeText (p ++ clearing ++ q) = ((t.takeText p).takeText clearing).takeText q := by
  have hbefore : ∀ b, EndsOn b t p → ¬ Heeds b clearing.head? := by
    rintro b - (⟨-, hnext⟩ | ⟨-, hnext⟩)
    · exact absurd hnext (by decide)
    · exact absurd hnext (by decide)
  have hafter : ∀ b, EndsOn b t (p ++ clearing) → ¬ Heeds b q.head? := by
    intro b hends
    have hlast : (p ++ clearing).getLast? = some b := hends.getLast?_eq
    rw [List.getLast?_append] at hlast
    obtain rfl : 0x6D = b := Option.some.inj hlast
    rintro (⟨hreturn, -⟩ | ⟨hescape, -⟩)
    · exact absurd hreturn (by decide)
    · exact absurd hescape (by decide)
  rw [takeText_append hafter, takeText_append hbefore]

section

variable (font : Font) (palette : Palette) (icecolors : Bool)
  (columns rows screenColumns screenRows : Nat)

/-- A terminal that has taken a text and then `clearing` is blank, but for the saved place of the
    cursor and the count of scrolls. -/
theorem takeText_takeText_clearing {p : Bytes}
    (hclosed : ((blank font palette icecolors true columns rows screenColumns
      screenRows).takeText p).pending = none) :
    let first := blank font palette icecolors true columns rows screenColumns screenRows
    let before := first.takeText p
    before.takeText clearing
      = counting before.scrolls
          { first with session := { first.session with saved := before.session.saved } } := by
  intro first before
  have hform : before.SameForm first :=
    @takeText_preserves first (fun t => t.SameForm first)
      (fun t b next h => (t.sameForm_feed b next).trans h)
      ⟨rfl, rfl, rfl, rfl, Screen.SameForm.refl _⟩ p
  have hblink : before.screen.blinkState = (none, .on) :=
    @takeText_preserves first (fun t => t.screen.blinkState = (none, .on))
      (fun t b next h => (t.blinkState_feed b next).trans h) rfl p
  have hhonors : before.honorsClear = true := congrArg Prod.fst hform.script_eq
  have hreset : first.reset = first := reset_blank ..
  have hpending : before.pending = none := hclosed
  have hcount : first.scrolls + before.scrolls = before.scrolls := Nat.zero_add _
  rw [takeText_clearing hclosed, clear_eq hform (Screen.even_new ..) hhonors hblink, hreset,
    hpending]
  unfold counting
  rw [hcount]
  rfl

/-- **What is cleared is forgotten.** Let a terminal that `honorsClear` read a text from its first
    state, then the two sequences of `clearing`, and then another text, where the first text leaves
    no sequence open, and the second is one that `SavesFirst`: it asks for no saved place of the
    cursor before it has saved one. Then the screen, with its picture and its masks, the cursor, the
    pen and the open sequence are those of a terminal that has read only the second text, and the
    count of `scrolls` is larger by those of the first text. -/
theorem readToEnd_of_cleared {p q : Bytes} (hwhole : Sauce.ofBytes? (p ++ clearing ++ q) = none)
    (halone : Sauce.ofBytes? q = none)
    (hclosed : ((blank font palette icecolors true columns rows screenColumns
      screenRows).takeText p).pending = none)
    (hfirst : SavesFirst none q) :
    let first := blank font palette icecolors true columns rows screenColumns screenRows
    let whole := (first.readToEnd (.ofFile (p ++ clearing ++ q))).terminal
    let alone := (first.readToEnd (.ofFile q)).terminal
    whole.screen = alone.screen
    ∧ whole.session.cursor = alone.session.cursor
    ∧ whole.session.pen = alone.session.pen
    ∧ whole.pending = alone.pending
    ∧ whole.scrolls = alone.scrolls + (first.takeText p).scrolls := by
  intro first whole alone
  let before := first.takeText p
  let elsewhere : Terminal :=
    { first with session := { first.session with saved := before.session.saved } }
  have hcleared : before.takeText clearing = counting before.scrolls elsewhere :=
    takeText_takeText_clearing font palette icecolors columns rows screenColumns screenRows hclosed
  have hwholeText : whole = counting before.scrolls (elsewhere.takeText q) := by
    show (first.readToEnd (.ofFile (p ++ clearing ++ q))).terminal = _
    rw [terminal_readToEnd, ByteStream.rest_ofFile_of_none hwhole, takeText_append_clearing,
      hcleared, takeText_counting]
  have haloneText : alone = first.takeText q := by
    show (first.readToEnd (.ofFile q)).terminal = _
    rw [terminal_readToEnd, ByteStream.rest_ofFile_of_none halone]
  -- the saved place is all that may be left of the first text
  have helsewhere : elsewhere.unsaved = first.unsaved := rfl
  have hsame : (elsewhere.takeText q).unsaved = (first.takeText q).unsaved :=
    unsaved_takeText helsewhere rfl hfirst
  have hscreen := congrArg Terminal.screen hsame
  have hcursor := congrArg (fun t : Terminal => t.session.cursor) hsame
  have hpen := congrArg (fun t : Terminal => t.session.pen) hsame
  have hpending := congrArg Terminal.pending hsame
  have hscrolls := congrArg (fun t : Terminal => t.scrolls + before.scrolls) hsame
  rw [hwholeText, haloneText]
  exact ⟨hscreen, hcursor, hpen, hpending, hscrolls⟩

end

/-- A case of `readToEnd_of_cleared`: a blinking character, two new lines of which one scrolls, and
    an escape that is drawn; then a character, and a place that is saved and asked for. -/
theorem cleared_after_blinking_character :
    let first := blank (.preset "80x25" .eight) .ansi false true 4 2 4 2
    let p : Bytes := [0x1B, 0x5B, 0x35, 0x6D, 0x41, 0x0A, 0x0A, 0x1B]
    let q : Bytes := [0x42, 0x1B, 0x5B, 0x73, 0x1B, 0x5B, 0x75]
    (Sauce.ofBytes? (p ++ clearing ++ q) = none ∧ Sauce.ofBytes? q = none
      ∧ (first.takeText p).pending = none ∧ SavesFirst none q)
    ∧ (first.readToEnd (.ofFile (p ++ clearing ++ q))).terminal.screen
      = (first.readToEnd (.ofFile q)).terminal.screen
    ∧ (first.readToEnd (.ofFile (p ++ clearing ++ q))).terminal.scrolls
      = (first.readToEnd (.ofFile q)).terminal.scrolls + (first.takeText p).scrolls := by
  intro first p q
  have hwhole : Sauce.ofBytes? (p ++ clearing ++ q) = none := Sauce.ofBytes?_of_short (by decide)
  have halone : Sauce.ofBytes? q = none := Sauce.ofBytes?_of_short (by decide)
  have hclosed : (first.takeText p).pending = none := by
    have hfive : isLetter 0x35 = false := by decide
    have hspells : Token.Spells
        [.command [0x35] 0x6D, .glyph 0x41, .newLine false, .newLine false, .glyph 0x1B] p :=
      .cons ⟨List.forall_mem_singleton.mpr hfive, rfl⟩ (.cons ⟨by decide, by decide⟩
        (.cons trivial (.cons trivial (.cons ⟨by decide, by decide⟩ .nil))))
    rw [takeText_of_spells hspells rfl]
    rfl
  have hfirst : SavesFirst none q := by decide
  obtain ⟨hscreen, -, -, -, hscrolls⟩ :=
    readToEnd_of_cleared (.preset "80x25" .eight) .ansi false 4 2 4 2 hwhole halone hclosed hfirst
  exact ⟨⟨hwhole, halone, hclosed, hfirst⟩, hscreen, hscrolls⟩

end Terminal

end TextArt
