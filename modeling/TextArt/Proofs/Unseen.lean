import TextArt.Proofs.Imprints
import TextArt.Proofs.Texts
import TextArt.Render

namespace TextArt

/-!
# Unseen — what a file says about its art is not in the picture

A trailer goes before the art is drawn, and so does an end mark before the trailer, even one that
belongs to the art.  An end mark is seen by no terminal: it is passed over, or it goes into a
sequence that the art ends in.

* `Terminal.screen_takeText_append_endMark` — an end mark at the end changes nothing on a screen;
* `Player.screen_renderAll_new` — a still picture is what a terminal makes of the art as a text;
* `render_append_trailer` — a file with a trailer has the picture of the file without it.
-/

namespace Terminal

/-- A `ByteStream.endMark` at the end of a text changes nothing on the screen, whatever comes before
    it. -/
theorem screen_takeText_append_endMark (t : Terminal) (text : Bytes) :
    (t.takeText (text ++ [ByteStream.endMark])).screen = (t.takeText text).screen := by
  -- neither a carriage return nor an escape heeds an end mark
  have hcut : ∀ b, EndsOn b t text → ¬ Heeds b [ByteStream.endMark].head? := by
    rintro b _ (⟨_, hnext⟩ | ⟨_, hnext⟩)
    · exact absurd hnext (by decide)
    · exact absurd hnext (by decide)
  rw [takeText_append hcut, takeText_cons, leaves_nil, takeText_nil, List.head?_nil]
  cases hpending : (t.takeText text).pending with
  | none => rw [feed_endMark hpending]
  | some sequence =>
    have hletter : isLetter ByteStream.endMark = false := by decide
    simp [feed_eq, hpending, accumulate_eq, hletter]

/-- An end mark that `dropEndMark` may or may not drop changes nothing on the screen, either. -/
theorem screen_takeText_dropEndMark (t : Terminal) (text : Bytes) :
    (t.takeText (ByteStream.dropEndMark text)).screen = (t.takeText text).screen := by
  obtain ⟨mark, hmark, htext⟩ := ByteStream.exists_mark_dropEndMark text
  rcases hmark with ⟨rfl, _⟩ | rfl
  · rw [List.append_nil] at htext
    rw [htext]
  · have hscreen := t.screen_takeText_append_endMark (ByteStream.dropEndMark text)
    rw [htext] at hscreen
    exact hscreen.symm

end Terminal

/-- The screen that `renderAll` makes of the art of a file is what a terminal of its width makes of
    the art. -/
theorem Player.screen_renderAll_new (file : Bytes) (config : Config) :
    let stream := ByteStream.ofFile file
    let columns := config.columnsFor (stream.record.bind Sauce.columns)
    (Player.new file config).renderAll.2.terminal.screen
      = ((Terminal.new config columns config.rows columns config.rows).reset.takeText
          stream.art).screen :=
  congrArg Terminal.screen (Terminal.terminal_readToEnd _ _)

namespace Config

/-- The width that a file declares does not matter for `columnsFor` where the user has chosen
    one. -/
theorem columnsFor_of_chosen {o : Options} {n : Int} (h : o.columns = some n) (hpos : 0 < n)
    (declared declared' : Option Nat) :
    (ofOptions o).columnsFor declared = (ofOptions o).columnsFor declared' := by
  have hchosen : (ofOptions o).columns = some (min n.toNat maxColumns) := by
    show size o.columns maxColumns = _
    rw [h]
    exact if_pos hpos
  unfold columnsFor
  rw [hchosen]

end Config

/-- **Trailers are not seen.** A file without a record has the same `render` when a `Trailer`, with
    or without an end mark before it, is added, if the user chooses the width or the record declares
    none. -/
theorem render_append_trailer {art : Bytes} (hart : Sauce.ofBytes? art = none) (trailer : Trailer)
    {mark : Bytes} (hmark : mark = [] ∨ mark = [ByteStream.endMark]) {o : Options}
    (hwidth : (∃ n, o.columns = some n ∧ 0 < n) ∨ trailer.sauce.tinfo1 = 0) :
    render (art ++ mark ++ trailer.bytes) o = render art o := by
  have hdrawn : ∀ t : Terminal,
      (t.takeText (ByteStream.ofFile (art ++ mark ++ trailer.bytes)).art).screen
        = (t.takeText (ByteStream.ofFile art).art).screen := by
    intro t
    have hall : (ByteStream.ofFile art).art = art := ByteStream.rest_ofFile_of_none hart
    rw [trailer.art_ofFile, hall]
    rcases hmark with rfl | rfl
    · rw [List.append_nil]
      exact t.screen_takeText_dropEndMark art
    · rw [ByteStream.dropEndMark_append_endMark]
  have hcolumns : (Config.ofOptions o).columnsFor
        ((ByteStream.ofFile (art ++ mark ++ trailer.bytes)).record.bind Sauce.columns)
      = (Config.ofOptions o).columnsFor ((ByteStream.ofFile art).record.bind Sauce.columns) := by
    rcases hwidth with ⟨n, hn, hpos⟩ | hzero
    · exact Config.columnsFor_of_chosen hn hpos _ _
    · -- neither of the two files declares a width
      show (Config.ofOptions o).columnsFor ((Sauce.ofBytes? _).bind Sauce.columns)
        = (Config.ofOptions o).columnsFor ((Sauce.ofBytes? art).bind Sauce.columns)
      rw [trailer.ofBytes?_append, hart]
      simp [Sauce.columns, hzero]
  have hscreen :
      (Player.new (art ++ mark ++ trailer.bytes) (.ofOptions o)).renderAll.2.terminal.screen
        = (Player.new art (.ofOptions o)).renderAll.2.terminal.screen := by
    rw [Player.screen_renderAll_new, Player.screen_renderAll_new, hcolumns]
    exact hdrawn _
  unfold render renderPlayer
  dsimp only
  rw [hscreen]
  rfl

/-- A case of `render_append_trailer`: art that breaks off in a sequence, and whose own end mark is
    taken for the one of the trailer; the record has a comment and declares no width. -/
theorem render_of_broken_off_sequence :
    let art : Bytes := [0x41, 0x1B, 0x5B, 0x33, ByteStream.endMark]
    let imprint : Imprint :=
      { (default : Imprint) with comments := [default], length_comments := by decide }
    let mark : Bytes := []
    let o : Options := {}
    (Sauce.ofBytes? art = none
      ∧ (mark = [] ∨ mark = [ByteStream.endMark])
      ∧ ((∃ n, o.columns = some n ∧ 0 < n) ∨ imprint.trailer.sauce.tinfo1 = 0))
    ∧ render (art ++ mark ++ imprint.trailer.bytes) o = render art o := by
  intro art imprint mark o
  have hart : Sauce.ofBytes? art = none := Sauce.ofBytes?_of_short (by decide)
  have hzero : imprint.trailer.sauce.tinfo1 = 0 := by
    rw [imprint.sauce_trailer]
    rfl
  exact ⟨⟨hart, .inl rfl, .inr hzero⟩,
    render_append_trailer hart imprint.trailer (.inl rfl) (.inr hzero)⟩

end TextArt
