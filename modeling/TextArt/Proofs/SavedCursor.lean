import TextArt.Proofs.Chunks
import TextArt.Proofs.Recasts

namespace TextArt

/-!
# Saved cursors — two terminals that remember different places

The saved place of the cursor is read by one command alone, and it is lost when another one
saves the place of the moment.  So two terminals that agree on all but the saved place go on
agreeing, as long as no text asks them to go back to that place before it has saved one.

* `Command.inText` — the commands that a text asks for, whatever terminal takes it;
* `SavesFirst` — none of them goes back to a saved place before another one saves one;
* `Terminal.unsaved` — a terminal without the saved place of its cursor; all demands but two are
  met in the same way without it (`Script.meet_unsaved`);
* `Place.Agrees` — two places agree on all but the saved place, and on that too unless the
  text saves one first; bytes preserve this (`Place.Agrees.next`, `Place.Agrees.takes`);
* `Reading.Agrees.read` — so two readings take as many bytes, and go on agreeing.
-/

/-! ### The commands of a text -/

namespace Demand

/-- The open sequence after a `Demand` has been met. -/
def pendingAfter (pending : Option Bytes) : Demand → Option Bytes
  | note pending => pending
  | obey _ => none
  | newLine | draw _ => pending

/-- The command of a `Demand`, if it is for one. -/
def command? : Demand → Option Command
  | obey command => some command
  | _ => none

end Demand

/-- The commands that a text asks for, when a sequence may be `pending` before it. A line feed that
    a carriage return takes along asks for none, so it may be counted as a byte of the text. -/
def Command.inText (pending : Option Bytes) : Bytes → List Command
  | [] => []
  | b :: rest =>
    let demand := Demand.ofByte pending b rest.head?
    demand.command?.toList ++ inText (demand.pendingAfter pending) rest

/-- No `restoreCursor` in a text comes before a `saveCursor` of the same text. -/
def SavesFirst (pending : Option Bytes) (text : Bytes) : Prop :=
  .restoreCursor ∉ (Command.inText pending text).takeWhile (· ≠ .saveCursor)

instance (pending : Option Bytes) (text : Bytes) : Decidable (SavesFirst pending text) :=
  inferInstanceAs (Decidable (_ ∉ _))

theorem Script.pending_meet (c : Script) (demand : Demand) :
    (c.meet demand).pending = demand.pendingAfter c.pending := by
  have hpending : ∀ (c : Script) cursor saved pen scrolls edits, pending
      { c with session := { c.session with cursor, saved, pen }, scrolls, edits } = c.pending :=
    fun _ _ _ _ _ _ => rfl
  cases demand with
  | note pending => rfl
  | obey command => exact execute_keeps hpending { c with pending := none } command
  | newLine => exact newLine_keeps hpending c
  | draw code => exact draw_keeps hpending c code

theorem Terminal.skipsNext_iff {t : Terminal} {b : UInt8} {next : Option UInt8} :
    t.skipsNext b next = true
      ↔ t.pending = none ∧ b = carriageReturn ∧ next = some lineFeed := by
  simp [skipsNext, and_assoc]

namespace Place

variable {p : Place}

theorem next_of_nil (h : p.stream.rest = []) : p.next = p := by
  obtain ⟨t, s⟩ := p
  unfold next
  rw [Reading.step_of_nil h]
  rfl

/-- What the next byte asks for, as a `Demand`. -/
def demand (p : Place) (b : UInt8) (rest : Bytes) : Demand :=
  .ofByte p.terminal.pending b rest.head?

/-- A byte makes of the terminal what its `demand` says. -/
theorem terminal_next_eq_meet {b : UInt8} {rest : Bytes} (h : p.stream.rest = b :: rest) :
    p.next.terminal = p.terminal.after (p.terminal.script.meet (p.demand b rest)) := by
  have hmeet : p.terminal.script.feed b rest.head?
      = p.terminal.script.meet (p.demand b rest) := Script.feed_eq_meet _ _ _
  rw [terminal_next h, ← hmeet]
  exact p.terminal.feed_eq_after b rest.head?

theorem art_next (p : Place) : p.next.stream.art = p.stream.art := by
  obtain ⟨t, ⟨art, rest, record, hsuffix⟩⟩ := p
  cases rest <;> rfl

/-- The commands of `Command.inText` that are left after a byte. -/
theorem inText_next {b : UInt8} {rest : Bytes} (h : p.stream.rest = b :: rest) :
    Command.inText p.terminal.pending p.stream.rest
      = (p.demand b rest).command?.toList
        ++ Command.inText p.next.terminal.pending p.next.stream.rest := by
  -- what is pending after the byte is settled by its demand
  have hpending : p.next.terminal.pending = (p.demand b rest).pendingAfter p.terminal.pending := by
    rw [terminal_next_eq_meet h]
    exact Script.pending_meet p.terminal.script _
  rw [h, hpending, rest_next h]
  by_cases hskips : p.terminal.skipsNext b rest.head? = true
  · -- the line feed that is taken along asks for no command
    obtain ⟨hclosed, hreturn, hfeed⟩ := Terminal.skipsNext_iff.mp hskips
    obtain ⟨rest', hrest⟩ : ∃ rest', rest = Terminal.lineFeed :: rest' :=
      List.head?_eq_some_iff.mp hfeed
    rw [if_pos hskips, demand, hclosed, hreturn, hrest]
    rfl
  · rw [if_neg hskips]
    rfl

/-- As long as a text that `SavesFirst` has not saved a place, it does not go back to one. -/
theorem savesFirst_next {b : UInt8} {rest : Bytes} (h : p.stream.rest = b :: rest)
    (hfirst : SavesFirst p.terminal.pending p.stream.rest)
    (hsave : p.demand b rest ≠ .obey .saveCursor) :
    p.demand b rest ≠ .obey .restoreCursor
      ∧ SavesFirst p.next.terminal.pending p.next.stream.rest := by
  rw [SavesFirst, inText_next h] at hfirst
  cases hdemand : p.demand b rest with
  | obey command =>
    have hother : command ≠ .saveCursor := fun hcommand => hsave (hcommand ▸ hdemand)
    rw [hdemand] at hfirst
    -- a command that does not save is one that `takeWhile` goes past
    have hwhile : ∀ commands, (command :: commands).takeWhile (· ≠ .saveCursor)
        = command :: commands.takeWhile (· ≠ .saveCursor) := fun _ =>
      List.takeWhile_cons_of_pos (decide_eq_true hother)
    rw [Demand.command?, Option.toList_some, List.singleton_append, hwhile, List.mem_cons,
      not_or] at hfirst
    exact ⟨fun hrestore => hfirst.1 (Demand.obey.inj hrestore).symm, hfirst.2⟩
  | note pending =>
    rw [hdemand] at hfirst
    exact ⟨Demand.noConfusion, hfirst⟩
  | newLine =>
    rw [hdemand] at hfirst
    exact ⟨Demand.noConfusion, hfirst⟩
  | draw code =>
    rw [hdemand] at hfirst
    exact ⟨Demand.noConfusion, hfirst⟩

end Place

/-! ### Without the saved place -/

/-- The `Session` without the saved place of its cursor. -/
def Session.unsaved (s : Session) : Session :=
  { s with saved := none }

/-- The `Script` without the saved place of its cursor. -/
def Script.unsaved (c : Script) : Script :=
  { c with session := c.session.unsaved }

/-- The `Terminal` without the saved place of its cursor. -/
def Terminal.unsaved (t : Terminal) : Terminal :=
  { t with session := t.session.unsaved }

theorem Script.recast_unsaved (c : Script) : c.recast (.samePens (fun _ => none) 0) = c.unsaved :=
  c.recast_samePens _ 0

/-- A `Forgetful` demand, as most are, is met in the same way whatever place is saved. -/
theorem Script.meet_unsaved (c : Script) {demand : Demand} (h : demand.Forgetful) :
    c.unsaved.meet demand = (c.meet demand).unsaved := by
  rw [← recast_unsaved, ← recast_unsaved, meet_recast_samePens c (.inr h)]

namespace Terminal

variable {t u : Terminal}

/-- Terminals that are equal when `unsaved`, and have the same place saved, are the same. -/
theorem eq_of_unsaved_eq (h : t.unsaved = u.unsaved) (hsaved : t.session.saved = u.session.saved) :
    t = u :=
  calc t
      = { t.unsaved with session := { t.unsaved.session with saved := t.session.saved } } := rfl
    _ = { u.unsaved with session := { u.unsaved.session with saved := u.session.saved } } := by
        rw [h, hsaved]
    _ = u := rfl

/-- Terminals that are equal when `unsaved` are so after a `Forgetful` demand. -/
theorem unsaved_meet_eq (h : t.unsaved = u.unsaved) {demand : Demand} (hd : demand.Forgetful) :
    (t.after (t.script.meet demand)).unsaved = (u.after (u.script.meet demand)).unsaved := by
  have hmeet : ∀ t : Terminal, (t.after (t.script.meet demand)).unsaved
      = t.unsaved.after (t.unsaved.script.meet demand) := by
    intro t
    show t.unsaved.after (t.script.meet demand).unsaved = _
    rw [← Script.meet_unsaved _ hd]
    rfl
  rw [hmeet, hmeet, h]

/-- Terminals that are equal when `unsaved` are the same once they obey a `saveCursor`. -/
theorem saveCursor_eq (h : t.unsaved = u.unsaved) :
    t.after (t.script.meet (.obey .saveCursor)) = u.after (u.script.meet (.obey .saveCursor)) := by
  have hmeet : ∀ t : Terminal, t.after (t.script.meet (.obey .saveCursor))
      = { t.unsaved with
          pending := none
          session := { t.unsaved.session with saved := some t.unsaved.session.cursor } } :=
    fun _ => rfl
  rw [hmeet, hmeet, h]

end Terminal

/-! ### Places that agree -/

/-- Two places agree on all but the saved place of the cursor, and on that too unless it may
    `differ`. Where it does, what is left of the text saves one before it asks for it, and so does
    the text when it is taken from its beginning. -/
structure Place.Agrees (differ : Prop) (p q : Place) : Prop where
  unsaved_eq : p.terminal.unsaved = q.terminal.unsaved
  art_eq : p.stream.art = q.stream.art
  rest_eq : p.stream.rest = q.stream.rest
  saved : p.terminal.session.saved = q.terminal.session.saved
    ∨ differ ∧ SavesFirst p.terminal.pending p.stream.rest ∧ SavesFirst none p.stream.art

namespace Place.Agrees

variable {differ : Prop} {p q : Place}

theorem pending_eq (h : p.Agrees differ q) : p.terminal.pending = q.terminal.pending := by
  have hunsaved := congrArg Terminal.pending h.unsaved_eq
  exact hunsaved

theorem scrolls_eq (h : p.Agrees differ q) : p.terminal.scrolls = q.terminal.scrolls := by
  have hunsaved := congrArg Terminal.scrolls h.unsaved_eq
  exact hunsaved

theorem next (h : p.Agrees differ q) : p.next.Agrees differ q.next := by
  cases hp : p.stream.rest with
  | nil =>
    have hq : q.stream.rest = [] := h.rest_eq ▸ hp
    rw [next_of_nil hp, next_of_nil hq]
    exact h
  -- both places have the same byte before them, and so the same demand
  | cons b rest =>
    have hq : q.stream.rest = b :: rest := h.rest_eq ▸ hp
    have hdemand : q.demand b rest = p.demand b rest := by rw [demand, demand, h.pending_eq]
    have hart : p.next.stream.art = q.next.stream.art := by
      rw [art_next, art_next, h.art_eq]
    have hrest : p.next.stream.rest = q.next.stream.rest := by
      have hskips : p.terminal.skipsNext b rest.head? = q.terminal.skipsNext b rest.head? := by
        rw [Terminal.skipsNext, h.pending_eq, Terminal.skipsNext]
      rw [rest_next hp, rest_next hq, hskips]
    obtain hsame | ⟨hdiffer, hleft, hall⟩ := h.saved
    · -- the two terminals are the same, and the byte does the same to them
      have hterminal := Terminal.eq_of_unsaved_eq h.unsaved_eq hsame
      have hnext : p.next.terminal = q.next.terminal := by
        rw [terminal_next_eq_meet hp, terminal_next_eq_meet hq, hdemand, hterminal]
      exact ⟨congrArg Terminal.unsaved hnext, hart, hrest,
        .inl (congrArg (fun t : Terminal => t.session.saved) hnext)⟩
    · by_cases hsave : p.demand b rest = .obey .saveCursor
      · -- the difference is gone
        have hnext : p.next.terminal = q.next.terminal := by
          rw [terminal_next_eq_meet hp, terminal_next_eq_meet hq, hdemand, hsave,
            Terminal.saveCursor_eq h.unsaved_eq]
        exact ⟨congrArg Terminal.unsaved hnext, hart, hrest,
          .inl (congrArg (fun t : Terminal => t.session.saved) hnext)⟩
      -- the command does not touch the saved place, and what is left of the text still saves one
      -- first
      · obtain ⟨hrestore, hleft'⟩ := savesFirst_next hp hleft hsave
        have hnext : p.next.terminal.unsaved = q.next.terminal.unsaved := by
          rw [terminal_next_eq_meet hp, terminal_next_eq_meet hq, hdemand]
          exact Terminal.unsaved_meet_eq h.unsaved_eq ⟨hsave, hrestore⟩
        refine ⟨hnext, hart, hrest, .inr ⟨hdiffer, hleft', ?_⟩⟩
        rw [art_next]
        exact hall

/-- The same `change` made to the screens of both places changes nothing else, so they still
    agree. -/
theorem onScreen (h : p.Agrees differ q) (change : Screen → Screen) :
    Agrees differ { p with terminal := { p.terminal with screen := change p.terminal.screen } }
      { q with terminal := { q.terminal with screen := change q.terminal.screen } } :=
  { h with
    unsaved_eq :=
      congrArg (fun t : Terminal => { t with screen := change t.screen }) h.unsaved_eq }

/-- Streams that are taken from the beginning, with a `change` that starts the terminals over in
    some way. -/
theorem restart (h : p.Agrees differ q) (change : Terminal → Terminal)
    (hunsaved : ∀ t, (change t).unsaved = change t.unsaved)
    (hsaved : ∀ t, (change t).session.saved = t.session.saved)
    (hpending : ∀ t, (change t).pending = none) :
    Agrees differ ⟨change p.terminal, p.stream.seek 0⟩ ⟨change q.terminal, q.stream.seek 0⟩ where
  unsaved_eq := by
    show (change p.terminal).unsaved = (change q.terminal).unsaved
    rw [hunsaved, hunsaved, h.unsaved_eq]
  art_eq := h.art_eq
  rest_eq := h.art_eq
  saved := by
    show (change p.terminal).session.saved = (change q.terminal).session.saved
      ∨ differ ∧ SavesFirst (change p.terminal).pending p.stream.art ∧ SavesFirst none p.stream.art
    rw [hsaved, hsaved, hpending]
    exact h.saved.imp_right fun hfirst => ⟨hfirst.1, hfirst.2.2, hfirst.2.2⟩

/-- Bytes that lead on from one of two places of which `Agrees` is true lead on from the other. -/
theorem takes (h : p.Agrees differ q) {n : Nat} {p' : Place} (htakes : Takes n p p') :
    ∃ q', Takes n q q' ∧ p'.Agrees differ q' := by
  induction htakes generalizing q with
  | refl p => exact ⟨q, .refl q, h⟩
  | head hne _ ih =>
    obtain ⟨q', htakes, hagrees⟩ := ih h.next
    exact ⟨q', .head (h.rest_eq ▸ hne) htakes, hagrees⟩

/-- All of a stream may be taken by `readToEnd` from either place. -/
theorem readToEnd (h : p.Agrees differ q) :
    (p.terminal.readToEnd p.stream).place.Agrees differ (q.terminal.readToEnd q.stream).place := by
  obtain ⟨q', htakes, hagrees⟩ := h.takes (p.terminal.takes_readToEnd p.stream)
  have hend : q'.stream.rest = [] :=
    hagrees.rest_eq.symm.trans (p.terminal.rest_readToEnd p.stream)
  obtain ⟨hplace, _⟩ := htakes.end_unique (q.terminal.takes_readToEnd q.stream) hend
    (q.terminal.rest_readToEnd q.stream)
  exact hplace ▸ hagrees

end Place.Agrees

/-! ### Readings that agree -/

namespace Reading

/-- Two readings are at places that agree, and have `consumed` the same. -/
structure Agrees (differ : Prop) (r r' : Reading) : Prop where
  place : r.place.Agrees differ r'.place
  consumed_eq : r.consumed = r'.consumed
  scrolled_eq : r.scrolled = r'.scrolled

namespace Agrees

variable {differ : Prop} {r r' : Reading}

theorem step (h : r.Agrees differ r') : r.step.Agrees differ r'.step := by
  by_cases hrest : r.stream.rest = []
  · have hrest' : r'.stream.rest = [] := h.place.rest_eq.symm.trans hrest
    rw [step_of_nil hrest, step_of_nil hrest']
    exact h
  · have hrest' : r'.stream.rest ≠ [] := fun hnil => hrest (h.place.rest_eq.trans hnil)
    have hplace : r.step.place.Agrees differ r'.step.place := by
      rw [place_step, place_step]
      exact h.place.next
    -- a chunk ends with a scroll, and both terminals count alike before and after the byte
    have hbefore : r.terminal.scrolls = r'.terminal.scrolls :=
      h.place.scrolls_eq
    have hafter : r.step.terminal.scrolls = r'.step.terminal.scrolls :=
      hplace.scrolls_eq
    refine ⟨hplace, ?_, ?_⟩
    · rw [consumed_step hrest, consumed_step hrest', h.consumed_eq]
    · rw [scrolled_step_eq_decide hrest, scrolled_step_eq_decide hrest', hbefore, hafter]

theorem run (h : r.Agrees differ r') (n : Nat) :
    (Reading.run n r).Agrees differ (Reading.run n r') := by
  induction n generalizing r r' with
  | zero => exact h
  | succ n ih =>
    have hend : r.stream.atEnd = r'.stream.atEnd := congrArg List.isEmpty h.place.rest_eq
    rw [Reading.run, Reading.run, h.scrolled_eq, hend]
    split
    · exact h
    · exact ih h.step

/-- A chunk that `Terminal.read` takes is the same from two places that agree. -/
theorem read {p q : Place} (h : p.Agrees differ q) (max : Nat) :
    (p.terminal.read p.stream max).Agrees differ (q.terminal.read q.stream max) := by
  have hstart : p.start.Agrees differ q.start := ⟨h, rfl, rfl⟩
  exact hstart.run max

end Agrees

end Reading

end TextArt
