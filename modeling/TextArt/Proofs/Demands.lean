import TextArt.Proofs.Script

namespace TextArt

/-!
# Demands — what the bytes of a text ask for

What a byte asks for depends on the open sequence, and on the byte after it.  Where the
cursor is, and how large the screen is, only decides what comes of it.

* `Demand`, `Demand.ofByte` — what a byte asks for; `Script.meet` is what a script makes of
  it, and `Script.feed_eq_meet` says that feeding a byte is meeting its demand;
* `Script.execute_keeps` — what depends neither on the cursor and the pen nor on the edits, no
  command changes;
* `Command.ended?` — the command that a byte makes a terminal obey, if it does;
* `Reading.OnlyObeys` — some bytes of a stream ask for no commands but those of a kind;
* `Script.OnlyObeys.afterBytes` — what such bytes preserve one by one, they preserve
  together;
* `Script.DrawsWith` — all characters are drawn with pens of some kind, which a text
  preserves if its commands do.
-/

/-! ### Commands in a text -/

namespace Command

/-- The `Command` of the open sequence, if there is one, a byte ends it, and it asks for
    something. -/
def ended? (pending : Option Bytes) (b : UInt8) : Option Command :=
  match pending with
  | none => none
  | some sequence => if Terminal.isLetter b then parse? (b :: sequence).reverse else none

/-- A free colour that a `Command` chooses is solid. -/
def Solid : Command → Prop
  | freeColor _ color => color.alpha = 255
  | _ => True

theorem solid_of_ofLetter? {letter : Char} {values : List Int} {command : Command}
    (h : ofLetter? letter values = some command) : command.Solid := by
  unfold ofLetter? at h
  split at h
  all_goals try (cases h <;> trivial)
  -- what is left is the one letter that chooses a colour, or refuses to
  split at h
  · cases h
    exact Color.alpha_rgb ..
  · cases h

/-- What a `Command` makes of the `Pen`. -/
def onPen : Command → Pen → Pen
  | rendition values, pen => values.foldl Pen.apply pen
  | freeColor paper color, pen =>
    if paper then { pen with freeBackground := some color }
    else { pen with freeForeground := some color }
  | _, pen => pen

/-- Every command that bytes ask for is `Solid`, as `ended?` makes all free colours with full
    `alpha`. -/
theorem solid_of_ended? {pending : Option Bytes} {b : UInt8} {command : Command}
    (h : ended? pending b = some command) : command.Solid := by
  unfold ended? at h
  split at h
  · cases h
  · split at h
    · unfold parse? at h
      split at h
      · split at h
        · exact solid_of_ofLetter? h
        · cases h
      · cases h
    · cases h

end Command

/-! ### Demands -/

/-- What a byte asks for. -/
inductive Demand where
  /-- Nothing, but that there is or is not an open sequence after it. -/
  | note (pending : Option Bytes)
  /-- The `Command` of the open sequence, which ends. -/
  | obey (command : Command)
  /-- A new line. -/
  | newLine
  /-- A character, drawn with the pen of the moment. -/
  | draw (code : UInt8)
  deriving DecidableEq, Repr

namespace Demand

/-- What a byte asks for when `next` comes after it. -/
def ofByte (pending : Option Bytes) (b : UInt8) (next : Option UInt8) : Demand :=
  match pending with
  | some sequence =>
    if Terminal.isLetter b then
      match Command.parse? (b :: sequence).reverse with
      | some command => obey command
      | none => note none
    else note (some (b :: sequence))
  | none =>
    if b = Terminal.lineFeed then newLine
    else if b = Terminal.carriageReturn then
      if next = some Terminal.lineFeed then newLine else note none
    else if b = ByteStream.endMark then note none
    else if b = Terminal.escape ∧ next = some Terminal.bracket then note (some [])
    else draw b

/-- A demand to `obey` a command is for the one which the byte has `ended?`. -/
theorem ended?_of_ofByte {pending : Option Bytes} {b : UInt8} {next : Option UInt8}
    {command : Command} (h : ofByte pending b next = obey command) :
    Command.ended? pending b = some command := by
  unfold ofByte at h
  split at h
  · next sequence =>
    split at h
    · next hletter =>
      split at h
      · next found hfound =>
        cases h
        rw [Command.ended?, if_pos hletter, hfound]
      · cases h
    · cases h
  · repeat' split at h
    all_goals cases h

/-- If a `Demand` is for a command, then for one that is `allowed` and that chooses solid colours
    only. -/
def Allowed (allowed : Command → Prop) (demand : Demand) : Prop :=
  ∀ command, demand = obey command → allowed command ∧ command.Solid

end Demand

namespace Script

/-- What a `Script` makes of a `Demand`. -/
def meet (c : Script) : Demand → Script
  | .note pending => { c with pending }
  | .obey command => { c with pending := none }.execute command
  | .newLine => c.newLine
  | .draw code => c.draw code

/-- Feeding a byte is to `meet` its `Demand.ofByte`. -/
theorem feed_eq_meet (c : Script) (b : UInt8) (next : Option UInt8) :
    c.feed b next = c.meet (.ofByte c.pending b next) := by
  obtain ⟨honorsClear, session, pending, scrolls, edits⟩ := c
  unfold feed Demand.ofByte
  cases pending with
  | some sequence =>
    dsimp only
    unfold accumulate
    by_cases hletter : Terminal.isLetter b
    · rw [if_pos hletter, if_pos hletter]
      cases Command.parse? (b :: sequence).reverse <;> rfl
    · rw [if_neg hletter, if_neg hletter]
      rfl
  | none =>
    dsimp only
    -- the bytes that are not drawn, in the order in which they are told apart
    by_cases hline : b = Terminal.lineFeed
    · rw [if_pos hline, if_pos hline]
      rfl
    rw [if_neg hline, if_neg hline]
    by_cases hreturn : b = Terminal.carriageReturn
    · rw [if_pos hreturn, if_pos hreturn]
      split <;> rfl
    rw [if_neg hreturn, if_neg hreturn]
    by_cases hmark : b = ByteStream.endMark
    · rw [if_pos hmark, if_pos hmark]
      rfl
    rw [if_neg hmark, if_neg hmark]
    split <;> rfl

/-! ### What no demand changes -/

section

variable {α : Type} {f : Script → α}
  (hf : ∀ (c : Script) cursor saved pen scrolls edits,
    f { c with session := { c.session with cursor, saved, pen }, scrolls, edits } = f c)

include hf

theorem newLine_keeps (c : Script) : f c.newLine = f c := by
  unfold newLine
  dsimp only
  split <;> exact hf c ..

theorem draw_keeps (c : Script) (code : UInt8) : f (c.draw code) = f c := by
  have hdrawn : f (c.drawCell code) = f c := hf c ..
  unfold draw advance
  split
  · exact (newLine_keeps hf _).trans hdrawn
  · exact (hf (c.drawCell code) ..).trans hdrawn

/-- A `Command` moves the cursor, saves its place or changes the pen, and it may scroll and edit; an
    `f` that does not depend on these stays. -/
theorem execute_keeps (c : Script) (command : Command) : f (c.execute command) = f c := by
  cases command with
  | forward n =>
    have hline : f (if c.session.atLastColumn then c.newLine else c) = f c := by
      split
      · exact newLine_keeps hf c
      · rfl
    exact (hf (if c.session.atLastColumn then c.newLine else c) ..).trans hline
  | eraseDisplay mode =>
    unfold execute
    dsimp only
    split
    · exact hf c ..
    · rfl
  | freeColor paper color => cases paper <;> exact hf c ..
  | _ => exact hf c ..

end

/-! ### Texts that ask for some commands only -/

/-- The command that the next byte of a text makes a `Script` obey. -/
def nextCommand? (c : Script) (text : Bytes) : Option Command :=
  text.head?.bind (Command.ended? c.pending)

/-- The first `n` bytes of a text make a script obey no other commands than those allowed. -/
def OnlyObeys (allowed : Command → Prop) (n : Nat) (c : Script) (text : Bytes) : Prop :=
  ∀ k < n, ∀ command ∈ nextCommand? (step^[k] (c, text)).1 (step^[k] (c, text)).2,
    allowed command

variable {allowed : Command → Prop} {n : Nat} {c : Script} {text : Bytes}

theorem OnlyObeys.of_le (h : c.OnlyObeys allowed n text) {m : Nat} (hle : m ≤ n) :
    c.OnlyObeys allowed m text :=
  fun k hk => h k (Nat.lt_of_lt_of_le hk hle)

/-- The demand of the next byte is `Allowed` where the script `OnlyObeys` allowed commands. -/
theorem OnlyObeys.allowed_ofByte (h : c.OnlyObeys allowed (n + 1) text) {d : Script}
    {b : UInt8} {rest : Bytes} (hstate : step^[n] (c, text) = (d, b :: rest)) :
    (Demand.ofByte d.pending b rest.head?).Allowed allowed := by
  have hnext := h n (Nat.lt_succ_self n)
  rw [hstate] at hnext
  intro command hdemand
  have hended := Demand.ended?_of_ofByte hdemand
  exact ⟨hnext command hended, Command.solid_of_ended? hended⟩

/-- What every `Allowed` demand preserves, any number of bytes preserve: the induction over a text
    is done here once. -/
theorem OnlyObeys.afterBytes {I : Script → Prop} (h : c.OnlyObeys allowed n text)
    (hmeet : ∀ (d : Script) (demand : Demand), I d → demand.Allowed allowed → I (d.meet demand))
    (hc : I c) : I (c.afterBytes n text) := by
  induction n with
  | zero => exact hc
  | succ n ih =>
    have hbefore := ih (h.of_le (Nat.le_succ n))
    unfold Script.afterBytes at hbefore ⊢
    rw [Function.iterate_succ_apply']
    -- the script before the last byte, and what it has left of the text
    obtain ⟨d, rest, hstate⟩ : ∃ d rest, step^[n] (c, text) = (d, rest) := ⟨_, _, rfl⟩
    rw [hstate] at hbefore ⊢
    cases rest with
    | nil => exact hbefore
    | cons b rest =>
      show I (d.feed b rest.head?)
      rw [feed_eq_meet]
      exact hmeet d _ hbefore (h.allowed_ofByte hstate)

/-! ### Pens in a text -/

/-- The pen is of the kind `P`, and all characters so far were drawn with pens of that kind. -/
structure DrawsWith (P : Pen → Prop) (c : Script) : Prop where
  pen : P c.session.pen
  edits : ∀ e ∈ c.edits, e.DrawsWith P

namespace DrawsWith

variable {P : Pen → Prop}

theorem newLine (h : c.DrawsWith P) : c.newLine.DrawsWith P := by
  unfold Script.newLine
  dsimp only
  split
  · exact ⟨h.pen, List.forall_mem_cons.mpr ⟨trivial, h.edits⟩⟩
  · exact ⟨h.pen, h.edits⟩

/-- A character is drawn with the pen of the moment, so `draw` keeps `DrawsWith`. -/
theorem draw (h : c.DrawsWith P) (code : UInt8) : (c.draw code).DrawsWith P := by
  have hdrawn : (c.drawCell code).DrawsWith P :=
    ⟨h.pen, List.forall_mem_cons.mpr ⟨h.pen, h.edits⟩⟩
  unfold Script.draw Script.advance
  split
  · exact hdrawn.newLine
  · exact ⟨hdrawn.pen, hdrawn.edits⟩

/-- A `Command` may change the pen, but it draws nothing. -/
theorem execute (h : c.DrawsWith P) {command : Command}
    (hpen : P (command.onPen c.session.pen)) : (c.execute command).DrawsWith P := by
  cases command with
  | forward n =>
    -- a move from the last column begins with a new line
    unfold Script.execute
    dsimp only
    split
    · exact ⟨h.newLine.pen, h.newLine.edits⟩
    · exact ⟨h.pen, h.edits⟩
  | eraseDisplay mode =>
    unfold Script.execute
    dsimp only
    split
    · exact ⟨h.pen, List.forall_mem_cons.mpr ⟨trivial, h.edits⟩⟩
    · exact h
  | eraseLine => exact ⟨h.pen, List.forall_mem_cons.mpr ⟨trivial, h.edits⟩⟩
  | rendition values => exact ⟨hpen, h.edits⟩
  | freeColor paper color =>
    cases paper with
    | true => exact ⟨hpen, h.edits⟩
    | false => exact ⟨hpen, h.edits⟩
  | up n => exact ⟨h.pen, h.edits⟩
  | down n => exact ⟨h.pen, h.edits⟩
  | backward n => exact ⟨h.pen, h.edits⟩
  | position row column => exact ⟨h.pen, h.edits⟩
  | saveCursor => exact ⟨h.pen, h.edits⟩
  | restoreCursor => exact ⟨h.pen, h.edits⟩

/-- To `meet` a demand keeps the kind of the pens if the command that it may be for does. -/
theorem meet (h : c.DrawsWith P) {demand : Demand}
    (hpen : ∀ command, demand = .obey command → P (command.onPen c.session.pen)) :
    (c.meet demand).DrawsWith P := by
  cases demand with
  | note pending => exact ⟨h.pen, h.edits⟩
  | obey command =>
    have hended : DrawsWith P { c with pending := none } := ⟨h.pen, h.edits⟩
    exact hended.execute (hpen command rfl)
  | newLine => exact h.newLine
  | draw code => exact h.draw code

end DrawsWith

end Script

namespace Reading

/-- The `Command` that the next byte of a stream makes a terminal obey. -/
def nextCommand? (r : Reading) : Option Command :=
  r.stream.peek?.bind (Command.ended? r.terminal.pending)

/-- The first `n` bytes of a stream make a terminal obey no other commands than those
    allowed. -/
def OnlyObeys (allowed : Command → Prop) (n : Nat) (r : Reading) : Prop :=
  ∀ k < n, ∀ command ∈ (step^[k] r).nextCommand?, allowed command

instance (allowed : Command → Prop) [DecidablePred allowed] (n : Nat) (r : Reading) :
    Decidable (OnlyObeys allowed n r) :=
  inferInstanceAs (Decidable (∀ k < n, ∀ command ∈ (step^[k] r).nextCommand?, allowed command))

/-- What a terminal obeys, its `script` obeys. -/
theorem OnlyObeys.script {allowed : Command → Prop} {n : Nat} {t : Terminal} {s : ByteStream}
    (h : OnlyObeys allowed n { terminal := t, stream := s }) :
    t.script.OnlyObeys allowed n s.rest := by
  intro k hk command hnext
  obtain ⟨hterminal, hrest⟩ := iterate_step_after
    (r := { terminal := t, stream := s }) t.after_script.symm k
  refine h k hk command ?_
  rw [nextCommand?, ByteStream.peek?, hterminal, hrest]
  exact hnext

end Reading

end TextArt
