import TextArt.Proofs.Cancelling

namespace TextArt

/-!
# Completion — who waits is called back once, and only at the end

Somebody who waits for the end of a run is called back by the first chunk that finds nothing
left.  It does not matter whether that chunk is the one with which the run begins, one that is
due while time passes, or one that is taken by hand.  Nothing else calls anybody back.

* `Player.chunksWithin`, `Player.chunksOf`, `Player.chunksOfAll` — the chunks that are taken
  while time passes, in one act and in several, each as the player with which it begins;
* `Player.Leads` — some chunks lead from one player to another; while time passes nothing else
  happens but the running of the clocks and the blink (`Player.leads_advance`), and no act but a
  `play` or a `load` decides who waits (`Player.leads_act`);
* `Player.Leads.outcome` — what has come of some chunks in the end;
* `Player.calls_foldl_act` — whoever is called back has been told to wait before, each time anew;
* `Player.completed_at_end` — whom a run calls back, and when.
-/

namespace Player

variable {p q r : Player} {chunks more : List Player}

/-! ### The chunks of an act -/

namespace Act

/-- Whether an `Act` decides who waits: `play` and `load` do. -/
def setsWaiting : Act → Bool
  | play .. | load _ => true
  | _ => false

/-- Whether an `Act` starts a run. -/
def starts : Act → Bool
  | play .. => true
  | _ => false

/-- Who is told to wait in several acts, by the number `id` of the `Callback`. -/
def given : List Act → List Nat
  | [] => []
  | play _ waiting _ :: acts => (waiting.map Callback.id).toList ++ given acts
  | _ :: acts => given acts

theorem given_cons (a : Act) (acts : List Act) : given (a :: acts) = given [a] ++ given acts := by
  cases a <;> simp [given]

end Act

/-- The chunks that are taken while time passes, each as the player that is about to take it. This
    goes from tick to tick as `advance` does; a chunk begins when its clock has been set anew. -/
def chunksWithin (p : Player) (time : Nat) : List Player :=
  if p.cancelled then []
  else match p.chunkTicker.soonest p.blinkTicker with
    | none => []
    | some ⟨next, _⟩ =>
      if time < next then []
      else
        (if p.chunkTicker.isDue next then [p.wait next] else [])
          ++ (p.tick next).chunksWithin (time - next)
termination_by time

/-- The chunks of an `Act`. -/
def chunksOf (p : Player) : Act → List Player
  | .play baud waiting reset => [p.started baud waiting reset]
  | .advance time => p.chunksWithin time
  | .stepChunk => [p]
  | _ => []

/-- The chunks of several acts, one act after another. -/
def chunksOfAll (p : Player) : List Act → List Player
  | [] => []
  | a :: acts => p.chunksOf a ++ (p.act a).chunksOfAll acts

/-- Whether one of some chunks finds nothing, as it begins where `stream.atEnd` holds. -/
def findsNothing (chunks : List Player) : Bool :=
  chunks.any (·.stream.atEnd)

/-- Who waits, by the number of the `Callback`, if anybody does. -/
def waiters (p : Player) : List Nat :=
  (p.waiting.map Callback.id).toList

/-! ### What leads from chunk to chunk -/

/-- Some chunks lead from one player to another, and between them players stay the `same` in some
    way. -/
inductive Leads (same : Player → Player → Prop) : Player → List Player → Player → Prop where
  | rest {p q : Player} (h : same p q) : Leads same p [] q
  | chunk {p begun q : Player} {chunks : List Player} (h : same p begun)
    (hleads : Leads same begun.stepChunk.2 chunks q) : Leads same p (begun :: chunks) q

namespace Leads

variable {same same' : Player → Player → Prop}

theorem mono (hsame : ∀ {p q}, same p q → same' p q) (h : Leads same p chunks q) :
    Leads same' p chunks q := by
  induction h with
  | rest h => exact .rest (hsame h)
  | chunk h _ ih => exact .chunk (hsame h) ih

variable (htrans : ∀ {p q r}, same p q → same q r → same p r)

include htrans

/-- What `Leads` on may begin a little earlier, at a player that is the `same` so far. -/
theorem of_same (h : same p q) (hleads : Leads same q chunks r) : Leads same p chunks r := by
  cases hleads with
  | rest hrest => exact .rest (htrans h hrest)
  | chunk hbegun hleads => exact .chunk (htrans h hbegun) hleads

theorem append (h₁ : Leads same p chunks q) (h₂ : Leads same q more r) :
    Leads same p (chunks ++ more) r := by
  induction h₁ with
  | rest h => exact of_same htrans h h₂
  | chunk h _ ih => exact .chunk h (ih h₂)

end Leads

/-- Before a chunk are the chunks before it: `Leads` can be split there. -/
theorem Leads.split {same : Player → Player → Prop} (hrefl : ∀ p, same p p)
    {earlier later : List Player} {begun : Player}
    (h : Leads same p (earlier ++ begun :: later) q) :
    ∃ before, Leads same p earlier before ∧ same before begun := by
  induction earlier generalizing p with
  | nil =>
    cases h with
    | chunk hbegun _ => exact ⟨p, .rest (hrefl p), hbegun⟩
  | cons first earlier ih =>
    cases h with
    | chunk hfirst hleads =>
      obtain ⟨before, hbefore, hbegun⟩ := ih hleads
      exact ⟨before, .chunk hfirst hbefore, hbegun⟩

/-- All is the same but the clocks and the blink. -/
structure OnlyWaits (p q : Player) : Prop where
  eq : q = { p with
    terminal := q.terminal, chunkTicker := q.chunkTicker, blinkTicker := q.blinkTicker }
  settled_eq : q.terminal.settled = p.terminal.settled

theorem OnlyWaits.refl (p : Player) : p.OnlyWaits p :=
  ⟨rfl, rfl⟩

theorem OnlyWaits.trans (h₁ : p.OnlyWaits q) (h₂ : q.OnlyWaits r) : p.OnlyWaits r where
  eq := h₂.eq.trans (congrArg (fun q : Player => { q with
    terminal := r.terminal, chunkTicker := r.chunkTicker, blinkTicker := r.blinkTicker }) h₁.eq)
  settled_eq := h₂.settled_eq.trans h₁.settled_eq

/-- A `tick` takes the chunk that is due, if one is. -/
theorem leads_tick (p : Player) (time : Nat) :
    Leads OnlyWaits p (if p.chunkTicker.isDue time then [p.wait time] else []) (p.tick time) := by
  have hwait : p.OnlyWaits (p.wait time) := ⟨rfl, rfl⟩
  -- after the chunk only the clock of the blink is set, or its phase shown
  have hblink : ∀ chunked : Player, chunked.OnlyWaits
      (if p.blinkTicker.isDue time then
        if chunked.cancelled then { chunked with blinkTicker := .stopped 0 }
        else chunked.mergeBlink
      else chunked) := by
    intro chunked
    split
    · split <;> exact ⟨rfl, rfl⟩
    · exact .refl chunked
  rw [tick_eq]
  dsimp only
  split
  · exact .chunk hwait (.rest (hblink _))
  · exact .rest (hwait.trans (hblink _))

/-- While time passes, the chunks of `chunksWithin` are taken, and nothing else happens but the
    running of the clocks and the blink. -/
theorem leads_advance (p : Player) (time : Nat) :
    Leads OnlyWaits p (p.chunksWithin time) (p.advance time) := by
  fun_induction chunksWithin p time with
  | case1 p time hcancelled =>
    rw [advance_of_cancelled hcancelled]
    exact .rest ⟨rfl, rfl⟩
  | case2 p time hlive hnext =>
    rw [advance_of_none (Bool.eq_false_iff.mpr hlive) hnext]
    exact .rest (.refl p)
  | case3 p time hlive next hpos hnext hlt =>
    rw [advance_of_lt (Bool.eq_false_iff.mpr hlive) hnext hlt]
    exact .rest ⟨rfl, rfl⟩
  | case4 p time hlive next hpos hnext hge ih =>
    rw [advance_of_le (Bool.eq_false_iff.mpr hlive) hnext (Nat.not_lt.mp hge)]
    exact Leads.append OnlyWaits.trans (leads_tick p next) ih

/-! ### Who waits -/

/-- Who is `waiting`, who has been called back and the size of the chunks are the same. -/
structure KeepsWaiting (p q : Player) : Prop where
  waiting_eq : q.waiting = p.waiting
  completed_eq : q.completed = p.completed
  chunk_eq : q.chunk = p.chunk

theorem KeepsWaiting.refl (p : Player) : p.KeepsWaiting p :=
  ⟨rfl, rfl, rfl⟩

theorem KeepsWaiting.trans (h₁ : p.KeepsWaiting q) (h₂ : q.KeepsWaiting r) : p.KeepsWaiting r :=
  ⟨h₂.waiting_eq.trans h₁.waiting_eq, h₂.completed_eq.trans h₁.completed_eq,
    h₂.chunk_eq.trans h₁.chunk_eq⟩

theorem OnlyWaits.keepsWaiting (h : p.OnlyWaits q) : p.KeepsWaiting q := by
  rw [h.eq]
  exact ⟨rfl, rfl, rfl⟩

/-- Nothing but chunks changes who waits, as long as no act `setsWaiting`. -/
theorem leads_act (p : Player) {a : Act} (ha : a.setsWaiting = false) :
    Leads KeepsWaiting p (p.chunksOf a) (p.act a) := by
  cases a with
  | play baud waiting reset => exact nomatch ha
  | load file => exact nomatch ha
  | advance time => exact (leads_advance p time).mono OnlyWaits.keepsWaiting
  | stepChunk => exact .chunk (.refl p) (.rest (.refl _))
  | cancel run =>
    show Leads KeepsWaiting p [] (p.cancel run)
    unfold cancel
    split <;> exact .rest ⟨rfl, rfl, rfl⟩
  | stop => exact .rest ⟨rfl, rfl, rfl⟩
  | renderAll => exact .rest ⟨rfl, rfl, rfl⟩
  | mergeBlink => exact .rest ⟨rfl, rfl, rfl⟩
  | frame => exact .rest ⟨rfl, rfl, rfl⟩
  | snapshot => exact .rest (.refl p)

theorem leads_foldl_act (p : Player) {acts : List Act}
    (hacts : ∀ a ∈ acts, a.setsWaiting = false) :
    Leads KeepsWaiting p (p.chunksOfAll acts) (acts.foldl act p) := by
  induction acts generalizing p with
  | nil => exact .rest (.refl p)
  | cons a acts ih =>
    have hfirst := leads_act p (hacts a List.mem_cons_self)
    have hlater := ih (p.act a) fun b hb => hacts b (List.mem_cons_of_mem a hb)
    exact Leads.append KeepsWaiting.trans hfirst hlater

/-- A run is the chunk with which `play` begins and what is done later. -/
theorem leads_play (p : Player) (baud : Option Nat) (waiting : Option Callback) (reset : Bool)
    {during : List Act} (hduring : ∀ a ∈ during, a.setsWaiting = false) :
    Leads KeepsWaiting (p.started baud waiting reset)
      (p.chunksOfAll (.play baud waiting reset :: during))
      ((Act.play baud waiting reset :: during).foldl act p) :=
  .chunk (.refl _) (leads_foldl_act (p.play baud waiting reset) hduring)

/-! ### What has come of some chunks -/

/-- What one `stepChunk` does to those who wait: at the end of the art they are called back, and
    nobody waits any more. -/
theorem stepChunk_waiting (hchunk : 1 ≤ p.chunk) :
    p.stepChunk.2.completed = (if p.stream.atEnd then p.waiters else []) ++ p.completed
      ∧ p.stepChunk.2.waiting = (if p.stream.atEnd then none else p.waiting)
      ∧ p.stepChunk.2.chunk = p.chunk := by
  by_cases hrest : p.stream.rest = []
  · have hend : p.stream.atEnd = true := List.isEmpty_iff.mpr hrest
    rw [stepChunk_of_rest_eq_nil hrest, finish_eq, hend]
    exact ⟨rfl, rfl, rfl⟩
  · have hend : p.stream.atEnd = false := by
      rw [ByteStream.atEnd, List.isEmpty_eq_false_iff]
      exact hrest
    obtain ⟨_, terminal, stream, _, hstep, _⟩ := stepChunk_of_rest_ne_nil hchunk hrest
    rw [hstep, hend]
    exact ⟨rfl, rfl, rfl⟩

/-- **What has come of some chunks.** The first of them that finds nothing has moved whoever waited
    from `waiters` to `completed`, and since then nobody waits. -/
theorem Leads.outcome (h : Leads KeepsWaiting p chunks q) (hchunk : 1 ≤ p.chunk) :
    q.completed = (if findsNothing chunks then p.waiters else []) ++ p.completed
      ∧ q.waiting = (if findsNothing chunks then none else p.waiting)
      ∧ q.chunk = p.chunk := by
  induction h with
  | rest h => exact ⟨h.completed_eq, h.waiting_eq, h.chunk_eq⟩
  | @chunk p begun q chunks h _ ih =>
    have hbegun : 1 ≤ begun.chunk := h.chunk_eq ▸ hchunk
    obtain ⟨hcompleted, hwaiting, hsize⟩ := stepChunk_waiting hbegun
    obtain ⟨hcompleted', hwaiting', hsize'⟩ := ih (hsize ▸ hbegun)
    have hany : findsNothing (begun :: chunks) = (begun.stream.atEnd || findsNothing chunks) := rfl
    rw [hcompleted', hwaiting', hsize', waiters, hcompleted, hwaiting, hsize, hany, waiters,
      h.waiting_eq, h.completed_eq, h.chunk_eq]
    -- a chunk that finds nothing leaves nobody for those after it
    cases begun.stream.atEnd with
    | true => cases findsNothing chunks <;> exact ⟨rfl, rfl, rfl⟩
    | false => cases findsNothing chunks <;> exact ⟨rfl, rfl, rfl⟩

/-- Whoever has been called back or still waits was among the `waiters` at the beginning. -/
theorem Leads.calls (h : Leads KeepsWaiting p chunks q) (hchunk : 1 ≤ p.chunk) :
    ∃ called, q.completed = called ++ p.completed ∧ called.reverse ++ q.waiters = p.waiters := by
  obtain ⟨hcompleted, hwaiting, _⟩ := h.outcome hchunk
  refine ⟨_, hcompleted, ?_⟩
  have hwaiters : q.waiters = if findsNothing chunks then [] else p.waiters := by
    rw [waiters, hwaiting, waiters]
    split <;> rfl
  rw [hwaiters]
  split
  · rw [List.append_nil, waiters]
    cases p.waiting <;> rfl
  · rfl

/-- The chunks of a run have at least one byte, after any `Act`. -/
theorem one_le_chunk_act (hchunk : 1 ≤ p.chunk) (a : Act) : 1 ≤ (p.act a).chunk := by
  cases ha : a.setsWaiting with
  | false =>
    obtain ⟨_, _, hsize⟩ := (leads_act p ha).outcome hchunk
    rwa [hsize]
  | true =>
    cases a with
    | play baud waiting reset =>
      have hstarted : 1 ≤ (p.started baud waiting reset).chunk := chunkSize_pos _
      obtain ⟨_, _, hsize⟩ := stepChunk_waiting hstarted
      show 1 ≤ (p.started baud waiting reset).stepChunk.2.chunk
      rwa [hsize]
    | load file => exact hchunk
    | _ => exact nomatch ha

theorem one_le_chunk_foldl_act (hchunk : 1 ≤ p.chunk) (acts : List Act) :
    1 ≤ (acts.foldl act p).chunk :=
  @List.foldlRecOn _ _ (fun q => 1 ≤ q.chunk) acts act p hchunk fun _ h a _ => one_le_chunk_act h a

/-- Whoever is called back by an `Act`, or waits after it, has waited before or is told to. -/
theorem calls_act (hchunk : 1 ≤ p.chunk) (a : Act) :
    ∃ called, (p.act a).completed = called ++ p.completed
      ∧ (called.reverse ++ (p.act a).waiters).Sublist (p.waiters ++ Act.given [a]) := by
  -- acts that leave the waiting alone call back by their chunks only; the others are looked at
  cases ha : a.setsWaiting with
  | false =>
    obtain ⟨called, hcompleted, hwaiters⟩ := (leads_act p ha).calls hchunk
    exact ⟨called, hcompleted, hwaiters ▸ List.sublist_append_left _ _⟩
  | true =>
    cases a with
    -- `play` begins anew with the one who is given, and its first chunk may call him back at once
    | play baud waiting reset =>
      have hstarted : 1 ≤ (p.started baud waiting reset).chunk := chunkSize_pos _
      have hleads : Leads KeepsWaiting (p.started baud waiting reset)
          [p.started baud waiting reset] (p.play baud waiting reset) :=
        .chunk (.refl _) (.rest (.refl _))
      obtain ⟨called, hcompleted, hwaiters⟩ := hleads.calls hstarted
      have hgiven : Act.given [.play baud waiting reset] = (p.started baud waiting reset).waiters :=
        List.append_nil _
      refine ⟨called, hcompleted, ?_⟩
      show (called.reverse ++ (p.play baud waiting reset).waiters).Sublist _
      rw [hwaiters, hgiven]
      exact List.sublist_append_right _ _
    | load file => exact ⟨[], rfl, List.nil_sublist _⟩
    | _ => exact nomatch ha

/-- Whoever is called back has been `given` before, each time anew, and not since somebody else has
    been; by induction on the acts with `calls_act`. -/
theorem calls_foldl_act (hchunk : 1 ≤ p.chunk) (acts : List Act) :
    ∃ called, (acts.foldl act p).completed = called ++ p.completed
      ∧ (called.reverse ++ (acts.foldl act p).waiters).Sublist (p.waiters ++ Act.given acts) := by
  induction acts generalizing p with
  | nil => exact ⟨[], rfl, by simp [Act.given]⟩
  | cons a acts ih =>
    -- the first act calls some, and the others call those who are left or given later
    obtain ⟨first, hfirst, hwaiters⟩ := calls_act hchunk a
    obtain ⟨later, hlater, hwaiters'⟩ := ih (one_le_chunk_act hchunk a)
    refine ⟨later ++ first, ?_, ?_⟩
    · rw [List.foldl_cons, hlater, hfirst, List.append_assoc]
    · calc (later ++ first).reverse ++ (acts.foldl act (p.act a)).waiters
          = first.reverse ++ (later.reverse ++ (acts.foldl act (p.act a)).waiters) := by
            rw [List.reverse_append, List.append_assoc]
        List.Sublist _ (first.reverse ++ ((p.act a).waiters ++ Act.given acts)) :=
            hwaiters'.append_left first.reverse
        _ = (first.reverse ++ (p.act a).waiters) ++ Act.given acts := by rw [List.append_assoc]
        List.Sublist _ ((p.waiters ++ Act.given [a]) ++ Act.given acts) :=
            hwaiters.append_right (Act.given acts)
        _ = p.waiters ++ Act.given (a :: acts) := by rw [List.append_assoc, ← Act.given_cons]

/-- Whoever still waits when an act `setsWaiting` for somebody else, or for nobody, is not called
    back. -/
theorem calls_after (hchunk : 1 ≤ p.chunk) {acts : List Act}
    (hacts : ∀ a ∈ acts.head?, a.setsWaiting = true) :
    ∃ called, (acts.foldl act p).completed = called ++ p.completed
      ∧ called.reverse.Sublist (Act.given acts) := by
  cases acts with
  | nil => exact ⟨[], rfl, List.nil_sublist _⟩
  | cons a acts =>
    -- who waits is replaced by the first act, so he may as well be left out before it
    have hforgets : p.act a = { p with waiting := none }.act a := by
      have ha := hacts a rfl
      cases a with
      | play baud waiting reset => rfl
      | load file => rfl
      | _ => exact nomatch ha
    obtain ⟨called, hcompleted, hcalled⟩ :=
      @calls_foldl_act { p with waiting := none } hchunk (a :: acts)
    rw [List.foldl_cons, ← hforgets] at hcompleted
    exact ⟨called, hcompleted, (List.sublist_append_left _ _).trans hcalled⟩

/-! ### After the run has been cancelled -/

/-- A run that is `cancelled` stays so until another one is started. -/
theorem cancelled_act (h : p.cancelled = true) {a : Act} (ha : a.starts = false) :
    (p.act a).cancelled = true := by
  cases a with
  | play baud waiting reset => exact nomatch ha
  | advance time =>
    show (p.advance time).cancelled = true
    -- a player that is cancelled only stops its clocks while time passes
    rw [advance_of_cancelled h]
    exact h
  | stepChunk => exact cancelled_stepChunk h
  | cancel run =>
    show (p.cancel run).cancelled = true
    unfold cancel
    split
    · rfl
    · exact h
  | stop => rfl
  | load file => exact h
  | renderAll => rfl
  | mergeBlink => exact h
  | frame => exact h
  | snapshot => exact h

theorem cancelled_foldl_act (h : p.cancelled = true) {acts : List Act}
    (hacts : ∀ a ∈ acts, a.starts = false) : (acts.foldl act p).cancelled = true :=
  @List.foldlRecOn _ _ (fun q => q.cancelled = true) acts act p h fun _ h a ha =>
    cancelled_act h (hacts a ha)

/-- An `advance` calls nobody back once the run is `cancelled`. -/
theorem completed_advance_of_cancelled (h : p.cancelled = true) {acts : List Act}
    (hacts : ∀ a ∈ acts, a.starts = false) (time : Nat) :
    ((acts.foldl act p).advance time).completed = (acts.foldl act p).completed := by
  rw [advance_of_cancelled (cancelled_foldl_act h hacts)]
  rfl

/-! ### The end of a run -/

/-- One of the chunks of a run calls back whoever waits for the end of the run, if it finds nothing
    and none before it has. -/
theorem Leads.completed_stepChunk {earlier later : List Player} {begun : Player}
    (h : Leads KeepsWaiting p (earlier ++ begun :: later) q) (hchunk : 1 ≤ p.chunk) :
    begun.stepChunk.2.completed =
      (if begun.stream.atEnd && !findsNothing earlier then p.waiters else [])
        ++ begun.completed := by
  obtain ⟨before, hbefore, hkeeps⟩ := h.split KeepsWaiting.refl
  obtain ⟨_, hwaiting, hsize⟩ := hbefore.outcome hchunk
  have hbegun : 1 ≤ begun.chunk := by rwa [hkeeps.chunk_eq, hsize]
  have hwaiters : begun.waiters = if findsNothing earlier then [] else p.waiters := by
    rw [waiters, hkeeps.waiting_eq, hwaiting, waiters]
    split <;> rfl
  rw [(stepChunk_waiting hbegun).1, hwaiters]
  cases begun.stream.atEnd <;> cases findsNothing earlier <;> rfl

/-- **Whoever waits for the end of a run is called back once, and only there.** Let `play` tell
    somebody to wait for the end of a run, after any acts `before`, and let no act in `during` be a
    `play` or `load`. He is in `completed` after that if one of the chunks of `chunksOf` and
    `chunksOfAll` that are taken meanwhile finds nothing, and else he is not; it is the first such
    chunk that calls him back, and then all of the art has been read. The chunks of `chunksWithin`
    are all that happens while time passes, but for the running of the clocks and the blink. All who
    have been called back before were `given` before, each time anew, and those who are called back
    after the next `play` or `load` are `given` there or later; so nobody is called back twice for
    one run, or when somebody else waits or nobody does. `stop`, `load`, `renderAll`, `mergeBlink`
    and `frame` call nobody back, and neither does `advance` after the run has been stopped or
    cancelled. -/
theorem completed_at_end (file : Bytes) (config : Config) (before during after : List Act)
    (baud : Option Nat) (waiting : Option Callback) (reset : Bool)
    (hduring : ∀ a ∈ during, a.setsWaiting = false)
    (hafter : ∀ a ∈ after.head?, a.setsWaiting = true) :
    let p := before.foldl act (.new file config)
    let q := (Act.play baud waiting reset :: during).foldl act p
    let r := after.foldl act q
    let chunks := p.chunksOfAll (.play baud waiting reset :: during)
    let numbers := (waiting.map Callback.id).toList
    q.completed = (if findsNothing chunks then numbers else []) ++ p.completed
    ∧ (∀ earlier chunk later, chunks = earlier ++ chunk :: later →
        chunk.stepChunk.2.completed =
          (if chunk.stream.atEnd && !findsNothing earlier then numbers else [])
            ++ chunk.completed
        ∧ (chunk.stream.atEnd = true →
            chunk.stepChunk.2.stream = chunk.stream
            ∧ chunk.stream.position = chunk.stream.length))
    ∧ (∀ s : Player, ∀ time, Leads OnlyWaits s (s.chunksWithin time) (s.advance time))
    ∧ p.completed.reverse.Sublist (Act.given before)
    ∧ (∃ later, r.completed = later ++ q.completed
        ∧ later.reverse.Sublist (Act.given after))
    ∧ (∀ file',
        p.stop.completed = p.completed
        ∧ (p.load file').completed = p.completed
        ∧ p.renderAll.2.completed = p.completed
        ∧ p.mergeBlink.completed = p.completed
        ∧ p.frame.2.completed = p.completed)
    ∧ (∀ later : List Act, (∀ a ∈ later, a.starts = false) → ∀ time,
        let stopped := later.foldl act p.stop
        let cancelled := later.foldl act (p.cancel p.run)
        (stopped.advance time).completed = stopped.completed
        ∧ (cancelled.advance time).completed = cancelled.completed) := by
  intro p q r chunks numbers
  have hnew : 1 ≤ (new file config).chunk := chunkSize_pos _
  have hstarted : 1 ≤ (p.started baud waiting reset).chunk := chunkSize_pos _
  have hleads : Leads KeepsWaiting (p.started baud waiting reset) chunks q :=
    leads_play p baud waiting reset hduring
  refine ⟨(hleads.outcome hstarted).1, fun earlier chunk later hchunks => ⟨?_, fun hend => ?_⟩,
    leads_advance, ?_, ?_, fun _ => ⟨rfl, rfl, rfl, rfl, rfl⟩, fun later hlater time => ⟨?_, ?_⟩⟩
  -- the chunk that finds nothing first is the one of `Leads.completed_stepChunk`
  · rw [hchunks] at hleads
    exact hleads.completed_stepChunk hstarted
  -- at the end of the art `stepChunk` only finishes, and the position is the length
  · have hrest : chunk.stream.rest = [] := List.isEmpty_iff.mp hend
    rw [stepChunk_of_rest_eq_nil hrest, finish_eq, ByteStream.position, hrest]
    exact ⟨rfl, rfl⟩
  -- a new player has called nobody back, so all that were called were given in `before`
  · obtain ⟨called, hcompleted, hcalled⟩ := calls_foldl_act hnew before
    have hall : p.completed = called := hcompleted.trans (List.append_nil called)
    rw [hall]
    exact (List.sublist_append_left _ _).trans hcalled
  · exact calls_after (one_le_chunk_foldl_act (one_le_chunk_foldl_act hnew before) _) hafter
  · exact completed_advance_of_cancelled rfl hlater time
  · have hcancelled : (p.cancel p.run).cancelled = true := by
      rw [cancel, if_pos rfl]
    exact completed_advance_of_cancelled hcancelled hlater time

/-- A case of `completed_at_end`: one byte, whose end is found by the second chunk, even if the run
    has been stopped before; a third one finds nobody who waits. -/
theorem completed_of_one_byte :
    let waiter : Callback := { id := 7 }
    let during := [Act.stop, .stepChunk, .mergeBlink, .stepChunk]
    let after := [Act.load [], .stepChunk]
    let p := new [0x48] .ordinary
    let q := (Act.play none (some waiter) true :: during).foldl act p
    (∀ a ∈ during, a.setsWaiting = false)
    ∧ (∀ a ∈ after.head?, a.setsWaiting = true)
    ∧ (p.chunksOfAll (.play none (some waiter) true :: during)).map (·.stream.position) = [0, 1, 1]
    ∧ q.completed = [7]
    ∧ (after.foldl act q).completed = [7] := by
  intro waiter during after p q
  have hduring : ∀ a ∈ during, a.setsWaiting = false := by decide
  have hafter : ∀ a ∈ after.head?, a.setsWaiting = true := by decide
  obtain ⟨hcompleted, _, _, _, hlater, _⟩ :=
    completed_at_end [0x48] .ordinary [] during after none (some waiter) true hduring hafter
  obtain ⟨later, hcompleted', hsublist⟩ := hlater
  have hnobody : later = [] := List.reverse_eq_nil_iff.mp (List.sublist_nil.mp hsublist)
  have hq : q.completed = [7] := by
    refine hcompleted.trans ?_
    decide
  refine ⟨hduring, hafter, ?_, hq, ?_⟩
  · decide
  · refine hcompleted'.trans ?_
    rw [hnobody, List.nil_append]
    exact hq

end Player

end TextArt
