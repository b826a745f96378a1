import TextArt.Proofs.Texts

namespace TextArt

/-!
# Tokens — the grammar of art

A terminal goes through art byte by byte, with one byte in view and some bytes put aside.  The
art itself is a row of tokens, and the terminal does for each token what the token says.

* `Token`, `Token.text` — ends of lines, bytes that are passed over, whole sequences, a sequence
  that the art ends in, and characters;
* `Token.Fits` — the bytes of a token, and what may come after it; `Token.Spells` says that some
  tokens that fit make up a text;
* `Token.lex` — the tokens of a text, each of them the longest that fits;
  `Token.spells_iff` says that there are no others;
* `Terminal.obey` — what a token does;
* `Terminal.readToEnd_eq_foldl_obey` — reading art to its end is obeying its tokens.
-/

/-- A part of art that is obeyed as a whole. -/
inductive Token where
  /-- The end of a line: a `lineFeed`, which a `carriageReturn` may stand before. -/
  | newLine (afterReturn : Bool)
  /-- A byte that is passed over. -/
  | skip (b : UInt8)
  /-- A sequence with its final letter. -/
  | command (body : Bytes) (letter : UInt8)
  /-- A sequence without a letter, which the art ends in. -/
  | pending (body : Bytes)
  /-- A byte that is drawn. -/
  | glyph (code : UInt8)
  deriving DecidableEq, Repr

namespace Token

open Terminal (lineFeed carriageReturn escape bracket isLetter Heeds)

/-- The bytes of a `Token`. -/
def text : Token → Bytes
  | newLine afterReturn => if afterReturn then [carriageReturn, lineFeed] else [lineFeed]
  | skip b => [b]
  | command body letter => escape :: bracket :: (body ++ [letter])
  | pending body => escape :: bracket :: body
  | glyph code => [code]

/-- A token is made as its kind asks for, and may stand before a text that begins with `next`. -/
def Fits (next : Option UInt8) : Token → Prop
  | newLine _ => True
  | skip b => b = ByteStream.endMark ∨ b = carriageReturn ∧ next ≠ some lineFeed
  | command body letter => (∀ b ∈ body, isLetter b = false) ∧ isLetter letter = true
  | pending body => (∀ b ∈ body, isLetter b = false) ∧ next = none
  | glyph code =>
    code ∉ [lineFeed, carriageReturn, ByteStream.endMark]
      ∧ ¬ (code = escape ∧ next = some bracket)

/-- Tokens make up a text, each of them such that it `Fits` before the rest. -/
inductive Spells : List Token → Bytes → Prop where
  | nil : Spells [] []
  | cons {token : Token} {tokens : List Token} {rest : Bytes} (hfits : token.Fits rest.head?)
      (h : Spells tokens rest) : Spells (token :: tokens) (token.text ++ rest)

/-- The `Token` that a text begins with: a sequence goes up to the first letter, or to the end. -/
def first (b : UInt8) (rest : Bytes) : Token :=
  if b = lineFeed then newLine false
  else if b = carriageReturn then
    if rest.head? = some lineFeed then newLine true else skip b
  else if b = ByteStream.endMark then skip b
  else if b = escape ∧ rest.head? = some bracket then
    match rest.tail.dropWhile (fun c => !isLetter c) with
    | [] => pending rest.tail
    | letter :: _ => command (rest.tail.takeWhile fun c => !isLetter c) letter
  else glyph b

variable {token : Token} {tokens : List Token} {bytes : Bytes}

theorem text_ne_nil (token : Token) : token.text ≠ [] := by
  cases token with
  | newLine afterReturn => cases afterReturn <;> exact List.cons_ne_nil _ _
  | _ => exact List.cons_ne_nil _ _

/-- The tokens of a text, `first` after `first`. -/
def lex : Bytes → List Token
  | [] => []
  | b :: rest => first b rest :: lex ((b :: rest).drop (first b rest).text.length)
termination_by bytes => bytes.length
decreasing_by
  have hpos : 0 < (first b rest).text.length := List.length_pos_of_ne_nil (text_ne_nil _)
  simp only [List.length_drop, List.length_cons]
  omega

@[simp] theorem lex_nil : lex [] = [] := by
  rw [lex]

/-! ### There is one way to spell a text -/

/-- A text begins with its `first` token, which `Fits` before what is left. -/
theorem exists_rest_of_first (b : UInt8) (rest : Bytes) :
    ∃ left, b :: rest = (first b rest).text ++ left ∧ (first b rest).Fits left.head? := by
  unfold first
  by_cases hline : b = lineFeed
  · rw [if_pos hline]
    exact ⟨rest, by rw [hline]; rfl, trivial⟩
  rw [if_neg hline]
  by_cases hreturn : b = carriageReturn
  · rw [if_pos hreturn]
    by_cases hnext : rest.head? = some lineFeed
    · obtain ⟨left, rfl⟩ := List.head?_eq_some_iff.mp hnext
      rw [if_pos hnext]
      exact ⟨left, by rw [hreturn]; rfl, trivial⟩
    · rw [if_neg hnext]
      exact ⟨rest, rfl, .inr ⟨hreturn, hnext⟩⟩
  rw [if_neg hreturn]
  by_cases hmark : b = ByteStream.endMark
  · rw [if_pos hmark]
    exact ⟨rest, rfl, .inl hmark⟩
  rw [if_neg hmark]
  by_cases hopen : b = escape ∧ rest.head? = some bracket
  · obtain ⟨left, rfl⟩ := List.head?_eq_some_iff.mp hopen.2
    rw [if_pos hopen, hopen.1, List.tail_cons]
    -- what is not a letter, up to the first letter or to the end
    have hbody : ∀ c ∈ left.takeWhile fun c => !isLetter c, isLetter c = false := by
      intro c hc
      simpa using List.all_eq_true.mp List.all_takeWhile c hc
    have hsplit : (left.takeWhile fun c => !isLetter c) ++ (left.dropWhile fun c => !isLetter c)
        = left := List.takeWhile_append_dropWhile
    cases hdrop : left.dropWhile fun c => !isLetter c with
    | nil =>
      rw [hdrop, List.append_nil] at hsplit
      rw [hsplit] at hbody
      exact ⟨[], (List.append_nil _).symm, hbody, rfl⟩
    | cons letter after =>
      have hletter : isLetter letter = true := by
        have hhead := List.head?_dropWhile_not (fun c => !isLetter c) left
        rw [hdrop] at hhead
        simpa using hhead
      refine ⟨after, ?_, hbody, hletter⟩
      rw [hdrop] at hsplit
      simp [text, hsplit]
  · rw [if_neg hopen]
    exact ⟨rest, rfl, by simp [hline, hreturn, hmark], hopen⟩

/-- The tokens that `lex` finds in a text make it up. -/
theorem spells_lex (bytes : Bytes) : Spells (lex bytes) bytes := by
  fun_induction lex bytes with
  | case1 => exact .nil
  | case2 b rest ih =>
    obtain ⟨left, hbytes, hfits⟩ := exists_rest_of_first b rest
    have hleft : (b :: rest).drop (first b rest).text.length = left := by
      rw [hbytes, List.drop_left]
    rw [hleft] at ih ⊢
    rw [hbytes]
    exact .cons hfits ih

/-- What is no letter goes into the `body` of a sequence, up to what may not. -/
theorem splitWhile_append {body rest : Bytes} (hbody : ∀ b ∈ body, isLetter b = false)
    (hrest : ∀ b ∈ rest.head?, isLetter b = true) :
    ((body ++ rest).takeWhile fun c => !isLetter c) = body
      ∧ ((body ++ rest).dropWhile fun c => !isLetter c) = rest := by
  have hinside : ∀ b ∈ body, (!isLetter b) = true := fun b hb => by simp [hbody b hb]
  rw [List.takeWhile_append_of_pos hinside, List.dropWhile_append_of_pos hinside]
  cases rest with
  | nil => exact ⟨List.append_nil _, rfl⟩
  | cons letter after =>
    have hletter : isLetter letter = true := hrest letter rfl
    simp [hletter]

/-- An `escape` and a `bracket` begin a sequence. -/
theorem first_escape (inside : Bytes) :
    first escape (bracket :: inside) =
      match inside.dropWhile fun c => !isLetter c with
      | [] => pending inside
      | letter :: _ => command (inside.takeWhile fun c => !isLetter c) letter := rfl

/-- Where a token `Fits`, it is the `first` one of the text that it stands before. -/
theorem first_eq {b : UInt8} {rest left : Bytes} (hbytes : b :: rest = token.text ++ left)
    (hfits : token.Fits left.head?) : first b rest = token := by
  cases token with
  | newLine afterReturn =>
    cases afterReturn with
    | false =>
      obtain ⟨rfl, rfl⟩ := List.cons.inj hbytes
      rfl
    | true =>
      obtain ⟨rfl, rfl⟩ := List.cons.inj hbytes
      rfl
  | skip c =>
    obtain ⟨rfl, hrest⟩ := List.cons.inj hbytes
    obtain rfl : rest = left := hrest
    rcases hfits with rfl | ⟨rfl, hnext⟩
    · rfl
    · show (if rest.head? = some lineFeed then newLine true else skip carriageReturn) = _
      rw [if_neg hnext]
  | command body letter =>
    obtain ⟨rfl, hrest⟩ := List.cons.inj hbytes
    have hinside : rest = bracket :: (body ++ letter :: left) := by
      rw [hrest]
      simp
    -- the letter is the first one, so the body is all that comes before it
    have hends : ∀ c ∈ (letter :: left).head?, isLetter c = true := by
      simpa using hfits.2
    obtain ⟨htake, hdrop⟩ := splitWhile_append hfits.1 hends
    rw [hinside, first_escape, hdrop, htake]
  | pending body =>
    obtain ⟨hbody, hend⟩ := hfits
    obtain rfl : left = [] := List.head?_eq_none_iff.mp hend
    obtain ⟨rfl, hrest⟩ := List.cons.inj hbytes
    have hinside : rest = bracket :: body := by
      rw [hrest]
      exact congrArg _ (List.append_nil body)
    have hends : ∀ c ∈ ([] : Bytes).head?, isLetter c = true := by simp
    obtain ⟨_, hdrop⟩ := splitWhile_append hbody hends
    rw [List.append_nil] at hdrop
    rw [hinside, first_escape, hdrop]
  | glyph code =>
    obtain ⟨rfl, hrest⟩ := List.cons.inj hbytes
    obtain rfl : rest = left := hrest
    obtain ⟨hplain, hopen⟩ := hfits
    simp only [List.mem_cons, List.not_mem_nil, or_false, not_or] at hplain
    unfold first
    rw [if_neg hplain.1, if_neg hplain.2.1, if_neg hplain.2.2, if_neg hopen]

/-- What `lex` finds, it finds token by token. -/
theorem lex_append {left : Bytes} (hfits : token.Fits left.head?) :
    lex (token.text ++ left) = token :: lex left := by
  obtain ⟨b, rest, htext⟩ := List.exists_cons_of_ne_nil (text_ne_nil token)
  have hbytes : b :: (rest ++ left) = token.text ++ left := by rw [htext, List.cons_append]
  rw [← hbytes, lex, first_eq hbytes hfits, hbytes, List.drop_left]

/-- **Tokens are unique.** The only tokens of which `Spells` is true for a text are those that `lex`
    finds in it. -/
theorem spells_iff : Spells tokens bytes ↔ tokens = lex bytes := by
  constructor
  · intro h
    induction h with
    | nil => exact lex_nil.symm
    | cons hfits _ ih => rw [lex_append hfits, ih]
  · rintro rfl
    exact spells_lex bytes

/-- A case of `lex`: a carriage return that ends no line, one that does, an escape that is drawn, a
    sequence with an escape in it, a byte that is passed over, and a sequence without a letter. -/
example : lex [0x0D, 0x0D, 0x0A, 0x1B, 0x1B, 0x5B, 0x1B, 0x35, 0x6D, 0x1A, 0x1B, 0x5B, 0x33]
    = [skip 0x0D, newLine true, glyph 0x1B, command [0x1B, 0x35] 0x6D, skip 0x1A,
      pending [0x33]] := by cbv

/-- Tokens are a partition of the text that they spell. -/
theorem Spells.flatMap_text (h : Spells tokens bytes) : tokens.flatMap text = bytes := by
  induction h with
  | nil => rfl
  | cons _ _ ih => rw [List.flatMap_cons, ih]

theorem Spells.eq_nil (h : Spells tokens []) : tokens = [] := by
  rw [spells_iff.mp h, lex_nil]

/-! ### What tokens leave -/

/-- The sequence that a `Token` leaves open, the latest byte first. -/
def leftOpen : Token → Option Bytes
  | pending body => some (bracket :: body).reverse
  | _ => none

/-- The sequence that the last one of some tokens leaves open. -/
def leftOpenBy (tokens : List Token) : Option Bytes :=
  tokens.getLast?.bind leftOpen

theorem leftOpenBy_eq_some_iff {sequence : Bytes} :
    leftOpenBy tokens = some sequence
      ↔ ∃ body, tokens.getLast? = some (pending body) ∧ sequence.reverse = bracket :: body := by
  unfold leftOpenBy
  rw [Option.bind_eq_some_iff]
  constructor
  · rintro ⟨token, hlast, hleft⟩
    cases token with
    | pending body =>
      obtain rfl := Option.some.inj hleft
      exact ⟨body, hlast, List.reverse_reverse _⟩
    | _ => cases hleft
  · rintro ⟨body, hlast, hsequence⟩
    refine ⟨pending body, hlast, ?_⟩
    rw [leftOpen, ← hsequence, List.reverse_reverse]

/-- The last byte of a token that `Fits` does not heed what comes after it. -/
theorem not_heeds {next : Option UInt8} (hfits : token.Fits next) {b : UInt8}
    (hlast : token.text.getLast? = some b) : ¬ Heeds b next := by
  cases token with
  | newLine afterReturn =>
    have hline : b = lineFeed := by
      cases afterReturn <;> exact (Option.some.inj hlast).symm
    subst hline
    rintro (⟨hreturn, _⟩ | ⟨hescape, _⟩)
    · exact absurd hreturn (by decide)
    · exact absurd hescape (by decide)
  | skip c =>
    obtain rfl : c = b := Option.some.inj hlast
    rintro (⟨hreturn, hnext⟩ | ⟨hescape, _⟩)
    · exact hfits.elim (fun hmark => absurd (hreturn.symm.trans hmark) (by decide))
        fun hskipped => hskipped.2 hnext
    · subst hescape
      exact hfits.elim (by decide) fun hskipped => absurd hskipped.1 (by decide)
  | command body letter =>
    -- a letter is neither a carriage return nor an escape
    have hletter : letter = b := by
      have hconcat : (escape :: bracket :: body ++ [letter]).getLast? = some letter :=
        List.getLast?_concat
      exact Option.some.inj (hconcat.symm.trans hlast)
    subst hletter
    rintro (⟨hreturn, _⟩ | ⟨hescape, _⟩)
    · exact absurd (hreturn ▸ hfits.2) (by decide)
    · exact absurd (hescape ▸ hfits.2) (by decide)
  | pending body =>
    obtain rfl : next = none := hfits.2
    rintro (⟨_, hnext⟩ | ⟨_, hnext⟩)
    · cases hnext
    · cases hnext
  | glyph code =>
    obtain rfl : code = b := Option.some.inj hlast
    rintro (⟨hreturn, _⟩ | hopen)
    · exact hfits.1 (by simp [hreturn])
    · exact hfits.2 hopen

end Token

/-! ### Obeying tokens -/

namespace Terminal

/-- What a `Token` does. A sequence that asks for nothing does nothing, and neither does one that
    does not end. -/
def obey (t : Terminal) : Token → Terminal
  | .newLine _ => t.newLine
  | .skip _ => t
  | .command body letter =>
    match Command.parse? (bracket :: (body ++ [letter])) with
    | some command => t.execute command
    | none => t
  | .pending _ => t
  | .glyph code => t.draw code

variable {t : Terminal} {token : Token}

/-- No `Token` touches an open sequence. -/
theorem pending_obey (t : Terminal) (token : Token) : (t.obey token).pending = t.pending := by
  have hkeeps : ∀ (c : Script) cursor saved pen scrolls edits, Script.pending
      { c with session := { c.session with cursor, saved, pen }, scrolls, edits } = c.pending :=
    fun _ _ _ _ _ _ => rfl
  -- a terminal is the one that its script is about, and a script keeps what is open
  cases token with
  | newLine _ =>
    show (t.after t.script).newLine.pending = t.pending
    rw [newLine_after]
    exact Script.newLine_keeps hkeeps t.script
  | glyph code =>
    show ((t.after t.script).draw code).pending = t.pending
    rw [draw_after]
    exact Script.draw_keeps hkeeps t.script code
  | command body letter =>
    unfold obey
    dsimp only
    split
    · next command _ =>
      show ((t.after t.script).execute command).pending = t.pending
      rw [execute_after]
      exact Script.execute_keeps hkeeps t.script command
    · rfl
  | skip _ => rfl
  | pending _ => rfl

/-- The `body` of a sequence is put aside, byte by byte. -/
theorem takeText_body {sequence body : Bytes} (hopen : t.pending = some sequence)
    (hbody : ∀ b ∈ body, isLetter b = false) (rest : Bytes) :
    t.takeText (body ++ rest)
      = takeText { t with pending := some (body.reverse ++ sequence) } rest := by
  induction body generalizing t sequence with
  | nil =>
    rw [List.nil_append, List.reverse_nil, List.nil_append, ← hopen]
  | cons b body ih =>
    have hletter : isLetter b = false := hbody b (List.mem_cons_self ..)
    have hfeed : t.feed b (body ++ rest).head? = { t with pending := some (b :: sequence) } := by
      simp [feed_eq, hopen, accumulate_eq, hletter]
    have hleaves : t.leaves b (body ++ rest) = body ++ rest := by
      simp [leaves, skipsNext, hopen]
    have hrest : ∀ c ∈ body, isLetter c = false := fun c hc => hbody c (List.mem_cons_of_mem _ hc)
    rw [List.cons_append, takeText_cons, hfeed, hleaves, ih rfl hrest, List.reverse_cons,
      List.append_assoc, List.singleton_append]

/-- A letter ends the open sequence, which is obeyed as soon as it is closed. -/
theorem takeText_letter {body : Bytes} {letter : UInt8} (hclosed : t.pending = none)
    (hletter : isLetter letter = true) :
    takeText { t with pending := some (body.reverse ++ [bracket]) } [letter]
      = t.obey (.command body letter) := by
  have hreset : resetEscape { t with pending := some (body.reverse ++ [bracket]) } = t := by
    unfold resetEscape
    rw [← hclosed]
  have hsequence : (letter :: (body.reverse ++ [bracket])).reverse
      = bracket :: (body ++ [letter]) := by simp
  rw [takeText_cons, leaves_nil, takeText_nil]
  show accumulate _ (body.reverse ++ [bracket]) letter = _
  rw [accumulate_eq, if_pos hletter, hreset, hsequence]
  rfl

/-- An `escape` and the `bracket` after it open a sequence. -/
theorem takeText_escape (hclosed : t.pending = none) (inside : Bytes) :
    t.takeText (escape :: bracket :: inside)
      = takeText { t with pending := some [bracket] } inside := by
  have hescape : t.feed escape (some bracket) = { t with pending := some [] } := by
    simp [feed_eq, hclosed, escape, bracket, lineFeed, carriageReturn, ByteStream.endMark]
  have hleaves : t.leaves escape (bracket :: inside) = bracket :: inside := by
    simp [leaves, skipsNext, escape, carriageReturn]
  have hletter : isLetter bracket = false := by decide
  have hbracket : ∀ b ∈ [bracket], isLetter b = false := List.forall_mem_singleton.mpr hletter
  rw [takeText_cons, List.head?_cons, hescape, hleaves]
  exact takeText_body rfl hbracket inside

/-- A terminal without an open sequence obeys a token that has no `leftOpen`. -/
theorem takeText_token {next : Option UInt8} (hfits : token.Fits next)
    (hleft : token.leftOpen = none) (hclosed : t.pending = none) :
    t.takeText token.text = t.obey token := by
  cases token with
  | newLine afterReturn =>
    cases afterReturn with
    | false =>
      show t.takeText [lineFeed] = t.newLine
      rw [takeText_cons, leaves_nil, takeText_nil, feed_lineFeed hclosed]
    | true =>
      have hleaves : t.leaves carriageReturn [lineFeed] = [] := by
        simp [leaves, skipsNext, hclosed]
      show t.takeText [carriageReturn, lineFeed] = t.newLine
      rw [takeText_cons, hleaves, takeText_nil, List.head?_cons,
        feed_carriageReturn_lineFeed hclosed]
  | skip b =>
    show t.takeText [b] = t
    rw [takeText_cons, leaves_nil, takeText_nil, List.head?_nil]
    rcases hfits with rfl | ⟨rfl, _⟩
    · exact feed_endMark hclosed none
    · exact feed_carriageReturn hclosed (Option.some_ne_none _).symm
  | command body letter =>
    have hbody := takeText_body (t := { t with pending := some [bracket] }) rfl hfits.1 [letter]
    rw [Token.text, takeText_escape hclosed, hbody, takeText_letter hclosed hfits.2]
  | pending body => exact absurd hleft (Option.some_ne_none _)
  | glyph code =>
    -- nothing comes after the last byte, so an escape does not open a sequence
    obtain ⟨hplain, _⟩ := hfits
    simp only [List.mem_cons, List.not_mem_nil, or_false, not_or] at hplain
    show t.takeText [code] = t.draw code
    rw [takeText_cons, leaves_nil, takeText_nil, List.head?_nil]
    simp [feed_eq, hclosed, hplain]

/-- A `Token.pending`, a sequence without a letter, stays open. -/
theorem takeText_pending {body : Bytes} {next : Option UInt8}
    (hfits : (Token.pending body).Fits next) (hclosed : t.pending = none) :
    t.takeText (Token.pending body).text
      = { t with pending := (Token.pending body).leftOpen } := by
  have hbody := takeText_body (t := { t with pending := some [bracket] }) rfl hfits.1 []
  rw [List.append_nil, takeText_nil] at hbody
  rw [Token.text, takeText_escape hclosed, hbody]
  simp [Token.leftOpen]

/-- **Tokens are obeyed.** A terminal without an open sequence that takes a text by `takeText` obeys
    the tokens that the text is spelled by, and has the sequence open that is `leftOpenBy` them. -/
theorem takeText_of_spells {tokens : List Token} {text : Bytes} (h : Token.Spells tokens text)
    (hclosed : t.pending = none) :
    t.takeText text = { tokens.foldl obey t with pending := Token.leftOpenBy tokens } := by
  induction h generalizing t with
  | nil =>
    show t.takeText [] = { t with pending := none }
    rw [takeText_nil, ← hclosed]
  | @cons token tokens rest hfits hspells ih =>
    -- a token that fits may be cut off, as its last byte does not heed what comes after it
    have hcut : ∀ b, EndsOn b t token.text → ¬ Heeds b rest.head? := fun b hends =>
      Token.not_heeds hfits hends.getLast?_eq
    rw [takeText_append hcut, List.foldl_cons]
    cases hleft : token.leftOpen with
    | none =>
      have hkept : (t.obey token).pending = none := (t.pending_obey token).trans hclosed
      have hleftBy : Token.leftOpenBy (token :: tokens) = Token.leftOpenBy tokens := by
        cases tokens with
        | nil => exact hleft
        | cons => rfl
      rw [takeText_token hfits hleft hclosed, ih hkept, hleftBy]
    | some sequence =>
      -- nothing comes after an open sequence
      cases token with
      | pending body =>
        obtain rfl : rest = [] := List.head?_eq_none_iff.mp hfits.2
        rw [takeText_pending hfits hclosed, hspells.eq_nil, takeText_nil]
        rfl
      | _ => cases hleft

/-- **Art is obeyed token by token.** The tokens that `lex` finds in what is left of a stream are
    the only ones that make it up, and they are a partition of it. A terminal without an open
    sequence that does `readToEnd` on the stream has called `obey` on them one after the other. It
    has a sequence open if and only if the last token is a `Token.pending`, one without a letter,
    and then it is that sequence, from its bracket on. -/
theorem readToEnd_eq_foldl_obey (t : Terminal) (s : ByteStream) (hclosed : t.pending = none) :
    (∀ tokens, Token.Spells tokens s.rest ↔ tokens = Token.lex s.rest)
    ∧ (Token.lex s.rest).flatMap Token.text = s.rest
    ∧ (t.readToEnd s).terminal
        = { (Token.lex s.rest).foldl obey t with pending := Token.leftOpenBy (Token.lex s.rest) }
    ∧ ∀ sequence, (t.readToEnd s).terminal.pending = some sequence
        ↔ ∃ body, (Token.lex s.rest).getLast? = some (.pending body)
          ∧ sequence.reverse = bracket :: body := by
  have hspells := Token.spells_lex s.rest
  have hterminal := (t.terminal_readToEnd s).trans (takeText_of_spells hspells hclosed)
  refine ⟨fun tokens => Token.spells_iff, hspells.flatMap_text, hterminal, fun sequence => ?_⟩
  rw [hterminal]
  exact Token.leftOpenBy_eq_some_iff

/-- A case of `readToEnd_eq_foldl_obey`: ends of lines, an escape that is drawn before one that
    opens a sequence, a line feed and another escape inside of that sequence, and a sequence that
    the art ends in. -/
theorem readToEnd_of_seven_tokens :
    let t := Terminal.new .ordinary 4 2 4 2
    let s := ByteStream.ofFile
      [0x41, 0x0D, 0x0D, 0x0A, 0x1A, 0x1B, 0x1B, 0x5B, 0x0A, 0x1B, 0x35, 0x6D, 0x1B, 0x5B, 0x33]
    t.pending = none
    ∧ (∀ tokens, Token.Spells tokens s.rest ↔ tokens = Token.lex s.rest)
    ∧ (Token.lex s.rest).flatMap Token.text = s.rest
    ∧ (t.readToEnd s).terminal
        = { (Token.lex s.rest).foldl obey t with pending := Token.leftOpenBy (Token.lex s.rest) }
    ∧ ∀ sequence, (t.readToEnd s).terminal.pending = some sequence
        ↔ ∃ body, (Token.lex s.rest).getLast? = some (.pending body)
          ∧ sequence.reverse = bracket :: body :=
  ⟨rfl, readToEnd_eq_foldl_obey _ _ rfl⟩

end Terminal

end TextArt
