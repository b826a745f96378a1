import Mathlib.Data.List.Basic
import TextArt.CommandLine.Arguments

namespace TextArt

/-!
# Arrangements — the order in which a command line asks

A command line is a path among groups of words, each of which is a flag, followed by its value if
the flag takes one.  A value belongs to its flag whatever it looks like, so the groups may be
moved about, and the path between any two of them.

* `Arguments.Field` — what the flags set, each field with the names of its flags and the values
  that it takes; `Arguments.mem_names_of_named?` says that there are no other flags, but for those
  which are answered at once;
* `Arguments.Group` — a flag with its value; `Arguments.parseFrom_words` says what becomes of it;
* `Arguments.Follows` — the settings are those of the last group for each field, and nothing else
  is set; `Arguments.Follows.unique` says that this leaves no choice;
* `Arguments.parse_line` — **the groups may be given in any order**: the settings follow them, and
  unless two groups set one field, they are the same wherever the groups and the path stand.
-/

namespace Arguments

/-! ### Fields -/

/-- What a `Flag` sets, as a name for one of the fields of `Arguments` and their `options`. -/
inductive Field where
  | output
  | verbose
  | animate
  | sauce
  | baud
  | imagedata
  | icecolors
  | double
  | clearScreen
  | bits
  | font
  | mode
  | columns
  | rows
  | thumbnail
  deriving DecidableEq, Repr

/-- All fields; `Field.all` is what a proof over the flags runs through. -/
def Field.all : List Field :=
  [.output, .verbose, .animate, .sauce, .baud, .imagedata, .icecolors, .double, .clearScreen,
    .bits, .font, .mode, .columns, .rows, .thumbnail]

/-- What is stored in a field: the type that `Arguments` has there. -/
abbrev Field.Value : Field → Type
  | output | bits | font | mode => Option String
  | verbose | animate | sauce => Bool
  | baud => Option Nat
  | imagedata | icecolors | double | clearScreen | columns | rows | thumbnail => Option Int

/-- The setting of a `Field`. -/
def get (a : Arguments) : (f : Field) → f.Value
  | .output => a.output
  | .verbose => a.verbose
  | .animate => a.animate
  | .sauce => a.sauce
  | .baud => a.baud
  | .imagedata => a.options.imagedata
  | .icecolors => a.options.icecolors
  | .double => a.options.double
  | .clearScreen => a.options.clearScreen
  | .bits => a.options.bits
  | .font => a.options.font
  | .mode => a.options.mode
  | .columns => a.options.columns
  | .rows => a.options.rows
  | .thumbnail => a.options.thumbnail

/-- The `Arguments` with another setting of a `Field`. -/
def set (a : Arguments) : (f : Field) → f.Value → Arguments
  | .output, v => { a with output := v }
  | .verbose, v => { a with verbose := v }
  | .animate, v => { a with animate := v }
  | .sauce, v => { a with sauce := v }
  | .baud, v => { a with baud := v }
  | .imagedata, v => { a with options := { a.options with imagedata := v } }
  | .icecolors, v => { a with options := { a.options with icecolors := v } }
  | .double, v => { a with options := { a.options with double := v } }
  | .clearScreen, v => { a with options := { a.options with clearScreen := v } }
  | .bits, v => { a with options := { a.options with bits := v } }
  | .font, v => { a with options := { a.options with font := v } }
  | .mode, v => { a with options := { a.options with mode := v } }
  | .columns, v => { a with options := { a.options with columns := v } }
  | .rows, v => { a with options := { a.options with rows := v } }
  | .thumbnail, v => { a with options := { a.options with thumbnail := v } }

variable (a : Arguments)

@[simp] theorem get_set_self (f : Field) (v : f.Value) : (a.set f v).get f = v := by
  cases f <;> rfl

theorem get_set_of_ne {f g : Field} (h : f ≠ g) (v : f.Value) : (a.set f v).get g = a.get g := by
  cases f <;> cases g <;> first | rfl | exact absurd rfl h

@[simp] theorem input_set (f : Field) (v : f.Value) : (a.set f v).input = a.input := by
  cases f <;> rfl

@[simp] theorem filetype_set (f : Field) (v : f.Value) :
    (a.set f v).options.filetype = a.options.filetype := by
  cases f <;> rfl

theorem get_input (path : Option String) (f : Field) :
    { a with input := path }.get f = a.get f := by
  cases f <;> rfl

theorem set_input (path : Option String) (f : Field) (v : f.Value) :
    { a with input := path }.set f v = { a.set f v with input := path } := by
  cases f <;> rfl

variable {a}

/-- `Arguments` are made of their fields, the path `input`, and a `filetype` that no flag sets. -/
theorem ext_get {b : Arguments} (hinput : a.input = b.input)
    (hfiletype : a.options.filetype = b.options.filetype) (hget : ∀ f, a.get f = b.get f) :
    a = b := by
  obtain ⟨_, _, ⟨⟩, _, _, _, _⟩ := a
  obtain ⟨_, _, ⟨⟩, _, _, _, _⟩ := b
  cases hinput
  cases hfiletype
  -- one equation for each field, as the records have none but these
  cases hget .output; cases hget .verbose; cases hget .animate; cases hget .sauce
  cases hget .baud; cases hget .imagedata; cases hget .icecolors; cases hget .double
  cases hget .clearScreen; cases hget .bits; cases hget .font; cases hget .mode
  cases hget .columns; cases hget .rows; cases hget .thumbnail
  rfl

/-! ### Flags -/

namespace Field

/-- The flags that set a `Field`. -/
def names : Field → List String
  | output => ["-o", "--output"]
  | verbose => ["-v", "--verbose"]
  | animate => ["--animate"]
  | sauce => ["--sauce"]
  | baud => ["--baud"]
  | imagedata => ["--imagedata"]
  | icecolors => ["--icecolors"]
  | double => ["--2x"]
  | clearScreen => ["--no-2j"]
  | bits => ["--bits"]
  | font => ["--font"]
  | mode => ["--mode"]
  | columns => ["--columns"]
  | rows => ["--rows"]
  | thumbnail => ["--thumbnail"]

/-- What a flag sets that takes no value; `none` for the fields whose flags take one. -/
def fixed? : (f : Field) → Option f.Value
  | verbose | animate | sauce => some true
  | imagedata | icecolors | double => some (some 1)
  | clearScreen => some (some 0)
  | output | baud | bits | font | mode | columns | rows | thumbnail => none

/-- What a flag sets to the value that it is given: any text at all, or for a number what
    `CommandLine.integer?` or `CommandLine.rate?` makes of it. -/
def read? : (f : Field) → String → Option f.Value
  | output, text | bits, text | font, text | mode, text => some (some text)
  | columns, text | rows, text | thumbnail, text => (CommandLine.integer? text).map some
  | baud, text => (CommandLine.rate? text).map some
  | verbose, _ | animate, _ | sauce, _ | imagedata, _ | icecolors, _ | double, _
  | clearScreen, _ => none

/-- The fields whose values are numbers, and so the only ones where `Field.read?` can fail. -/
def numeric : List Field := [columns, rows, thumbnail, baud]

/-- Off the `numeric` fields, `read?` takes any text for a value. -/
theorem isSome_read? {f : Field} (hfixed : f.fixed? = none) (h : f ∉ numeric) (text : String) :
    (f.read? text).isSome = true := by
  cases f with
  | output | bits | font | mode => rfl
  | columns | rows | thumbnail | baud => exact absurd (by decide) h
  | verbose | animate | sauce | imagedata | icecolors | double | clearScreen => cases hfixed

/-- The `UsageError` by which a value is refused. -/
def complaint : Field → String → String → UsageError
  | baud, _, text => .badRate text
  | _, name, text => .badNumber name text

/-- The `Flag` of a field, which sets what `fixed?` or `read?` says. -/
def flag (f : Field) (name : String) : Flag :=
  match f.fixed? with
  | some v => .switch fun a => a.set f v
  | none => .valued fun text a =>
    match f.read? text with
    | some v => .ok (a.set f v)
    | none => .error (f.complaint name text)

end Field

/-- The names of a field are those that `Flag.named?` answers by its `flag`. -/
theorem named?_of_mem_names {f : Field} {name : String} (h : name ∈ f.names) :
    Flag.named? name = some (f.flag name) := by
  cases f with
  | output | verbose =>
    obtain rfl | h := List.mem_cons.mp h
    · rfl
    · obtain rfl := List.mem_singleton.mp h
      rfl
  | animate | sauce | imagedata | icecolors | double | clearScreen | bits | font | mode =>
    obtain rfl := List.mem_singleton.mp h
    rfl
  | columns | rows | thumbnail =>
    obtain rfl := List.mem_singleton.mp h
    -- a flag that takes a value is the function that stores what `read?` finds in the text
    refine congrArg (fun store => some (Flag.valued store)) (funext fun text => funext fun a => ?_)
    dsimp only [Field.read?]
    cases CommandLine.integer? text <;> rfl
  | baud =>
    obtain rfl := List.mem_singleton.mp h
    refine congrArg (fun store => some (Flag.valued store)) (funext fun text => funext fun a => ?_)
    dsimp only [Field.read?]
    cases CommandLine.rate? text <;> rfl

/-- There are no other flags than those of the fields and those that are answered at once: whatever
    `Flag.named?` knows is one of `Field.names`, or asks for help or the version. -/
theorem mem_names_of_named? {name : String} {flag : Flag} (h : Flag.named? name = some flag) :
    name ∈ ["-h", "--help", "-V", "--version"] ++ Field.all.flatMap Field.names := by
  unfold Flag.named? at h
  split at h
  case h_22 => cases h
  all_goals decide

/-- A path is no flag, neither for `isFlagLike` nor for `Flag.named?`. -/
theorem named?_path {path : String} (h : path = "-" ∨ path.startsWith "-" = false) :
    isFlagLike path = false ∧ Flag.named? path = none := by
  have hpath : isFlagLike path = false := by
    obtain rfl | hstart := h
    · decide +kernel
    · rw [isFlagLike, hstart, Bool.false_and]
  refine ⟨hpath, ?_⟩
  cases hflag : Flag.named? path with
  | none => rfl
  | some flag =>
    -- the known names are few enough to be looked through
    have hnames : ∀ name ∈ ["-h", "--help", "-V", "--version"] ++ Field.all.flatMap Field.names,
        isFlagLike name = true := by decide +kernel
    rw [hnames path (mem_names_of_named? hflag)] at hpath
    cases hpath

/-! ### Groups -/

/-- A flag, and its value if it takes one. That the `name` is one of `Field.names`, and that there
    is a value just where `Field.fixed?` has none, is part of a group. -/
structure Group where
  field : Field
  name : String
  value? : Option String
  name_mem : name ∈ field.names
  isSome_value : value?.isSome = field.fixed?.isNone

namespace Group

/-- The words of a `Group`, as they stand on a command line. -/
def words (g : Group) : List String :=
  g.name :: g.value?.toList

/-- What a `Group` sets its field to, if its value can be read. -/
def setting? (g : Group) : Option g.field.Value :=
  match g.value? with
  | none => g.field.fixed?
  | some text => g.field.read? text

/-- The value of a group can be read, so that `setting?` is not `none`. -/
def Accepted (g : Group) : Prop :=
  g.setting?.isSome

instance (g : Group) : Decidable g.Accepted := inferInstanceAs (Decidable (_ = true))

/-- What a `Group` makes of the `Arguments` before it. -/
def apply (a : Arguments) (g : Group) : Arguments :=
  match g.setting? with
  | some v => a.set g.field v
  | none => a

/-- The `UsageError` by which a group is refused. -/
def complaint (g : Group) : UsageError :=
  g.field.complaint g.name (g.value?.getD "")

variable {g : Group}

theorem isSome_fixed? (h : g.value? = none) : g.field.fixed?.isSome = true := by
  rw [← Option.not_isNone, ← g.isSome_value, h]
  rfl

theorem fixed?_eq_none {text : String} (h : g.value? = some text) : g.field.fixed? = none := by
  rw [← Option.isNone_iff_eq_none, ← g.isSome_value, h]
  rfl

/-- Whatever the value is, the group is `Accepted` if its field is not one of `Field.numeric`. -/
theorem accepted_of_not_numeric (h : g.field ∉ Field.numeric) : g.Accepted := by
  unfold Accepted setting?
  cases hvalue : g.value? with
  | none => exact isSome_fixed? hvalue
  | some text => exact Field.isSome_read? (fixed?_eq_none hvalue) h text

theorem apply_of_setting {v : g.field.Value} (h : g.setting? = some v) (a : Arguments) :
    g.apply a = a.set g.field v := by
  rw [apply, h]

end Group

variable (a)

theorem parseFrom_of_switch {name : String} {set : Arguments → Arguments}
    (h : Flag.named? name = some (.switch set)) (rest : List String) :
    a.parseFrom (name :: rest) = (set a).parseFrom rest := by
  rw [parseFrom.eq_def]
  simp only [h]

theorem parseFrom_of_valued {name : String} {set : String → Arguments → Except UsageError Arguments}
    (h : Flag.named? name = some (.valued set)) (text : String) (rest : List String) :
    a.parseFrom (name :: text :: rest) = set text a >>= fun b => b.parseFrom rest := by
  rw [parseFrom.eq_def]
  simp only [h]

/-- What `parseFrom` makes of the words of a `Group`: they `set` its field, unless its value cannot
    be read. A value is not taken for a flag, and nothing is asked of the words after the group. -/
theorem parseFrom_words (g : Group) (rest : List String) :
    a.parseFrom (g.words ++ rest)
      = match g.setting? with
        | some v => (a.set g.field v).parseFrom rest
        | none => .error g.complaint := by
  have hflag := named?_of_mem_names g.name_mem
  rw [Field.flag] at hflag
  cases hvalue : g.value? with
  | none =>
    -- a switch is its name alone, and the next word is left for `parseFrom`
    have hwords : g.words ++ rest = g.name :: rest := by rw [Group.words, hvalue]; rfl
    have hsetting : g.setting? = g.field.fixed? := by rw [Group.setting?, hvalue]
    obtain ⟨v, hv⟩ := Option.isSome_iff_exists.mp (Group.isSome_fixed? hvalue)
    rw [hv] at hflag
    rw [hwords, hsetting, hv]
    exact a.parseFrom_of_switch hflag rest
  | some text =>
    -- the word after the name is the value, even where it looks like a flag
    have hwords : g.words ++ rest = g.name :: text :: rest := by rw [Group.words, hvalue]; rfl
    have hsetting : g.setting? = g.field.read? text := by rw [Group.setting?, hvalue]
    have hcomplaint : g.complaint = g.field.complaint g.name text := by
      rw [Group.complaint, hvalue]
      rfl
    rw [Group.fixed?_eq_none hvalue] at hflag
    rw [hwords, hsetting, hcomplaint, a.parseFrom_of_valued hflag]
    cases g.field.read? text <;> rfl

/-- A path is taken for `input` if there was none before it. -/
theorem parseFrom_path {path : String} (hpath : path = "-" ∨ path.startsWith "-" = false)
    (hinput : a.input = none) (rest : List String) :
    a.parseFrom (path :: rest) = { a with input := some path }.parseFrom rest := by
  obtain ⟨hplain, hflag⟩ := named?_path hpath
  rw [parseFrom.eq_def]
  simp only [hflag, positional, hplain, hinput]
  rfl

/-! ### Many groups -/

/-- The words of a command line that has one path among its groups. -/
def line (before : List Group) (path : String) (after : List Group) : List String :=
  before.flatMap Group.words ++ path :: after.flatMap Group.words

variable {groups : List Group}

/-- Groups that are all `Accepted` are applied from the left. -/
theorem parseFrom_groups (h : ∀ g ∈ groups, g.Accepted) (rest : List String) :
    a.parseFrom (groups.flatMap Group.words ++ rest)
      = (groups.foldl Group.apply a).parseFrom rest := by
  induction groups generalizing a with
  | nil => rfl
  | cons g groups ih =>
    obtain ⟨v, hv⟩ := Option.isSome_iff_exists.mp (h g List.mem_cons_self)
    rw [List.flatMap_cons, List.append_assoc, parseFrom_words, hv, List.foldl_cons,
      Group.apply_of_setting hv]
    exact ih (a.set g.field v) fun g' hg' => h g' (List.mem_cons_of_mem g hg')

/-- Otherwise `parseFrom` stops at a group that is not `Accepted`, with the `complaint` about that
    group. -/
theorem parseFrom_refused (h : ∃ g ∈ groups, ¬ g.Accepted) (rest : List String) :
    ∃ g ∈ groups, ¬ g.Accepted
      ∧ a.parseFrom (groups.flatMap Group.words ++ rest) = .error g.complaint := by
  induction groups generalizing a with
  | nil =>
    obtain ⟨g, hg, -⟩ := h
    cases hg
  | cons g groups ih =>
    rw [List.flatMap_cons, List.append_assoc, parseFrom_words]
    cases hv : g.setting? with
    | none =>
      have hrefused : ¬ g.Accepted := by
        rw [Group.Accepted, hv]
        exact Bool.false_ne_true
      -- the first group that is refused ends the walk, whatever comes after it
      exact ⟨g, List.mem_cons_self, hrefused, rfl⟩
    | some v =>
      -- this one is accepted, so the refused one is among the others
      have hrest : ∃ g' ∈ groups, ¬ g'.Accepted := by
        obtain ⟨g', hg', hrefused⟩ := h
        obtain rfl | hg' := List.mem_cons.mp hg'
        · exact absurd (Option.isSome_of_eq_some hv) hrefused
        · exact ⟨g', hg', hrefused⟩
      obtain ⟨g', hg', hrefused⟩ := ih (a.set g.field v) hrest
      exact ⟨g', List.mem_cons_of_mem g hg', hrefused⟩

theorem apply_input (path : Option String) (g : Group) :
    g.apply { a with input := path } = { g.apply a with input := path } := by
  unfold Group.apply
  cases g.setting? with
  | none => rfl
  | some v => exact a.set_input path g.field v

/-- It makes no difference to `Group.apply` whether the path stands before the groups. -/
theorem foldl_apply_input (path : Option String) :
    groups.foldl Group.apply { a with input := path }
      = { groups.foldl Group.apply a with input := path } := by
  induction groups generalizing a with
  | nil => rfl
  | cons g groups ih => rw [List.foldl_cons, List.foldl_cons, apply_input, ih]

variable {a}

/-- What every `set` of a group preserves, the fold of `Group.apply` over all groups preserves. -/
theorem foldl_apply_preserves {motive : Arguments → Prop} (ha : motive a)
    (hset : ∀ g ∈ groups, ∀ (b : Arguments) (v : g.field.Value),
      motive b → motive (b.set g.field v)) :
    motive (groups.foldl Group.apply a) := by
  refine List.foldlRecOn groups Group.apply ha fun b hb g hg => ?_
  unfold Group.apply
  cases g.setting? with
  | none => exact hb
  | some v => exact hset g hg b v hb

theorem input_foldl_apply : (groups.foldl Group.apply a).input = a.input :=
  foldl_apply_preserves (motive := fun b => b.input = a.input) rfl
    fun g _ b v hb => (b.input_set g.field v).trans hb

theorem filetype_foldl_apply :
    (groups.foldl Group.apply a).options.filetype = a.options.filetype :=
  foldl_apply_preserves (motive := fun b => b.options.filetype = a.options.filetype) rfl
    fun g _ b v hb => (b.filetype_set g.field v).trans hb

/-- Groups leave the fields of others alone: `get f` is as before where no group has the field
    `f`. -/
theorem get_foldl_apply {f : Field} (h : ∀ g ∈ groups, g.field ≠ f) :
    (groups.foldl Group.apply a).get f = a.get f :=
  foldl_apply_preserves (motive := fun b => b.get f = a.get f) rfl
    fun g hg b v hb => (b.get_set_of_ne (h g hg) v).trans hb

/-- What `parse` makes of a `line` whose values can all be read. -/
theorem parse_line_eq {path : String} (hpath : path = "-" ∨ path.startsWith "-" = false)
    {before after : List Group} (h : ∀ g ∈ before ++ after, g.Accepted) :
    parse (line before path after)
      = .ok (.job { (before ++ after).foldl Group.apply {} with input := some path }) := by
  have hbefore : ∀ g ∈ before, g.Accepted := fun g hg => h g (List.mem_append_left after hg)
  have hafter : ∀ g ∈ after, g.Accepted := fun g hg => h g (List.mem_append_right before hg)
  have hempty : (before.foldl Group.apply {}).input = none := input_foldl_apply
  rw [parse, line, parseFrom_groups _ hbefore, parseFrom_path _ hpath hempty,
    ← List.append_nil (after.flatMap _), parseFrom_groups _ hafter, foldl_apply_input,
    ← List.foldl_append]
  rfl

/-! ### Arrangements -/

/-- The settings are the `path` and what the last group for each field says. These conditions do not
    say how the words are read; `Follows.unique` shows that they leave no choice. -/
structure Follows (a : Arguments) (path : String) (groups : List Group) : Prop where
  input_eq : a.input = some path
  /-- The last group for a field wins: no one in `later` has the field of `g`. -/
  last : ∀ earlier g later, groups = earlier ++ g :: later → (∀ g' ∈ later, g'.field ≠ g.field) →
    g.setting? = some (a.get g.field)
  /-- A field that no group sets is as it is in `({} : Arguments)`. -/
  unset : ∀ f, (∀ g ∈ groups, g.field ≠ f) → a.get f = ({} : Arguments).get f
  filetype_eq : a.options.filetype = none

theorem follows_foldl_apply (path : String) (h : ∀ g ∈ groups, g.Accepted) :
    Follows { groups.foldl Group.apply {} with input := some path } path groups where
  input_eq := rfl
  last := by
    rintro earlier g later rfl hlater
    obtain ⟨v, hv⟩ := Option.isSome_iff_exists.mp (h g (by simp))
    -- `later` leaves the field of `g` alone, so what `g` has set is still there
    rw [get_input, List.foldl_append, List.foldl_cons, get_foldl_apply hlater,
      Group.apply_of_setting hv, get_set_self, hv]
  unset := by
    intro f hf
    rw [get_input, get_foldl_apply hf]
  filetype_eq := filetype_foldl_apply

/-- Among groups that set a field there is a last one, after which the others in `later` do not set
    it. -/
theorem exists_last {f : Field} (h : ∃ g ∈ groups, g.field = f) :
    ∃ earlier g later, groups = earlier ++ g :: later ∧ g.field = f
      ∧ ∀ g' ∈ later, g'.field ≠ f := by
  induction groups with
  | nil =>
    obtain ⟨g, hg, -⟩ := h
    cases hg
  | cons g groups ih =>
    by_cases hlater : ∃ g' ∈ groups, g'.field = f
    -- where a later group sets the field, the last one is among them
    · obtain ⟨earlier, g', later, rfl, hg', hnone⟩ := ih hlater
      exact ⟨g :: earlier, g', later, rfl, hg', hnone⟩
    · have hnone : ∀ g' ∈ groups, g'.field ≠ f := fun g' hg' heq => hlater ⟨g', hg', heq⟩
      obtain ⟨g', hg', heq⟩ := h
      obtain rfl | hg' := List.mem_cons.mp hg'
      · exact ⟨[], g', groups, rfl, heq, hnone⟩
      · exact absurd heq (hnone g' hg')

namespace Follows

variable {b : Arguments} {path : String}

/-- The groups and the path leave no choice: two `Arguments` that `Follows` holds of are equal. -/
theorem unique (ha : a.Follows path groups) (hb : b.Follows path groups) : a = b := by
  refine ext_get (ha.input_eq.trans hb.input_eq.symm) (ha.filetype_eq.trans hb.filetype_eq.symm)
    fun f => ?_
  by_cases hset : ∃ g ∈ groups, g.field = f
  · obtain ⟨earlier, g, later, hgroups, rfl, hlater⟩ := exists_last hset
    have hvalue : some (a.get g.field) = some (b.get g.field) :=
      (ha.last earlier g later hgroups hlater).symm.trans (hb.last earlier g later hgroups hlater)
    exact Option.some.inj hvalue
  · have hunset : ∀ g ∈ groups, g.field ≠ f := fun g hg heq => hset ⟨g, hg, heq⟩
    rw [ha.unset f hunset, hb.unset f hunset]

/-- Where no two groups set one field, each of them is the last one for its field, so a `Perm` of
    them is followed by the same arguments. -/
theorem perm (h : a.Follows path groups) (hfields : (groups.map Group.field).Nodup)
    {rearranged : List Group} (hperm : rearranged.Perm groups) : a.Follows path rearranged where
  input_eq := h.input_eq
  last := by
    rintro earlier g later hrearranged -
    -- a group is the last of its field in either order, since it is the only one
    have hg : g ∈ rearranged := by
      rw [hrearranged]
      exact List.mem_append_right earlier List.mem_cons_self
    obtain ⟨before, after, rfl⟩ := List.append_of_mem (hperm.mem_iff.mp hg)
    refine h.last before g after rfl fun g' hg' heq => ?_
    rw [List.map_append, List.map_cons] at hfields
    have hnot : g.field ∉ after.map Group.field :=
      (List.nodup_cons.mp (List.nodup_append.mp hfields).2.1).1
    exact hnot (List.mem_map.mpr ⟨g', hg', heq⟩)
  unset := fun f hf => h.unset f fun g hg => hf g (hperm.mem_iff.mpr hg)
  filetype_eq := h.filetype_eq

end Follows

/-- **The groups may be given in any order.** A command line whose numbers can be read parses to
    arguments that `Follows` describes: each field is what the last group for it says, and nothing
    else is set. If no two groups set one field, that does not depend on where the groups and the
    path stand. A number that cannot be read is complained about, with the `complaint` of its
    group. -/
theorem parse_line {path : String} (hpath : path = "-" ∨ path.startsWith "-" = false)
    (before after : List Group) :
    ((∀ g ∈ before ++ after, g.field ∈ Field.numeric → g.Accepted) →
      ∃ a, parse (line before path after) = .ok (.job a) ∧ a.Follows path (before ++ after)
        ∧ (((before ++ after).map Group.field).Nodup →
          ∀ before' after' : List Group, (before' ++ after').Perm (before ++ after) →
            parse (line before' path after') = .ok (.job a)))
      ∧ ((∃ g ∈ before ++ after, ¬ g.Accepted) →
        ∃ g ∈ before ++ after, g.field ∈ Field.numeric ∧ ¬ g.Accepted
          ∧ parse (line before path after) = .error g.complaint) := by
  constructor
  · intro hnumbers
    have haccepted : ∀ g ∈ before ++ after, g.Accepted := by
      intro g hg
      by_cases hnumeric : g.field ∈ Field.numeric
      · exact hnumbers g hg hnumeric
      · exact Group.accepted_of_not_numeric hnumeric
    have hfollows := follows_foldl_apply path haccepted
    refine ⟨_, parse_line_eq hpath haccepted, hfollows, fun hfields before' after' hperm => ?_⟩
    have haccepted' : ∀ g ∈ before' ++ after', g.Accepted :=
      fun g hg => haccepted g (hperm.mem_iff.mp hg)
    rw [parse_line_eq hpath haccepted',
      (follows_foldl_apply path haccepted').unique (hfollows.perm hfields hperm)]
  · intro hrefused
    -- which group is refused first does not matter, as all that are refused have a numeric field
    suffices hfirst : ∃ g ∈ before ++ after, ¬ g.Accepted
        ∧ parse (line before path after) = .error g.complaint by
      obtain ⟨g, hg, hno, herror⟩ := hfirst
      exact ⟨g, hg, Decidable.not_not.mp (mt Group.accepted_of_not_numeric hno), hno, herror⟩
    by_cases hbefore : ∃ g ∈ before, ¬ g.Accepted
    -- the walk ends before the path, which is then never looked at
    · obtain ⟨g, hg, hno, herror⟩ := parseFrom_refused {} hbefore _
      exact ⟨g, List.mem_append_left after hg, hno, herror⟩
    -- the path is taken, and the walk goes on with the groups after it
    · have haccepted : ∀ g ∈ before, g.Accepted :=
        fun g hg => Decidable.not_not.mp fun hno => hbefore ⟨g, hg, hno⟩
      have hafter : ∃ g ∈ after, ¬ g.Accepted := by
        obtain ⟨g, hg, hno⟩ := hrefused
        obtain hg | hg := List.mem_append.mp hg
        · exact absurd (haccepted g hg) hno
        · exact ⟨g, hg, hno⟩
      obtain ⟨g, hg, hno, herror⟩ :=
        parseFrom_refused { before.foldl Group.apply {} with input := some path } hafter []
      refine ⟨g, List.mem_append_right before hg, hno, ?_⟩
      rw [parse, line, parseFrom_groups _ haccepted, parseFrom_path _ hpath input_foldl_apply,
        ← herror, List.append_nil]

/-- A value may be written like a flag, as `--help` is here after `-o`, and the last of two groups
    for `Field.rows` wins. -/
theorem parse_line_of_values_like_flags :
    let output : Group := ⟨.output, "-o", some "--help", by decide, by decide⟩
    let rows : Group := ⟨.rows, "--rows", some "50", by decide, by decide⟩
    let verbose : Group := ⟨.verbose, "--verbose", none, by decide, by decide⟩
    let other : Group := ⟨.output, "--output", some "-v", by decide, by decide⟩
    line [output, rows] "-" [verbose] = ["-o", "--help", "--rows", "50", "-", "--verbose"]
      ∧ (∃ a : Arguments, parse (line [output, rows] "-" [verbose]) = .ok (.job a)
        ∧ parse (line [verbose] "-" [rows, output]) = .ok (.job a)
        ∧ a.output = some "--help" ∧ a.baud = none)
      ∧ ∃ a : Arguments, parse (line [output] "-" [other]) = .ok (.job a)
        ∧ a.output = some "-v" := by
  intro output rows verbose other
  have hdash : ("-" : String) = "-" ∨ ("-" : String).startsWith "-" = false := .inl rfl
  have hnumbers : ∀ g ∈ [output, rows] ++ [verbose], g.field ∈ Field.numeric → g.Accepted := by
    decide +kernel
  obtain ⟨a, hparse, hfollows, hsame⟩ :=
    (parse_line hdash [output, rows] [verbose]).1 hnumbers
  obtain ⟨b, hparse', hfollows', -⟩ :=
    (parse_line hdash [output] [other]).1 (by decide +kernel)
  have hperm : ([verbose] ++ [rows, output]).Perm ([output, rows] ++ [verbose]) :=
    List.reverse_perm [output, rows, verbose]
  have houtput := hfollows.last [] output [rows, verbose] rfl (by decide)
  have hother := hfollows'.last [output] other [] rfl (by decide)
  exact ⟨rfl, ⟨a, hparse, hsame (by decide) [verbose] [rows, output] hperm,
    (Option.some.inj houtput).symm, hfollows.unset .baud (by decide)⟩, b, hparse',
    (Option.some.inj hother).symm⟩

/-- A value of `Field.rows` should be a number, and is not just any text. -/
theorem text_is_no_count_of_rows :
    let rows : Group := ⟨.rows, "--rows", some "x", by decide, by decide⟩
    ("a.ans" : String).startsWith "-" = false
      ∧ parse (line [rows] "a.ans" []) = .error (.badNumber "--rows" "x")
      ∧ ¬ ∃ a, parse (line [rows] "a.ans" []) = .ok (.job a) := by
  intro rows
  have herror : parse (line [rows] "a.ans" []) = .error (.badNumber "--rows" "x") := by
    decide +kernel
  refine ⟨by decide +kernel, herror, ?_⟩
  rintro ⟨a, hparse⟩
  rw [herror] at hparse
  cases hparse

end Arguments

end TextArt
