import Mathlib.Data.List.Basic
import TextArt.CommandLine.FileName
import TextArt.Directory

namespace TextArt.FileName

/-!
# File names — what is read, and what another extension does to its path

* `Parts` — the folder and the name that make up a path, where `folderAndName` cuts it;
* `stemAndExtension_append`, `stemAndExtension_of_not_mem` — a name is cut at its last dot, if there
  is one and it is not the first character;
* `Renames` — what the path of a file becomes with another extension, said without any cutting;
* `renames_iff` — and that is what `withExtension` makes of it;
* `Directory.isFile_of_read` — what can be read has the name of a file at the end of its path.
-/

/-! ### The last place of a character -/

/-- A list with the character `c` in it has a last place of `c`. -/
theorem exists_append_cons_not_mem {c : Char} {cs : List Char} (h : c ∈ cs) :
    ∃ before after, cs = before ++ c :: after ∧ c ∉ after := by
  obtain ⟨after, before, hreverse, hafter⟩ :=
    List.eq_append_cons_of_mem (List.mem_reverse.mpr h)
  refine ⟨before.reverse, after.reverse, ?_, by rwa [List.mem_reverse]⟩
  have hcs := congrArg List.reverse hreverse
  simpa using hcs

/-- What stands behind the last place of `c` is what is taken from the end while characters differ
    from `c`. -/
theorem reverse_takeWhile_ne {c : Char} {before after : List Char} (hafter : c ∉ after)
    (hbefore : ∀ d ∈ before.getLast?, d = c) :
    ((before ++ after).reverse.takeWhile (· ≠ c)).reverse = after := by
  have hall : ∀ d ∈ after.reverse, decide (d ≠ c) = true := fun d hd =>
    decide_eq_true fun hdc => hafter (hdc ▸ List.mem_reverse.mp hd)
  have hstop : before.reverse.takeWhile (· ≠ c) = [] := by
    rw [List.getLast?_eq_head?_reverse] at hbefore
    cases hreverse : before.reverse with
    | nil => rfl
    | cons d ds =>
      rw [hreverse] at hbefore
      simp [hbefore d rfl]
  rw [List.reverse_append, List.takeWhile_append_of_pos hall, hstop, List.append_nil,
    List.reverse_reverse]

/-! ### The parts of a path -/

/-- A path is `folder` and `name` if the one ends with a slash, or is empty, and there are no
    slashes in the other. -/
structure Parts (path : String) (folder name : List Char) : Prop where
  path_eq : path.toList = folder ++ name
  folder_end : ∀ c ∈ folder.getLast?, c = '/'
  not_mem_name : '/' ∉ name

theorem exists_parts (path : String) : ∃ folder name, Parts path folder name := by
  by_cases hslash : '/' ∈ path.toList
  · obtain ⟨before, name, hpath, hname⟩ := exists_append_cons_not_mem hslash
    refine ⟨before ++ ['/'], name, by rw [hpath, List.append_cons], fun c hc => ?_, hname⟩
    rw [List.getLast?_concat] at hc
    exact (Option.some.inj hc).symm
  · exact ⟨[], path.toList, rfl, fun _ h => (Option.not_mem_none _ h).elim, hslash⟩

/-- The parts of a path are those that `folderAndName` finds. -/
theorem Parts.folderAndName_eq {path : String} {folder name : List Char}
    (h : Parts path folder name) : folderAndName path = (folder, name) := by
  have hname : (path.toList.reverse.takeWhile (· ≠ '/')).reverse = name := by
    rw [h.path_eq]
    exact reverse_takeWhile_ne h.not_mem_name h.folder_end
  have hfolder : path.toList.take (path.toList.length - name.length) = folder := by
    rw [h.path_eq, List.length_append, Nat.add_sub_cancel, List.take_left]
  unfold folderAndName
  rw [hname]
  dsimp only
  rw [hfolder]

/-- The name in a path is the last of what lies between slashes. -/
theorem Parts.splitOn_eq {path : String} {folder name : List Char} (h : Parts path folder name) :
    ∃ before, path.toList.splitOn '/' = before ++ [name] := by
  have hname : name.splitOn '/' = [name] := List.splitOn_eq_singleton h.not_mem_name
  rw [h.path_eq]
  rcases List.eq_nil_or_concat' folder with rfl | ⟨before, c, rfl⟩
  · exact ⟨[], hname⟩
  · obtain rfl : c = '/' := h.folder_end c List.getLast?_concat
    refine ⟨before.splitOn '/', ?_⟩
    rw [List.append_assoc, List.singleton_append, List.splitOn_append_cons_self, hname]

theorem isFile_iff {name : List Char} :
    isFile name = true ↔ name ≠ [] ∧ name ≠ ['.'] ∧ name ≠ ['.', '.'] := by
  simp [isFile, and_assoc]

/-! ### The parts of a name -/

/-- A name is cut by `stemAndExtension` at its last dot, unless that is its first character. -/
theorem stemAndExtension_append {stem last : List Char} (hlast : '.' ∉ last) :
    stemAndExtension (stem ++ '.' :: last)
      = if stem = [] then (stem ++ '.' :: last, none) else (stem, some last) := by
  -- the extension is what is found behind the last dot, seen from the end
  have hcut : ((stem ++ '.' :: last).reverse.takeWhile (· ≠ '.')).reverse = last := by
    rw [List.append_cons]
    refine reverse_takeWhile_ne hlast fun d hd => ?_
    rw [List.getLast?_concat] at hd
    exact (Option.some.inj hd).symm
  have hstem : (stem ++ '.' :: last).take ((stem ++ '.' :: last).length - last.length - 1)
      = stem := by
    rw [List.length_append, List.length_cons, Nat.sub_sub, Nat.add_sub_cancel, List.take_left]
  -- the extension is shorter than the name, as the dot is not part of it
  have hlength : ¬ last.length = (stem ++ '.' :: last).length := by
    rw [List.length_append, List.length_cons]
    omega
  unfold stemAndExtension
  dsimp only
  rw [hcut, hstem]
  simp only [hlength, false_or, List.isEmpty_iff]

/-- A name without a dot has no extension, so `stemAndExtension` leaves it whole. -/
theorem stemAndExtension_of_not_mem {name : List Char} (h : '.' ∉ name) :
    stemAndExtension name = (name, none) := by
  have hcut : (name.reverse.takeWhile (· ≠ '.')).reverse = name :=
    @reverse_takeWhile_ne '.' [] name h fun _ hd => (Option.not_mem_none _ hd).elim
  unfold stemAndExtension
  rw [hcut]
  exact if_pos (.inl rfl)

/-! ### Another extension -/

/-- What the path of a file becomes with another `extension`, told by the `Parts` of the path and
    not by how it is searched. -/
inductive Renames (extension path : String) : String → Prop where
  /-- What stands behind the last dot of the name gives way to the `extension`. -/
  | exchanged (folder stem last : List Char) (hparts : Parts path folder (stem ++ '.' :: last))
      (hlast : '.' ∉ last) (hstem : stem ≠ []) (hfile : stem ++ '.' :: last ≠ ['.', '.']) :
      Renames extension path (String.ofList (folder ++ stem ++ '.' :: extension.toList))
  /-- The `extension` is added to a name in which there is no dot, but for the first character. -/
  | added (folder name : List Char) (hparts : Parts path folder name) (hdot : '.' ∉ name.tail)
      (hfile : name ≠ [] ∧ name ≠ ['.']) :
      Renames extension path (String.ofList (folder ++ name ++ '.' :: extension.toList))
/-- There is something that `Renames` allows for a path whose name `isFile`, so `renames_iff` can be
    read from right to left. -/
theorem exists_renames {path : String} (h : isFile (folderAndName path).2 = true)
    (extension : String) : ∃ path', Renames extension path path' := by
  obtain ⟨folder, name, hparts⟩ := exists_parts path
  rw [hparts.folderAndName_eq] at h
  obtain ⟨hnil, hdot, hdots⟩ := isFile_iff.mp h
  by_cases hmem : '.' ∈ name
  · obtain ⟨stem, last, rfl, hlast⟩ := exists_append_cons_not_mem hmem
    by_cases hstem : stem = []
    · subst hstem
      exact ⟨_, .added folder _ hparts hlast ⟨hnil, hdot⟩⟩
    · exact ⟨_, .exchanged folder stem last hparts hlast hstem hdots⟩
  · exact ⟨_, .added folder name hparts (fun h => hmem (List.mem_of_mem_tail h)) ⟨hnil, hdot⟩⟩

theorem Renames.eq_withExtension {extension path path' : String}
    (h : Renames extension path path') : path' = withExtension path extension := by
  have hwith : ∀ {folder name : List Char}, Parts path folder name → isFile name = true →
      withExtension path extension
        = String.ofList (folder ++ (stemAndExtension name).1 ++ '.' :: extension.toList) := by
    intro folder name hparts hfile
    unfold withExtension
    rw [hparts.folderAndName_eq]
    dsimp only
    rw [if_pos hfile, ← String.toList_inj]
    simp
  cases h with
  | exchanged folder stem last hparts hlast hstem hfile =>
    have hlong : stem ++ '.' :: last ≠ ['.'] := fun h => by
      have hlength := congrArg List.length h
      rw [List.length_append, List.length_cons, List.length_singleton] at hlength
      exact hstem (List.eq_nil_of_length_eq_zero (by omega))
    have hname : isFile (stem ++ '.' :: last) = true :=
      isFile_iff.mpr ⟨by simp, hlong, hfile⟩
    rw [hwith hparts hname, stemAndExtension_append hlast, if_neg hstem]
  | added folder name hparts hdot hfile =>
    have hname : isFile name = true :=
      isFile_iff.mpr ⟨hfile.1, hfile.2, fun h => hdot (by rw [h]; exact List.mem_singleton_self _)⟩
    rw [hwith hparts hname]
    -- the one dot that there may be is the first character
    have hstem : (stemAndExtension name).1 = name := by
      by_cases hmem : '.' ∈ name
      · obtain ⟨c, cs, rfl⟩ := List.exists_cons_of_ne_nil hfile.1
        obtain rfl : '.' = c := (List.mem_cons.mp hmem).resolve_right hdot
        exact congrArg Prod.fst (@stemAndExtension_append [] cs hdot)
      · rw [stemAndExtension_of_not_mem hmem]
    rw [hstem]

/-- A path whose name `isFile` becomes what `withExtension` makes of it, and nothing else. -/
theorem renames_iff {extension path path' : String} (h : isFile (folderAndName path).2 = true) :
    Renames extension path path' ↔ path' = withExtension path extension := by
  constructor
  · exact Renames.eq_withExtension
  · rintro rfl
    obtain ⟨path', hrenames⟩ := exists_renames h extension
    rw [← hrenames.eq_withExtension]
    exact hrenames

end TextArt.FileName

namespace TextArt.Directory

/-! ### What is read -/

variable {d : Directory} {p q : Place} {parts : List String} {contents : Bytes}

/-- Everything on the way to a place is a `directory`. -/
def Rooted (d : Directory) (p : Place) : Prop :=
  ∀ names, names <+: p.names → names ≠ p.names → d.target { p with names } = .directory

/-- The directory itself is `Rooted`, and so is every one above it. -/
theorem rooted_nil (up : Nat) : d.Rooted { up, names := [] } :=
  fun _ hbegin hne => absurd (List.prefix_nil.mp hbegin) hne

/-- What is in a `directory` is `Rooted` if the directory is. -/
theorem Rooted.down (hp : d.Rooted p) (hdirectory : d.target p = .directory) (part : String) :
    d.Rooted { p with names := p.names ++ [part] } := by
  intro names hbegin hne
  have hnames := (List.prefix_concat_iff.mp hbegin).resolve_left hne
  by_cases heq : names = p.names
  · rw [heq]
    exact hdirectory
  · exact hp names hnames heq

/-- What a place is in, by `dropLast` of its names, is `Rooted` if the place is. -/
theorem Rooted.up (hp : d.Rooted p) : d.Rooted { p with names := p.names.dropLast } := by
  intro names hbegin hne
  refine hp names (hbegin.trans (List.dropLast_prefix _)) fun heq => hne ?_
  rw [heq] at hbegin
  exact heq.trans (hbegin.eq_of_length_le (List.length_dropLast ▸ Nat.sub_le _ _))

/-- From a place that is `Rooted`, `followFrom` leads to such places only. -/
theorem Rooted.followFrom (hp : d.Rooted p) (h : d.followFrom p parts = .ok q) : d.Rooted q := by
  induction parts generalizing p with
  | nil =>
    obtain rfl := Except.ok.inj h
    exact hp
  | cons part rest ih =>
    unfold Directory.followFrom at h
    split at h
    · cases h
    · cases h
    · next hdirectory =>
      -- a part that leads nowhere, one that leads up, one that is refused, one that leads down
      split at h
      · exact ih hp h
      · split at h
        · refine ih ?_ h
          split
          · next hnames =>
            rw [List.isEmpty_iff.mp hnames]
            exact rooted_nil _
          · exact hp.up
        · split at h
          · cases h
          · exact ih (hp.down hdirectory part) h

/-- The last part of a path is followed from where the other parts lead with `followFrom`. -/
theorem followFrom_concat (d : Directory) (p : Place) (parts : List String) (last : String) :
    d.followFrom p (parts ++ [last])
      = (d.followFrom p parts).bind fun q => d.followFrom q [last] := by
  induction parts generalizing p with
  | nil => rfl
  | cons part rest ih =>
    rw [List.cons_append, followFrom, followFrom]
    split
    · rfl
    · rfl
    · split
      · exact ih p
      · split
        · exact ih _
        · split
          · rfl
          · exact ih _

/-- A `file` has a name, which is the last part of every path to it. -/
theorem Rooted.isFile_of_file {name : List Char} (hp : d.Rooted p)
    (h : d.followFrom p [String.ofList name] = .ok q) (hq : d.target q = .file contents) :
    FileName.isFile name = true := by
  -- what else a path can end with leads to the directory itself, or to the one above it
  suffices hdirectory : FileName.isFile name ≠ true → d.target q = .directory by
    by_contra hname
    rw [hdirectory hname] at hq
    cases hq
  intro hname
  have hlast : name = [] ∨ name = ['.'] ∨ name = ['.', '.'] := by
    rw [ne_eq, FileName.isFile_iff] at hname
    tauto
  unfold Directory.followFrom at h
  split at h
  · cases h
  · cases h
  · next hdirectory =>
    rcases hlast with rfl | rfl | rfl
    · obtain rfl := Except.ok.inj h
      exact hdirectory
    · obtain rfl := Except.ok.inj h
      exact hdirectory
    · obtain rfl := Except.ok.inj h
      split
      · next hnames =>
        rw [List.isEmpty_iff.mp hnames]
        rfl
      · next hnames =>
        refine hp _ (List.dropLast_prefix _) fun heq => hnames ?_
        have hlength := congrArg List.length heq
        rw [List.length_dropLast] at hlength
        exact List.isEmpty_iff.mpr (List.eq_nil_of_length_eq_zero (by omega))

/-- What is read at a path is the `file` that the path leads to. -/
theorem exists_follow_of_read {path : String} (h : d.read path = .ok contents) :
    ∃ q, d.follow path = .ok q ∧ d.target q = .file contents := by
  unfold read at h
  cases hfollow : d.follow path with
  | error cause =>
    rw [hfollow] at h
    cases h
  | ok q =>
    rw [hfollow] at h
    dsimp only [bind, Except.bind] at h
    split at h
    · next htarget =>
      obtain rfl := Except.ok.inj h
      exact ⟨q, rfl, htarget⟩
    · cases h
    · cases h

/-- To `follow` a path is to follow what lies between its slashes, from the directory itself or from
    one above it. -/
theorem exists_followFrom_of_follow {path : String} (h : d.follow path = .ok q) :
    ∃ up, d.followFrom { up } ((path.toList.splitOn '/').map String.ofList) = .ok q := by
  unfold follow at h
  split at h
  · cases h
  · split at h
    · cases h
    · dsimp only at h
      split at h
      · exact ⟨pathLimit, h⟩
      · exact ⟨0, h⟩

/-- Only what has the name of a file is read: at the end of its path there is a name that
    `FileName.isFile`. -/
theorem isFile_of_read {path : String} (h : d.read path = .ok contents) :
    FileName.isFile (FileName.folderAndName path).2 = true := by
  obtain ⟨folder, name, hparts⟩ := FileName.exists_parts path
  obtain ⟨before, hbefore⟩ := hparts.splitOn_eq
  obtain ⟨q, hfollow, hq⟩ := exists_follow_of_read h
  obtain ⟨up, hpath⟩ := exists_followFrom_of_follow hfollow
  rw [hbefore, List.map_append, List.map_singleton, followFrom_concat] at hpath
  rw [hparts.folderAndName_eq]
  cases hfront : d.followFrom { up } (before.map String.ofList) with
  | error cause =>
    rw [hfront] at hpath
    cases hpath
  | ok p =>
    rw [hfront] at hpath
    exact ((rooted_nil up).followFrom hfront).isFile_of_file hpath hq

end TextArt.Directory
