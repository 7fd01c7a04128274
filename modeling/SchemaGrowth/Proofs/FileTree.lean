import SchemaGrowth.FileTree

/-!
# What actions leave behind

A tree only ever grows: what is there stays there, and a directory stays one, so a path that led to
a place leads there ever after (`Grows.find`). `Wrote` says which files were written: each is read
back with its contents, and no other file is made or changed. A write is one step of it
(`wrote_of_write`), and steps follow each other as long as no file is written twice
(`Wrote.trans`), as it is with files of one directory (`Writes.wrote`). To make directories writes
no file, however it ends (`WritesNothing.makeDirectories`).
-/

namespace SchemaGrowth

/-- A computation in two parts succeeds if both do. -/
theorem bind_eq_ok {α β ε : Type} {x : Except ε α} {f : α → Except ε β} {b : β} :
    x >>= f = .ok b ↔ ∃ a, x = .ok a ∧ f a = .ok b := by
  cases x <;> simp [bind, Except.bind]

/-! ## Paths in a directory -/

namespace Path

theorem names_append (path rest : Text) : names (path ++ '/' :: rest) = names path ++ names rest := by
  rw [names, List.splitOn_append_cons_self, List.filter_append, names, names]

/-- Whether a text can be the name of a file in a directory. -/
structure IsFileName (name : Text) : Prop where
  nonempty : name ≠ []
  noSlash : '/' ∉ name
  notRelative : FileTree.isRelativeName name = false

namespace IsFileName

variable {name : Text} (h : IsFileName name) (directory : Text)
include h

theorem names_eq : names name = [name] := by
  rw [names, List.splitOn_eq_singleton h.noSlash]
  simp [h.nonempty]

/-- The path of a file in a directory leads through the directory. -/
theorem names_join : names (join directory name) = names directory ++ [name] := by
  unfold join
  split
  · rename_i hdirectory
    rcases hdirectory with rfl | hslash
    · rw [List.nil_append, h.names_eq]
      rfl
    · obtain ⟨front, rfl⟩ := List.getLast?_eq_some_iff.mp hslash
      have hnil : names [] = [] := rfl
      rw [List.append_assoc, List.singleton_append, names_append, names_append, h.names_eq, hnil,
        List.append_nil]
  · rw [names_append, h.names_eq]

theorem getLast?_join : (join directory name).getLast? ≠ some '/' := by
  obtain ⟨front, last, rfl⟩ := List.eq_nil_or_concat name |>.resolve_left h.nonempty
  have hlast : (join directory (front.concat last)).getLast? = some last := by
    unfold join
    split <;> simp [List.getLast?_append, List.getLast?_cons]
  rw [hlast]
  rintro ⟨⟩
  exact h.noSlash (by simp)

end IsFileName

end Path

namespace FileTree

/-! ## Walks -/

/-- One name leads on from a directory: nowhere, upwards, or to what it names. -/
theorem step_eq_ok {tree : FileTree} {place next : List Text} {name : Text} :
    tree.step place name = .ok next
      ↔ tree.get? place = some .directory
        ∧ (name = ['.'] ∧ next = place
          ∨ name = ['.', '.'] ∧ next = place.dropLast
          ∨ isRelativeName name = false ∧ checkName name = .ok () ∧ next = place ++ [name]
            ∧ (tree.get? next).isSome) := by
  unfold step
  cases hplace : tree.get? place with
  | none => simp
  | some entry =>
    cases entry with
    | file contents => simp
    | directory =>
      by_cases hdot : name = ['.']
      · have hrelative : isRelativeName ['.'] = true := rfl
        simp [hdot, hrelative, @eq_comm _ next]
      · by_cases hup : name = ['.', '.']
        · have hrelative : isRelativeName ['.', '.'] = true := rfl
          simp [hup, hrelative, @eq_comm _ next]
        · simp only [hdot, hup, if_false, bind_eq_ok, true_and, false_and, false_or]
          have hrelative : isRelativeName name = false := by simp [isRelativeName, hdot, hup]
          constructor
          · rintro ⟨⟨⟩, hname, hnext⟩
            split at hnext
            · rename_i hsome
              obtain rfl := Except.ok.inj hnext
              exact ⟨hrelative, hname, rfl, hsome⟩
            · cases hnext
          · rintro ⟨-, hname, rfl, hsome⟩
            exact ⟨(), hname, by rw [if_pos hsome]; rfl⟩

theorem walk_cons {tree : FileTree} {place last : List Text} {name : Text} {rest : List Text} :
    tree.walk place (name :: rest) = .ok last
      ↔ ∃ next, tree.step place name = .ok next ∧ tree.walk next rest = .ok last := by
  rw [walk]
  exact bind_eq_ok

theorem walk_append {tree : FileTree} {place last : List Text} {first second : List Text} :
    tree.walk place (first ++ second) = .ok last
      ↔ ∃ next, tree.walk place first = .ok next ∧ tree.walk next second = .ok last := by
  induction first generalizing place with
  | nil => simp [walk]
  | cons name rest ih =>
    rw [List.cons_append, walk_cons]
    simp only [ih, walk_cons]
    constructor
    · rintro ⟨next, hstep, later, hrest, hsecond⟩
      exact ⟨later, ⟨next, hstep, hrest⟩, hsecond⟩
    · rintro ⟨later, ⟨next, hstep, hrest⟩, hsecond⟩
      exact ⟨next, hstep, later, hrest, hsecond⟩

theorem find_eq_ok {tree : FileTree} {path : Text} {place : List Text}
    (h : path.getLast? ≠ some '/') :
    tree.find path = .ok place
      ↔ checkPath path = .ok () ∧ tree.walk (tree.start path) (Path.names path) = .ok place := by
  rw [find, bind_eq_ok]
  simp only [h, if_false, List.append_nil]
  constructor
  · rintro ⟨⟨⟩, hpath, hwalk⟩
    exact ⟨hpath, hwalk⟩
  · rintro ⟨hpath, hwalk⟩
    exact ⟨(), hpath, hwalk⟩

/-- A path of a file in a directory leads to a place with the name of the file. -/
theorem getLast?_of_find_join {name : Text} (h : Path.IsFileName name) {directory : Text}
    {tree : FileTree} {place : List Text}
    (hfind : tree.find (Path.join directory name) = .ok place) : place.getLast? = some name := by
  obtain ⟨-, hwalk⟩ := (find_eq_ok (h.getLast?_join directory)).mp hfind
  rw [h.names_join directory] at hwalk
  obtain ⟨next, -, hlast⟩ := walk_append.mp hwalk
  obtain ⟨place', hstep, hnil⟩ := walk_cons.mp hlast
  obtain rfl : place' = place := Except.ok.inj hnil
  obtain ⟨-, hname⟩ := step_eq_ok.mp hstep
  have hrelative := h.notRelative
  rcases hname with ⟨rfl, -⟩ | ⟨rfl, -⟩ | ⟨-, -, rfl, -⟩
  · exact absurd hrelative (by decide)
  · exact absurd hrelative (by decide)
  · simp

/-! ## Growth -/

/-- Whether a tree grew from another one: nothing is gone, and directories are directories still. -/
structure Grows (before after : FileTree) : Prop where
  workingDirectory : after.workingDirectory = before.workingDirectory
  present : ∀ place, (before.get? place).isSome → (after.get? place).isSome
  directory : ∀ place, before.get? place = some .directory → after.get? place = some .directory

namespace Grows

theorem refl (tree : FileTree) : Grows tree tree :=
  ⟨rfl, fun _ h => h, fun _ h => h⟩

theorem trans {first second third : FileTree} (h : Grows first second) (h' : Grows second third) :
    Grows first third :=
  ⟨h'.workingDirectory.trans h.workingDirectory,
    fun place hp => h'.present place (h.present place hp),
    fun place hp => h'.directory place (h.directory place hp)⟩

/-- A tree grows by an entry that takes the place of no directory. -/
theorem put {tree : FileTree} {place : List Text} {entry : Entry} (hne : place ≠ [])
    (h : tree.get? place ≠ some .directory) : Grows tree (tree.put place entry) := by
  refine ⟨rfl, ?_, ?_⟩
  · intro other hother
    by_cases he : place = other
    · rw [← he, get?_put_self hne]
      rfl
    · rwa [get?_put_ne he]
  · intro other hother
    have he : place ≠ other := by
      rintro rfl
      exact h hother
    rwa [get?_put_ne he]

variable {before after : FileTree} (h : Grows before after)
include h

theorem step {place next : List Text} {name : Text} (hs : before.step place name = .ok next) :
    after.step place name = .ok next := by
  obtain ⟨hplace, hnext⟩ := step_eq_ok.mp hs
  refine step_eq_ok.mpr ⟨h.directory place hplace, ?_⟩
  rcases hnext with hdot | hup | ⟨hrelative, hname, hnext, hsome⟩
  · exact .inl hdot
  · exact .inr (.inl hup)
  · exact .inr (.inr ⟨hrelative, hname, hnext, h.present next hsome⟩)

theorem walk {place last : List Text} {names : List Text}
    (hw : before.walk place names = .ok last) : after.walk place names = .ok last := by
  induction names generalizing place with
  | nil => exact hw
  | cons name rest ih =>
    obtain ⟨next, hstep, hrest⟩ := walk_cons.mp hw
    exact walk_cons.mpr ⟨next, h.step hstep, ih hrest⟩

/-- A path that led to a place leads there still. -/
theorem find {path : Text} {place : List Text} (hf : before.find path = .ok place) :
    after.find path = .ok place := by
  obtain ⟨⟨⟩, hpath, hwalk⟩ := bind_eq_ok.mp hf
  have hstart : after.start path = before.start path := by
    simp [start, h.workingDirectory]
  refine bind_eq_ok.mpr ⟨(), hpath, ?_⟩
  rw [hstart]
  exact h.walk hwalk

end Grows

/-! ## Files -/

/-- The file at a place, if there is one: its text, if its contents are one. -/
def file? (tree : FileTree) (place : List Text) : Option (Option Text) :=
  match tree.get? place with
  | some (.file contents) => some contents
  | _ => none

theorem file?_put_self {place : List Text} (h : place ≠ []) (tree : FileTree)
    (contents : Option Text) : (tree.put place (.file contents)).file? place = some contents := by
  rw [file?, get?_put_self h]

theorem file?_put_ne {place other : List Text} (h : place ≠ other) (tree : FileTree)
    (entry : Entry) : (tree.put place entry).file? other = tree.file? other := by
  rw [file?, get?_put_ne h, file?]

/-- A path is read if it leads to a file with a text. -/
theorem read_eq_ok {tree : FileTree} {path contents : Text} :
    tree.read path = .ok contents
      ↔ ∃ place, tree.find path = .ok place ∧ tree.file? place = some (some contents) := by
  rw [read, bind_eq_ok]
  refine exists_congr fun place => and_congr_right fun _ => ?_
  unfold file?
  split <;> simp_all [throw, throwThe, MonadExceptOf.throw, pure, Except.pure]

/-- The last name of a path is looked for in the directory to which the names before it lead. -/
theorem findParent_eq_ok {tree : FileTree} {path name : Text} {place : List Text}
    (h : tree.findParent path = .ok (place, name)) (hn : isRelativeName name = false) :
    checkPath path = .ok () ∧ checkName name = .ok () ∧ tree.get? place = some .directory
      ∧ ∃ front, Path.names path = front ++ [name]
        ∧ tree.walk (tree.start path) front = .ok place := by
  obtain ⟨⟨⟩, hpath, h⟩ := bind_eq_ok.mp h
  obtain ⟨parent, hwalk, h⟩ := bind_eq_ok.mp h
  obtain ⟨⟨⟩, hname, h⟩ := bind_eq_ok.mp h
  obtain ⟨rfl, hlast⟩ := Prod.mk.inj (Except.ok.inj h)
  obtain ⟨before, hfront, hdot⟩ := walk_append.mp hwalk
  obtain ⟨next, hstep, hnil⟩ := walk_cons.mp hdot
  obtain rfl : next = parent := Except.ok.inj hnil
  obtain ⟨hdirectory, hnext⟩ := step_eq_ok.mp hstep
  -- The last step is the one that asks for a directory, and leads nowhere.
  obtain rfl : next = before := by
    rcases hnext with ⟨-, hnext⟩ | ⟨hup, -⟩ | ⟨hrelative, -⟩
    · exact hnext
    · exact absurd hup (by decide)
    · exact absurd hrelative (by decide)
  cases hnames : (Path.names path).getLast? with
  | none =>
    rw [hnames] at hlast
    obtain rfl : ['.'] = name := hlast
    exact absurd hn (by decide)
  | some last =>
    rw [hnames] at hlast hname
    obtain rfl : last = name := hlast
    obtain ⟨front, hsplit⟩ := List.getLast?_eq_some_iff.mp hnames
    rw [hsplit, List.dropLast_concat] at hfront
    exact ⟨hpath, hname, hdirectory, front, hsplit, hfront⟩

/-- A write puts its text where its path leads behind it, and no directory was there. -/
theorem exists_place_of_write {tree after : FileTree} {path contents : Text}
    (h : tree.write path contents = .ok after) :
    ∃ place, place ≠ [] ∧ tree.get? place ≠ some .directory
      ∧ after = tree.put place (.file (some contents)) ∧ after.find path = .ok place := by
  obtain ⟨⟨place, name⟩, hparent, h⟩ := bind_eq_ok.mp h
  simp only at h
  split at h
  · cases h
  · rename_i hguard
    obtain rfl := Except.ok.inj h
    simp only [Bool.or_eq_true, decide_eq_true_eq, not_or, Bool.not_eq_true] at hguard
    obtain ⟨⟨hrelative, hslash⟩, hdirectory⟩ := hguard
    obtain ⟨hpath, hname, hplace, front, hnames, hfront⟩ := findParent_eq_ok hparent hrelative
    have hne : place ++ [name] ≠ [] := by simp
    have hgrows : Grows tree (tree.put (place ++ [name]) (.file (some contents))) :=
      Grows.put hne hdirectory
    refine ⟨place ++ [name], hne, hdirectory, rfl, (find_eq_ok hslash).mpr ⟨hpath, ?_⟩⟩
    rw [hnames]
    refine walk_append.mpr ⟨place, hgrows.walk hfront, walk_cons.mpr ⟨_, ?_, rfl⟩⟩
    refine step_eq_ok.mpr ⟨hgrows.directory place hplace, .inr (.inr ⟨hrelative, hname, rfl, ?_⟩)⟩
    rw [get?_put_self hne]
    rfl

/-! ## Written files -/

/-- What it means that some files, and no others, were written, each with its contents. -/
structure Wrote (before after : FileTree) (files : List (Text × Text)) : Prop where
  grows : Grows before after
  /-- Every written file is read back. -/
  held : ∀ path contents, (path, contents) ∈ files → after.read path = .ok contents
  /-- No other file is made or changed. -/
  kept : ∀ place, (∀ path contents, (path, contents) ∈ files → after.find path ≠ .ok place) →
    after.file? place = before.file? place

namespace Wrote

theorem refl (tree : FileTree) : Wrote tree tree [] :=
  ⟨Grows.refl tree, by simp, fun _ _ => rfl⟩

/-- Files are written one after another if none of the later ones takes the place of one before. -/
theorem trans {first second third : FileTree} {files others : List (Text × Text)}
    (h : Wrote first second files) (h' : Wrote second third others)
    (apart : ∀ file ∈ files, ∀ other ∈ others, ∀ place, third.find file.1 = .ok place →
      third.find other.1 ≠ .ok place) :
    Wrote first third (files ++ others) := by
  refine ⟨h.grows.trans h'.grows, ?_, ?_⟩
  · intro path contents hm
    rcases List.mem_append.mp hm with hm | hm
    · obtain ⟨place, hfind, hfile⟩ := read_eq_ok.mp (h.held path contents hm)
      have hfind' := h'.grows.find hfind
      refine read_eq_ok.mpr ⟨place, hfind', ?_⟩
      rw [h'.kept place fun other text ho => apart _ hm (other, text) ho place hfind', hfile]
    · exact h'.held path contents hm
  · intro place hplace
    have hother := h'.kept place fun path contents hm =>
      hplace path contents (List.mem_append_right _ hm)
    rw [hother]
    refine h.kept place ?_
    intro path contents hm hfind
    exact hplace path contents (List.mem_append_left _ hm) (h'.grows.find hfind)

end Wrote

theorem wrote_of_write {tree after : FileTree} {path contents : Text}
    (h : tree.write path contents = .ok after) : Wrote tree after [(path, contents)] := by
  obtain ⟨place, hne, hdirectory, rfl, hfind⟩ := exists_place_of_write h
  refine ⟨Grows.put hne hdirectory, ?_, ?_⟩
  · intro other text hm
    obtain ⟨rfl, rfl⟩ := Prod.mk.inj (List.mem_singleton.mp hm)
    exact read_eq_ok.mpr ⟨place, hfind, file?_put_self hne tree _⟩
  · intro other hother
    have hne' : place ≠ other := by
      rintro rfl
      exact hother path contents (by simp) hfind
    exact file?_put_ne hne' tree _

theorem wrote_of_makeDirectory {tree after : FileTree} {path : Text}
    (h : tree.makeDirectory path = .ok after) : Wrote tree after [] := by
  obtain ⟨⟨place, name⟩, hparent, h⟩ := bind_eq_ok.mp h
  simp only at h
  split at h
  · cases h
  · rename_i hguard
    obtain rfl := Except.ok.inj h
    have hnone : tree.get? (place ++ [name]) = none := by
      simp only [Bool.or_eq_true, not_or, Bool.not_eq_true, Option.isSome_eq_false_iff,
        Option.isNone_iff_eq_none] at hguard
      exact hguard.2
    have hne : place ++ [name] ≠ [] := by simp
    refine ⟨Grows.put hne (by simp [hnone]), by simp, ?_⟩
    intro other _
    by_cases he : place ++ [name] = other
    · rw [← he, file?, get?_put_self hne, file?, hnone]
    · exact file?_put_ne he tree _

/-! ## Files of a directory -/

/-- Files by their paths in a directory. -/
def filesIn (directory : Text) (files : List (Text × Text)) : List (Text × Text) :=
  files.map fun file => (Path.join directory file.1, file.2)

/-- Files that are written one after another. -/
inductive Writes : FileTree → List (Text × Text) → FileTree → Prop
  | nil (tree : FileTree) : Writes tree [] tree
  | cons {before next after : FileTree} {path contents : Text} {rest : List (Text × Text)}
      (write : before.write path contents = .ok next) (writes : Writes next rest after) :
      Writes before ((path, contents) :: rest) after

/-- Files with distinct names in one directory do not overwrite each other. -/
theorem Writes.wrote {directory : Text} {files : List (Text × Text)} {before after : FileTree}
    (h : Writes before (filesIn directory files) after) (hd : (files.map Prod.fst).Nodup)
    (hn : ∀ name ∈ files.map Prod.fst, Path.IsFileName name) :
    Wrote before after (filesIn directory files) := by
  induction files generalizing before with
  | nil =>
    cases h
    exact Wrote.refl after
  | cons file rest ih =>
    obtain ⟨name, contents⟩ := file
    obtain ⟨hname, hrest⟩ := List.nodup_cons.mp hd
    cases h with
    | cons write writes =>
      refine (wrote_of_write write).trans
        (ih writes hrest fun other ho => hn other (List.mem_cons_of_mem _ ho)) ?_
      intro file hfile other hother place hplace hplace'
      obtain rfl := List.mem_singleton.mp hfile
      obtain ⟨later, hlater, rfl⟩ := List.mem_map.mp hother
      have hmem : later.1 ∈ rest.map Prod.fst := List.mem_map_of_mem hlater
      -- Both paths lead to one place, so they end with the same name.
      have hfirst := getLast?_of_find_join (hn name (by simp)) hplace
      have hsecond := getLast?_of_find_join (hn later.1 (List.mem_cons_of_mem _ hmem)) hplace'
      obtain rfl : name = later.1 := Option.some.inj (hfirst.symm.trans hsecond)
      exact hname hmem

/-! ## Actions -/

/-- An action that makes directories at most. -/
def WritesNothing {α : Type} (act : StateM FileTree α) : Prop :=
  ∀ tree, Wrote tree (act.run tree).2 []

namespace WritesNothing

theorem pure {α : Type} (a : α) : WritesNothing (pure a : StateM FileTree α) :=
  Wrote.refl

theorem bind {α β : Type} {act : StateM FileTree α} {next : α → StateM FileTree β}
    (h : WritesNothing act) (hnext : ∀ a, WritesNothing (next a)) :
    WritesNothing (act >>= next) := by
  intro tree
  exact (h tree).trans (hnext _ _) (by simp)

theorem makeDirectory (path : Text) : WritesNothing (disk.makeDirectory path) := by
  intro tree
  show Wrote tree (commit (·.makeDirectory path) tree).2 []
  unfold commit
  split
  · rename_i h
    exact wrote_of_makeDirectory h
  · exact Wrote.refl tree

theorem isDirectory (path : Text) : WritesNothing (disk.isDirectory path) :=
  Wrote.refl

theorem keepDirectory (path : Text) (result : Except FileError Unit) :
    WritesNothing (Disk.makeAlong.keepDirectory disk path result) := by
  cases result with
  | ok => exact pure _
  | error failure => exact (isDirectory path).bind fun _ => pure _

theorem makeAlong (paths : List Text) : WritesNothing (disk.makeAlong paths) := by
  induction paths with
  | nil => exact pure _
  | cons path above ih =>
    rw [Disk.makeAlong]
    refine (makeDirectory path).bind fun result => ?_
    split
    · exact pure _
    · refine ih.bind fun result => ?_
      split
      · exact pure _
      · exact (makeDirectory path).bind fun result => keepDirectory path result
    · exact keepDirectory path _

theorem makeDirectories (path : Text) : WritesNothing (disk.makeDirectories path) :=
  makeAlong (Path.ancestors path)

end WritesNothing

end FileTree

end SchemaGrowth
