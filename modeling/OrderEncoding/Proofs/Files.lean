import OrderEncoding.Files
import OrderEncoding.Proofs.Results

/-!
# Exchanging files

Where a path leads depends on the directories only, so writing and removing
files moves none of them.  Two usable paths, which lead to different files, can
be written, read and cleared without disturbing each other.  Files that differ at
one path only look alike as soon as it is cleared.
-/

namespace OrderEncoding
namespace Files

open Results (bind_eq_ok_iff check_eq_ok_iff)

/-! ## Content by plain paths -/

theorem directories_insert
    (files : Files)
    (path : String)
    (content : Content) :
    files.directories = (files.insert path content).directories := rfl

theorem directories_erase
    (files : Files)
    (path : String) :
    files.directories = (files.erase path).directories := rfl

@[simp] theorem lookup?_insert_self
    (files : Files)
    (path : String)
    (content : Content) :
    (files.insert path content).lookup? path = some content := by
  simp [lookup?, insert]

@[simp] theorem lookup?_erase_self
    (files : Files)
    (path : String) :
    (files.erase path).lookup? path = none := by
  simp [lookup?, erase, List.find?_filter]

theorem lookup?_erase_of_ne
    (files : Files)
    {path other : String}
    (different : other ≠ path) :
    (files.erase path).lookup? other = files.lookup? other := by
  rw [lookup?, erase, List.find?_filter, lookup?]
  congr 2
  funext entry
  by_cases same : entry.path = other
  · simp [same, different]
  · simp [same]

theorem lookup?_insert_of_ne
    (files : Files)
    {path other : String}
    (different : other ≠ path)
    (content : Content) :
    (files.insert path content).lookup? other = files.lookup? other := by
  have ahead : (files.insert path content).lookup? other =
      (files.erase path).lookup? other := by
    simp [lookup?, insert, erase, different.symm]
  rw [ahead, lookup?_erase_of_ne files different]

/-! ## Places of paths -/

theorem isDirectory_congr
    {first second : Files}
    (same : first.directories = second.directories)
    (place : Place) :
    first.isDirectory place = second.isDirectory place := by
  simp only [isDirectory, same]

theorem enter_congr
    {first second : Files}
    (same : first.directories = second.directories)
    {place next : Place}
    {step : String}
    (enters : first.enter place step = .ok next) :
    second.enter place step = .ok next := by
  rw [enter, isDirectory_congr same] at enters
  rw [enter]
  split at enters
  · contradiction
  · rename_i isDirectory
    rwa [if_neg isDirectory]

theorem foldlM_enter_congr
    {first second : Files}
    (same : first.directories = second.directories)
    {steps : List String}
    {place last : Place}
    (enters : steps.foldlM first.enter place = .ok last) :
    steps.foldlM second.enter place = .ok last := by
  induction steps generalizing place with
  | nil => exact enters
  | cons step rest inductionHypothesis =>
      rw [List.foldlM_cons, bind_eq_ok_iff] at enters ⊢
      obtain ⟨next, firstEnters, restEnters⟩ := enters
      exact ⟨next, enter_congr same firstEnters, inductionHypothesis restEnters⟩

/-- Where a path leads depends on the directories only. -/
theorem locate_congr
    {first second : Files}
    (same : first.directories = second.directories)
    {path plain : String}
    (locates : first.locate path = .ok plain) :
    second.locate path = .ok plain := by
  simp only [locate, resolve, bind_eq_ok_iff, check_eq_ok_iff,
    isDirectory_congr same] at locates ⊢
  obtain ⟨place, ⟨nonempty, plainText, short, last, entered, rest⟩, file⟩ :=
    locates
  exact ⟨place, ⟨nonempty, plainText, short, last,
    foldlM_enter_congr same entered, rest⟩, file⟩

theorem write_of_locate
    {files : Files}
    {path plain : String}
    (located : files.locate path = .ok plain)
    (content : Content) :
    files.write path content =
      .ok (if plain = nullDevice then files else files.insert plain content) := by
  simp only [write, located, bind, Except.bind]
  split <;> rfl

theorem write_of_lost
    {files : Files}
    {path : String}
    {fault : PathFault}
    (lost : files.locate path = .error fault)
    (content : Content) :
    files.write path content = .error fault := by
  rw [write, lost]
  rfl

/-- Clearing a path leaves nothing at it, and everything else as it is. -/
theorem exists_clear_of_locate
    {files : Files}
    {path plain : String}
    (located : files.locate path = .ok plain)
    (real : plain ≠ nullDevice) :
    ∃ cleared, files.clear path = .ok cleared ∧
      files.directories = cleared.directories ∧
      ∀ other, cleared.lookup? other =
        if other = plain then none else files.lookup? other := by
  cases found : files.lookup? plain with
  | none =>
      refine ⟨files, ?_, rfl, fun other => ?_⟩
      · simp only [clear, remove, located, bind, Except.bind, if_neg real, found,
          throw, throwThe, MonadExceptOf.throw]
      · split
        next same => rw [same, found]
        next => rfl
  | some content =>
      refine ⟨files.erase plain, ?_, files.directories_erase plain,
        fun other => ?_⟩
      · simp only [clear, remove, located, bind, Except.bind, if_neg real, found,
          pure, Except.pure]
      · split
        next same => rw [same, lookup?_erase_self]
        next different => exact lookup?_erase_of_ne files different

theorem clear_of_nullDevice
    {files : Files}
    {path : String}
    (located : files.locate path = .ok nullDevice) :
    files.clear path = .error .denied := by
  simp only [clear, remove, located, bind, Except.bind, if_pos, throw, throwThe,
    MonadExceptOf.throw]

theorem clear_of_lost
    {files : Files}
    {path : String}
    {fault : PathFault}
    (lost : files.locate path = .error fault) :
    files.clear path =
      if fault = .missing then .ok files else .error fault := by
  cases fault <;> simp [clear, remove, lost, bind, Except.bind]

/-! ## Exchanging files by two paths -/

/-- Two paths lead to different files that can be read, written and removed. -/
def Usable (files : Files) (input output : String) : Prop :=
  ∃ source target,
    files.locate input = .ok source ∧ files.locate output = .ok target ∧
      source ≠ nullDevice ∧ target ≠ nullDevice ∧ source ≠ target

theorem Usable.symm
    {files : Files}
    {input output : String}
    (usable : files.Usable input output) :
    files.Usable output input := by
  obtain ⟨source, target, located, otherLocated, real, otherReal, different⟩ :=
    usable
  exact ⟨target, source, otherLocated, located, otherReal, real,
    different.symm⟩

theorem Usable.congr
    {first second : Files}
    (same : first.directories = second.directories)
    {input output : String}
    (usable : first.Usable input output) :
    second.Usable input output := by
  obtain ⟨source, target, located, otherLocated, rest⟩ := usable
  exact ⟨source, target, locate_congr same located,
    locate_congr same otherLocated, rest⟩

theorem readText?_of_locate
    {files : Files}
    {path plain : String}
    (located : files.locate path = .ok plain)
    (real : plain ≠ nullDevice) :
    files.readText? path = (files.lookup? plain).bind Content.text? := by
  simp only [readText?, read, located, bind, Except.bind, if_neg real]
  cases files.lookup? plain with
  | none => rfl
  | some content => rfl

theorem readText?_of_lost
    {files : Files}
    {path : String}
    {fault : PathFault}
    (lost : files.locate path = .error fault) :
    files.readText? path = none := by
  simp only [readText?, read, lost, bind, Except.bind]

/-- Nothing is read from a path that was cleared. -/
theorem readText?_of_clear
    {files cleared : Files}
    {path : String}
    (clears : files.clear path = .ok cleared) :
    cleared.readText? path = none := by
  cases located : files.locate path with
  | ok plain =>
      by_cases device : plain = nullDevice
      · subst device
        cases clears.symm.trans (clear_of_nullDevice located)
      · obtain ⟨other, otherClears, same, rest⟩ :=
          exists_clear_of_locate located device
        cases clears.symm.trans otherClears
        rw [readText?_of_locate (locate_congr same located) device, rest,
          if_pos rfl]
        rfl
  | error fault =>
      rw [clear_of_lost located] at clears
      split at clears
      next missing =>
        cases clears
        exact readText?_of_lost located
      next refused => cases clears

/-- A text that is written to a usable path is read back from it. -/
theorem Usable.exists_write
    {files : Files}
    {path other : String}
    (usable : files.Usable path other)
    (text : String) :
    ∃ written, files.write path (.text text) = .ok written ∧
      written.Usable path other ∧ written.readText? path = some text := by
  obtain ⟨source, _, located, _, real, _⟩ := id usable
  have same := files.directories_insert source (.text text)
  refine ⟨files.insert source (.text text), ?_, usable.congr same, ?_⟩
  · rw [write_of_locate located, if_neg real]
  · rw [readText?_of_locate (locate_congr same located) real,
      lookup?_insert_self]
    rfl

/-- A usable path can be cleared without a change to the other file. -/
theorem Usable.exists_clear
    {files : Files}
    {path other : String}
    (usable : files.Usable path other) :
    ∃ cleared, files.clear path = .ok cleared ∧ cleared.Usable path other ∧
      cleared.readText? path = none ∧
      cleared.readText? other = files.readText? other := by
  obtain ⟨source, target, located, otherLocated, real, otherReal, different⟩ :=
    id usable
  obtain ⟨cleared, clears, same, rest⟩ := exists_clear_of_locate located real
  refine ⟨cleared, clears, usable.congr same, readText?_of_clear clears, ?_⟩
  rw [readText?_of_locate (locate_congr same otherLocated) otherReal,
    readText?_of_locate otherLocated otherReal, rest, if_neg different.symm]

/-- Files that cannot be told apart by any path. -/
structure Alike (first second : Files) : Prop where
  directories : first.directories = second.directories
  lookup? : ∀ plain, first.lookup? plain = second.lookup? plain

/-- Files that cannot be told apart but for what is at one path, if it leads to a
file. -/
structure AlikeBesides (path : String) (first second : Files) : Prop where
  directories : first.directories = second.directories
  lookup? : ∀ plain, first.locate path ≠ .ok plain →
    first.lookup? plain = second.lookup? plain

theorem Alike.besides
    {first second : Files}
    (alike : first.Alike second)
    (path : String) :
    first.AlikeBesides path second :=
  ⟨alike.directories, fun plain _ => alike.lookup? plain⟩

theorem Alike.locate_eq
    {first second : Files}
    (alike : first.Alike second)
    (path : String) :
    first.locate path = second.locate path := by
  have directory : first.isDirectory = second.isDirectory :=
    funext (isDirectory_congr alike.directories)
  have fault : first.directoryFault = second.directoryFault := by
    funext place
    simp only [directoryFault, alike.lookup?]
  have enters : first.enter = second.enter := by
    funext place step
    simp only [enter, directory, fault]
  simp only [locate, resolve, directory, fault, enters]

theorem Alike.read_eq
    {first second : Files}
    (alike : first.Alike second)
    (path : String) :
    first.read path = second.read path := by
  simp only [read, alike.locate_eq, alike.lookup?]

theorem Alike.readText?_eq
    {first second : Files}
    (alike : first.Alike second)
    (path : String) :
    first.readText? path = second.readText? path := by
  simp only [readText?, alike.read_eq]

/-- Where a path leads to no file, it does so in no files with the same
directories. -/
theorem exists_locate_eq_error
    {first second : Files}
    (same : first.directories = second.directories)
    {path : String}
    {fault : PathFault}
    (lost : first.locate path = .error fault) :
    ∃ other, second.locate path = .error other := by
  cases located : second.locate path with
  | ok plain => cases lost.symm.trans (locate_congr same.symm located)
  | error other => exact ⟨other, rfl⟩

/-- Files that can be told apart at no place are alike. -/
theorem AlikeBesides.alike
    {path : String}
    {first second : Files}
    (alike : first.AlikeBesides path second)
    {fault : PathFault}
    (lost : first.locate path = .error fault) :
    first.Alike second := by
  refine ⟨alike.directories, fun plain => alike.lookup? plain ?_⟩
  rw [lost]
  exact nofun

/-- Two files after changes: every place holds the same, or in both what it held
before. -/
structure ChangedAlike (first after second otherAfter : Files) : Prop where
  directories : after.directories = otherAfter.directories
  lookup? : ∀ plain, after.lookup? plain = otherAfter.lookup? plain ∨
    after.lookup? plain = first.lookup? plain ∧
      otherAfter.lookup? plain = second.lookup? plain

theorem changedAlike_self
    {first second : Files}
    (directories : first.directories = second.directories) :
    ChangedAlike first first second second :=
  ⟨directories, fun _ => .inr ⟨rfl, rfl⟩⟩

theorem changedAlike_insert
    {first second : Files}
    (directories : first.directories = second.directories)
    (plain : String)
    (content : Content) :
    ChangedAlike first (first.insert plain content)
      second (second.insert plain content) := by
  refine ⟨directories, fun other => ?_⟩
  by_cases here : other = plain
  · rw [here, lookup?_insert_self, lookup?_insert_self]
    exact .inl rfl
  · exact .inr ⟨lookup?_insert_of_ne first here content,
      lookup?_insert_of_ne second here content⟩

/-- Writing the same content changes files in the same directories alike, unless
both refuse it. -/
theorem write_changedAlike
    {first second : Files}
    (directories : first.directories = second.directories)
    (path : String)
    (content : Content) :
    (∃ fault other, first.write path content = .error fault ∧
      second.write path content = .error other) ∨
    ∃ written other, first.write path content = .ok written ∧
      second.write path content = .ok other ∧
      first.directories = written.directories ∧
      ChangedAlike first written second other := by
  cases located : first.locate path with
  | ok plain =>
      refine .inr ⟨_, _, write_of_locate located content,
        write_of_locate (locate_congr directories located) content, ?_⟩
      split
      next => exact ⟨rfl, changedAlike_self directories⟩
      next => exact ⟨rfl, changedAlike_insert directories plain content⟩
  | error fault =>
      obtain ⟨other, otherLost⟩ := exists_locate_eq_error directories located
      exact .inl ⟨fault, other, write_of_lost located content,
        write_of_lost otherLost content⟩

/-- Files that look alike but for one path still do when both are changed alike. -/
theorem AlikeBesides.changed
    {path : String}
    {first second after otherAfter : Files}
    (alike : first.AlikeBesides path second)
    (same : first.directories = after.directories)
    (changed : ChangedAlike first after second otherAfter) :
    after.AlikeBesides path otherAfter := by
  refine ⟨changed.directories, fun plain elsewhere => ?_⟩
  rcases changed.lookup? plain with equal | ⟨kept, otherKept⟩
  · exact equal
  · rw [kept, otherKept]
    exact alike.lookup? plain fun here => elsewhere (locate_congr same here)

/-- Files that look alike but for one path look alike after it was cleared,
unless both refuse that. -/
theorem AlikeBesides.clear
    {path : String}
    {first second : Files}
    (alike : first.AlikeBesides path second) :
    (∃ fault other, first.clear path = .error fault ∧
      second.clear path = .error other) ∨
    ∃ cleared other, first.clear path = .ok cleared ∧
      second.clear path = .ok other ∧ cleared.Alike other := by
  cases located : first.locate path with
  | ok plain =>
      have otherLocated := locate_congr alike.directories located
      by_cases device : plain = nullDevice
      · subst device
        exact .inl ⟨_, _, clear_of_nullDevice located,
          clear_of_nullDevice otherLocated⟩
      · obtain ⟨cleared, clears, sameDirectories, rest⟩ :=
          exists_clear_of_locate located device
        obtain ⟨other, otherClears, otherDirectories, otherRest⟩ :=
          exists_clear_of_locate otherLocated device
        refine .inr ⟨cleared, other, clears, otherClears,
          sameDirectories.symm.trans (alike.directories.trans otherDirectories),
          fun place => ?_⟩
        rw [rest, otherRest]
        split
        next => rfl
        next elsewhere =>
          refine alike.lookup? place fun here => elsewhere ?_
          exact Except.ok.inj (here.symm.trans located)
  | error fault =>
      have same := alike.alike located
      have otherLost := (same.locate_eq path).symm.trans located
      rw [clear_of_lost located, clear_of_lost otherLost]
      split
      next missing => exact .inr ⟨first, second, rfl, rfl, same⟩
      next => exact .inl ⟨fault, fault, rfl, rfl⟩

end Files
end OrderEncoding
