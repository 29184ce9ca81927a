import GoMend.Disk
import Mathlib.Data.List.Basic

/-!
# Writing to a disk

A file is read back as it was written, and all other files are what they were.  Paths lead where
they led before.
-/

namespace GoMend.Disk

variable {disk : Disk} {place other : Place} {content : List UInt8} {path : Path}

/-! ### Files -/

theorem lookup_map_replaced (files : List (Place × List UInt8)) (place other : Place)
    (content : List UInt8) :
    (files.map fun entry => if entry.1 = place then (place, content) else entry).lookup other =
      if other = place then (files.lookup other).map fun _ => content else files.lookup other := by
  induction files with
  | nil => simp
  | cons entry files ih =>
      obtain ⟨key, old⟩ := entry
      rw [List.map_cons, List.lookup_cons, ih]
      by_cases isOther : other = key
      · subst isOther
        by_cases isPlace : other = place <;> simp [isPlace]
      · by_cases isPlace : key = place
        · subst isPlace
          simp [isOther, beq_false_of_ne isOther, List.lookup_cons]
        · simp [isPlace, beq_false_of_ne isOther, List.lookup_cons]

/-- The files of a disk after one of them is written. -/
theorem file?_write (disk : Disk) (place other : Place) (content : List UInt8) :
    (disk.write place content).file? other =
      if other = place then some content else disk.file? other := by
  unfold write
  split
  · next isFile =>
      obtain ⟨old, isOld⟩ := Option.isSome_iff_exists.mp isFile
      rw [file?, lookup_map_replaced, file?]
      split
      · next same =>
          subst same
          rw [show disk.files.lookup other = some old from isOld]
          rfl
      · rfl
  · next noFile =>
      rw [Option.not_isSome_iff_eq_none] at noFile
      simp only [file?, List.lookup_append] at noFile ⊢
      split
      · next same =>
          subst same
          simp [noFile]
      · next isOther =>
          simp [List.lookup_cons, beq_false_of_ne isOther]

theorem workingDirectory_write (disk : Disk) (place : Place) (content : List UInt8) :
    (disk.write place content).workingDirectory = disk.workingDirectory := by
  unfold write
  split <;> rfl

/-! ### Paths -/

/-- What a path means by name depends on the working directory alone. -/
theorem resolve_congr {first second : Disk}
    (same : first.workingDirectory = second.workingDirectory) (path : Path) :
    first.resolve path = second.resolve path := by
  rw [resolve, resolve, origin, origin, same]

theorem eq_foldl_of_walkFrom? {here : Place} {names : List String}
    (walked : disk.walkFrom? here names = some place) :
    names.foldl (fun here name => if name = ".." then here.dropLast else here ++ [name]) here =
      place := by
  induction names generalizing here with
  | nil => exact Option.some.inj walked
  | cons name names ih =>
      rw [walkFrom?] at walked
      split at walked
      · exact ih walked
      · cases walked

/-- A path that leads anywhere leads to the place that it means by name. -/
theorem resolve_eq_of_find? (found : disk.find? path = some place) : disk.resolve path = place :=
  eq_foldl_of_walkFrom? (Option.filter_eq_some_iff.mp found).1

theorem walkFrom?_append (disk : Disk) (here : Place) (names more : List String) :
    disk.walkFrom? here (names ++ more) =
      (disk.walkFrom? here names).bind (disk.walkFrom? · more) := by
  induction names generalizing here with
  | nil => rfl
  | cons name names ih =>
      simp only [List.cons_append, walkFrom?]
      split
      · exact ih _
      · rfl

/-- The path of a file in a directory leads to this file. -/
theorem find?_child {directory : Place} {name : String}
    (found : disk.find? path = some directory) (isDirectory : disk.isDirectory directory)
    (notUp : name ≠ "..") (isFile : (disk.file? (directory ++ [name])).isSome) :
    disk.find? (path.child name) = some (directory ++ [name]) := by
  have walked := (Option.filter_eq_some_iff.mp found).1
  have originEq : disk.origin (path.child name) = disk.origin path := rfl
  rw [find?, originEq, Path.child, walkFrom?_append, walked]
  simp [walkFrom?, isDirectory, notUp, Option.filter, holds, isFile]

/-- The names in a directory are those of files. -/
theorem isSome_file?_of_mem_fileNames {directory : Place} {name : String}
    (isName : name ∈ disk.fileNames directory) :
    (disk.file? (directory ++ [name])).isSome := by
  obtain ⟨⟨file, content⟩, isEntry, named⟩ := List.mem_filterMap.mp isName
  dsimp only at named
  split at named
  · next inside =>
      have fileEq : directory ++ [name] = file := by
        rw [← inside]
        exact List.dropLast_append_getLast? name named
      rw [fileEq, file?, Option.isSome_iff_ne_none, ne_eq, List.lookup_eq_none_iff]
      exact fun missing => by simpa using missing _ isEntry
  · cases named

end GoMend.Disk
