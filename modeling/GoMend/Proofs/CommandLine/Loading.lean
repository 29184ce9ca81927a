import GoMend.CommandLine.Program
import GoMend.Proofs.Fix.Session

/-!
# Loading files

Files are read and parsed one after the other, each behind those before it.  Nothing is said on the
way, and the first file that cannot be read or parsed ends the run.
-/

namespace GoMend.CommandLine

/-! ### Steps -/

section

variable {α β : Type}

/-- A step that fails gives nothing. -/
theorem fail_ne_pure (message : String) (value : α) : (fail message : Step α) ≠ pure value := by
  intro same
  have outcomes := congrArg (fun step : Step α => (step.run.run []).1) same
  cases outcomes

theorem pure_eq_pure {value other : α} : (pure value : Step α) = pure other ↔ value = other := by
  refine ⟨fun same => ?_, congrArg pure⟩
  have outcomes := congrArg (fun step : Step α => (step.run.run []).1) same
  exact Except.ok.inj outcomes

theorem fail_bind (message : String) (next : α → Step β) :
    (fail message : Step α) >>= next = fail message :=
  rfl

end

/-! ### Files -/

/-- A file is read, or ends the run. -/
theorem readText_cases (disk : Disk) (path : Path) :
    (∃ text, readText disk path = pure text) ∨ ∃ message, readText disk path = fail message := by
  unfold readText
  split
  · exact .inr ⟨_, rfl⟩
  · exact .inl ⟨_, rfl⟩

section

variable {disk : Disk} {set final : FileSet} {path : Path} {rest : List Path}
  {items : List LoadedFile}

/-- The files behind one that is read and parsed are loaded after it. -/
theorem loadFiles_cons_of_parsed {source : String} {file : File}
    (isText : readText disk path = pure source)
    (parsed : (File.parse set path.render source).2 = .ok file) :
    loadFiles disk set (path :: rest) =
      loadFiles disk (set.add path.render source).1 rest >>= fun loaded =>
        pure (loaded.1, { path, source, file } :: loaded.2) := by
  have parseEq : File.parse set path.render source = ((set.add path.render source).1, .ok file) :=
    Prod.ext rfl parsed
  rw [loadFiles, isText, pure_bind, parseEq]

/-- The first file is read and parsed, or ends the run. -/
theorem loadFiles_cons_cases (disk : Disk) (set : FileSet) (path : Path) (rest : List Path) :
    (∃ source file, readText disk path = pure source ∧
        (File.parse set path.render source).2 = .ok file) ∨
      ∃ message, loadFiles disk set (path :: rest) = fail message := by
  rcases readText_cases disk path with ⟨source, isText⟩ | ⟨message, failed⟩
  · cases parsed : (File.parse set path.render source).2 with
    | error error =>
        have parseEq : File.parse set path.render source =
            ((set.add path.render source).1, .error error) := Prod.ext rfl parsed
        refine .inr ⟨error.message, ?_⟩
        rw [loadFiles, isText, pure_bind, parseEq]
    | ok file => exact .inl ⟨source, file, isText, parsed⟩
  · refine .inr ⟨message, ?_⟩
    rw [loadFiles, failed, fail_bind]

/-- Files are loaded, or one of them ends the run. -/
theorem loadFiles_cases (disk : Disk) (set : FileSet) (paths : List Path) :
    (∃ result, loadFiles disk set paths = pure result) ∨
      ∃ message, loadFiles disk set paths = fail message := by
  induction paths generalizing set with
  | nil => exact .inl ⟨_, rfl⟩
  | cons path rest ih =>
      rcases loadFiles_cons_cases disk set path rest with ⟨source, file, isText, parsed⟩ | failed
      · rw [loadFiles_cons_of_parsed isText parsed]
        rcases ih (set.add path.render source).1 with ⟨loaded, isLoaded⟩ | ⟨message, failed⟩
        · rw [isLoaded, pure_bind]
          exact .inl ⟨_, rfl⟩
        · rw [failed, fail_bind]
          exact .inr ⟨_, rfl⟩
      · exact .inr failed

theorem loadFiles_nil_eq_pure :
    loadFiles disk set [] = pure (final, items) ↔ set = final ∧ [] = items :=
  pure_eq_pure.trans Prod.mk_inj

/-- Files are loaded if the first one is, and then the others. -/
theorem loadFiles_cons_eq_pure :
    loadFiles disk set (path :: rest) = pure (final, items) ↔
      ∃ source file others, readText disk path = pure source ∧
        (File.parse set path.render source).2 = .ok file ∧
        loadFiles disk (set.add path.render source).1 rest = pure (final, others) ∧
        items = { path, source, file } :: others := by
  constructor
  · intro loaded
    rcases loadFiles_cons_cases disk set path rest with
      ⟨source, file, isText, parsed⟩ | ⟨message, failed⟩
    · rw [loadFiles_cons_of_parsed isText parsed] at loaded
      rcases loadFiles_cases disk (set.add path.render source).1 rest with
        ⟨⟨last, others⟩, isLoaded⟩ | ⟨message, failed⟩
      · rw [isLoaded, pure_bind] at loaded
        obtain ⟨rfl, rfl⟩ := Prod.mk.inj (pure_eq_pure.mp loaded)
        exact ⟨source, file, others, isText, parsed, isLoaded, rfl⟩
      · rw [failed, fail_bind] at loaded
        exact absurd loaded (fail_ne_pure _ _)
    · rw [failed] at loaded
      exact absurd loaded (fail_ne_pure _ _)
  · rintro ⟨source, file, others, isText, parsed, isLoaded, rfl⟩
    rw [loadFiles_cons_of_parsed isText parsed, isLoaded, pure_bind]

end

end GoMend.CommandLine
