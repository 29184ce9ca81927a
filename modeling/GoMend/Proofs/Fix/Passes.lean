import GoMend.Fix.Run
import Mathlib

/-!
# The passes of a run

Every pass works on the files that the one before it left.  A run makes passes until the checker
finds nothing, a check fails or the passes are used up, and it does not ask the checker again.
-/

namespace GoMend

namespace Run

section Passes

variable (checker : Checker) (registry : FixerRegistry) (set : FileSet) (files : List File)

/-- The files after some passes. -/
def filesAfter : Nat → Except CheckError (List File)
  | 0 => .ok files
  | count + 1 => do
      let before ← filesAfter count
      let result ← runPass checker registry set count before
      return result.files

/-- What the checker says in the pass after some passes. -/
def answerAfter (count : Nat) : Except CheckError (List Diagnostic) := do
  let before ← filesAfter checker registry set files count
  checker.check count before

/-- The result of the pass after some passes. -/
def resultAfter (count : Nat) : Except CheckError PassResult := do
  let before ← filesAfter checker registry set files count
  runPass checker registry set count before

/-- The checker finds something in each of the first passes. -/
def FindsSomething (count : Nat) : Prop :=
  ∀ made < count, ∃ first others,
    answerAfter checker registry set files made = .ok (first :: others)

/-- The pass after so many passes is the first one in which the checker finds nothing. -/
def FirstClean (made : Nat) : Prop :=
  FindsSomething checker registry set files made ∧
    answerAfter checker registry set files made = .ok []

/-- What is logged about some passes. -/
def passLog (tries : Nat) (results : List PassResult) : Log :=
  (results.zipIdx 1).flatMap fun (result, attempt) => logPass attempt tries result

/-- A run makes so many passes: it logs each of them, then says how it ends, and does not depend on
what the checker would have said later. -/
structure MakesPasses (run : Run) (count : Nat) : Prop where
  logged : ∃ results closing, results.length = count ∧
    (∀ made (inside : made < results.length),
      resultAfter checker registry set files made = .ok results[made]) ∧
    run.log = passLog run.tries results ++ [closing]
  asked : ∀ other : Checker, other.name = checker.name →
    (∀ call < count, other.check call = checker.check call) →
    quickFix other registry set run.tries files = .ok run

end Passes

variable {checker : Checker} {registry : FixerRegistry} {set : FileSet} {files before : List File}
  {tries made count : Nat} {results : List PassResult}

/-! ### One pass -/

theorem runPass_of_check (registry : FixerRegistry) (set : FileSet) {call : Nat}
    {diagnostics : List Diagnostic}
    (answer : checker.check call before = .ok diagnostics) :
    ∃ result, runPass checker registry set call before = .ok result ∧
      result.foundError = !diagnostics.isEmpty ∧
      result.files = (mendAll registry set before diagnostics).files := by
  rw [runPass, answer]
  exact ⟨_, rfl, rfl, rfl⟩

/-- A pass whose check finds nothing changes nothing. -/
theorem runPass_of_clean (registry : FixerRegistry) (set : FileSet) {call : Nat}
    (answer : checker.check call before = .ok []) :
    ∃ result, runPass checker registry set call before = .ok result ∧
      result.foundError = false ∧ result.files = before := by
  obtain ⟨result, ran, foundError, filesEq⟩ :=
    runPass_of_check registry set answer
  exact ⟨result, ran, foundError, filesEq⟩

theorem check_of_answerAfter {answer : Except CheckError (List Diagnostic)}
    (reached : filesAfter checker registry set files made = .ok before)
    (answered : answerAfter checker registry set files made = answer) :
    checker.check made before = answer := by
  rwa [answerAfter, reached] at answered

theorem resultAfter_of_reached
    (reached : filesAfter checker registry set files made = .ok before) :
    resultAfter checker registry set files made = runPass checker registry set made before := by
  rw [resultAfter, reached]
  rfl

theorem reached_of_resultAfter {result : PassResult}
    (isResult : resultAfter checker registry set files made = .ok result) :
    ∃ before, filesAfter checker registry set files made = .ok before ∧
      runPass checker registry set made before = .ok result := by
  rw [resultAfter] at isResult
  cases reached : filesAfter checker registry set files made with
  | error error => rw [reached] at isResult; cases isResult
  | ok before => exact ⟨before, rfl, by rwa [reached] at isResult⟩

theorem filesAfter_succ {result : PassResult}
    (isResult : resultAfter checker registry set files made = .ok result) :
    filesAfter checker registry set files (made + 1) = .ok result.files := by
  have unfolded : filesAfter checker registry set files (made + 1) =
      (resultAfter checker registry set files made).map (·.files) := by
    rw [filesAfter, resultAfter]
    cases filesAfter checker registry set files made with
    | error error => rfl
    | ok before =>
        show (runPass checker registry set made before >>= fun result => .ok result.files) =
          (runPass checker registry set made before).map (·.files)
        cases runPass checker registry set made before <;> rfl
  rw [unfolded, isResult]
  rfl

/-! ### Passes that find something -/

/-- The results of passes each of which found something. -/
def Found (checker : Checker) (registry : FixerRegistry) (set : FileSet) (files : List File)
    (results : List PassResult) : Prop :=
  ∀ made (inside : made < results.length),
    resultAfter checker registry set files made = .ok results[made] ∧ results[made].foundError

theorem Found.append {result : PassResult} (found : Found checker registry set files results)
    (isResult : resultAfter checker registry set files results.length = .ok result)
    (foundError : result.foundError) : Found checker registry set files (results ++ [result]) := by
  intro made inside
  by_cases earlier : made < results.length
  · simpa [List.getElem_append_left earlier] using found made earlier
  · obtain rfl : made = results.length := by
      simp only [List.length_append, List.length_singleton] at inside
      omega
    simpa using ⟨isResult, foundError⟩

theorem Found.of_append {result : PassResult}
    (found : Found checker registry set files (results ++ [result])) :
    Found checker registry set files results ∧
      resultAfter checker registry set files results.length = .ok result ∧ result.foundError := by
  refine ⟨fun made inside => ?_, ?_⟩
  · have both := found made (by simp; omega)
    rwa [List.getElem_append_left inside] at both
  · simpa using found results.length (by simp)

theorem exists_found (finds : FindsSomething checker registry set files count) :
    ∃ results before, results.length = count ∧ Found checker registry set files results ∧
      filesAfter checker registry set files count = .ok before := by
  induction count with
  | zero => exact ⟨[], files, rfl, fun made inside => by simp at inside, rfl⟩
  | succ count ih =>
      obtain ⟨results, before, lengthEq, found, reached⟩ :=
        ih fun made inside => finds made (by omega)
      obtain ⟨first, others, answered⟩ := finds count (by omega)
      obtain ⟨result, ran, foundError, -⟩ := runPass_of_check registry set
        (check_of_answerAfter reached answered)
      have isResult := (resultAfter_of_reached reached).trans ran
      refine ⟨results ++ [result], result.files, by simp [lengthEq], ?_, filesAfter_succ isResult⟩
      exact found.append (lengthEq ▸ isResult) foundError

@[simp]
theorem passLog_append (tries : Nat) (results : List PassResult) (result : PassResult) :
    passLog tries (results ++ [result]) =
      passLog tries results ++ logPass (results.length + 1) tries result := by
  simp [passLog, List.zipIdx_append, Nat.add_comm]

theorem after_after (first second : Log) (run : Run) :
    (run.after second).after first = run.after (first ++ second) := by
  simp [after]

/-- What the last pass left. -/
def leftBy (results : List PassResult) : List Problem :=
  (results.getLast?.map (·.unhandled)).getD []

/-- Passes that find something are followed by those that remain. -/
theorem passes_of_found (found : Found checker registry set files results)
    (reached : filesAfter checker registry set files results.length = .ok before)
    (remaining : Nat) :
    passes checker registry set tries (results.length + remaining) 0 files [] =
      (passes checker registry set tries remaining results.length before (leftBy results)).after
        (passLog tries results) := by
  induction results using List.reverseRecOn generalizing before remaining with
  | nil =>
      obtain rfl : files = before := Except.ok.inj reached
      simp [leftBy, passLog, after]
  | append_singleton results result ih =>
      obtain ⟨found, isResult, foundError⟩ := found.of_append
      obtain ⟨between, reachedBetween, ran⟩ := reached_of_resultAfter isResult
      simp only [List.length_append, List.length_singleton] at reached ⊢
      obtain rfl := Except.ok.inj ((filesAfter_succ isResult).symm.trans reached)
      rw [show results.length + 1 + remaining = results.length + (remaining + 1) by omega,
        ih found reachedBetween, passes, ran]
      simp [foundError, after_after, leftBy]

/-! ### How a run ends -/

variable {allowed : Int} {result : PassResult}

theorem quickFix_of_pos (positive : 1 ≤ allowed) :
    quickFix checker registry set allowed files =
      .ok (passes checker registry set allowed.toNat allowed.toNat 0 files []) := by
  rw [quickFix, if_neg (by omega)]

/-- A run ends with the first pass that finds nothing. -/
theorem quickFix_of_clean (found : Found checker registry set files results)
    (isResult : resultAfter checker registry set files results.length = .ok result)
    (clean : result.foundError = false) (inside : (results.length : Int) < allowed) :
    quickFix checker registry set allowed files =
      .ok
        { tries := allowed.toNat
          files := result.files
          ending := .clean
          log := passLog allowed.toNat (results ++ [result]) ++
            [.info s!"quick fix finished after {results.length + 1} pass(es)"] } := by
  obtain ⟨before, reached, ran⟩ := reached_of_resultAfter isResult
  obtain ⟨remaining, enough⟩ : ∃ remaining, allowed.toNat = results.length + (remaining + 1) :=
    ⟨allowed.toNat - results.length - 1, by omega⟩
  rw [quickFix_of_pos (by omega)]
  conv_lhs => arg 1; arg 5; rw [enough]
  rw [passes_of_found found reached, passes, ran]
  simp [clean, after]

/-- A run whose passes all find something ends when they are used up. -/
theorem quickFix_of_found (found : Found checker registry set files results)
    (reached : filesAfter checker registry set files results.length = .ok before)
    (used : (results.length : Int) = allowed) (positive : 1 ≤ allowed) :
    quickFix checker registry set allowed files =
      .ok ((outOfTries allowed.toNat before (leftBy results)).after
        (passLog allowed.toNat results)) := by
  have enough : allowed.toNat = results.length + 0 := by omega
  rw [quickFix_of_pos positive]
  conv_lhs => arg 1; arg 5; rw [enough]
  rw [passes_of_found found reached, passes]

/-- A run ends with a check that cannot be finished. -/
theorem quickFix_of_failed {error : CheckError} (found : Found checker registry set files results)
    (reached : filesAfter checker registry set files results.length = .ok before)
    (failed : checker.check results.length before = .error error)
    (inside : (results.length : Int) < allowed) :
    quickFix checker registry set allowed files =
      .ok
        { tries := allowed.toNat
          files := before
          ending := .failed error
          log := passLog allowed.toNat results } := by
  obtain ⟨remaining, enough⟩ : ∃ remaining, allowed.toNat = results.length + (remaining + 1) :=
    ⟨allowed.toNat - results.length - 1, by omega⟩
  have ran : runPass checker registry set results.length before = .error error := by
    rw [runPass, failed]
    rfl
  rw [quickFix_of_pos (by omega)]
  conv_lhs => arg 1; arg 5; rw [enough]
  rw [passes_of_found found reached, passes, ran]
  simp [after]

/-! ### Other answers later on -/

/-- Two checkers that say the same in the first passes. -/
structure Agree (other checker : Checker) (count : Nat) : Prop where
  name_eq : other.name = checker.name
  check_eq : ∀ call < count, other.check call = checker.check call

section Agree

variable {other : Checker}

theorem Agree.runPass_eq (agree : Agree other checker count) (inside : made < count) :
    runPass other registry set made before = runPass checker registry set made before := by
  rw [runPass, runPass, agree.check_eq made inside]
  simp only [Checker.logAnswer, agree.name_eq]

theorem Agree.filesAfter_eq (agree : Agree other checker count) (inside : made ≤ count) :
    filesAfter other registry set files made = filesAfter checker registry set files made := by
  induction made with
  | zero => rfl
  | succ made ih =>
      rw [filesAfter, filesAfter, ih (by omega)]
      simp only [agree.runPass_eq (show made < count by omega)]

theorem Agree.resultAfter_eq (agree : Agree other checker count) (inside : made < count) :
    resultAfter other registry set files made = resultAfter checker registry set files made := by
  rw [resultAfter, resultAfter, agree.filesAfter_eq (Nat.le_of_lt inside)]
  simp only [agree.runPass_eq inside]

theorem Agree.found (agree : Agree other checker count) (inside : results.length ≤ count)
    (found : Found checker registry set files results) :
    Found other registry set files results := by
  intro made isMade
  rw [agree.resultAfter_eq (by omega)]
  exact found made isMade

end Agree

/-! ### Runs -/

theorem FirstClean.exists_result (first : FirstClean checker registry set files made) :
    ∃ results last, results.length = made ∧ Found checker registry set files results ∧
      resultAfter checker registry set files made = .ok last ∧ last.foundError = false ∧
      filesAfter checker registry set files made = .ok last.files := by
  obtain ⟨finds, answered⟩ := first
  obtain ⟨results, before, lengthEq, found, reached⟩ := exists_found finds
  obtain ⟨last, ran, clean, filesEq⟩ := runPass_of_clean registry set
    (check_of_answerAfter reached answered)
  exact ⟨results, last, lengthEq, found, (resultAfter_of_reached reached).trans ran, clean,
    filesEq ▸ reached⟩

/-- A run in which the checker finds nothing at some time stops there. -/
theorem FirstClean.exists_run (first : FirstClean checker registry set files made)
    (inside : (made : Int) < allowed) :
    ∃ run, quickFix checker registry set allowed files = .ok run ∧ run.tries = allowed ∧
      MakesPasses checker registry set files run (made + 1) ∧ run.ending = .clean ∧
      filesAfter checker registry set files made = .ok run.files := by
  obtain ⟨results, last, rfl, found, isResult, clean, reached⟩ := first.exists_result
  have castTries : ((allowed.toNat : Nat) : Int) = allowed := by omega
  refine ⟨_, quickFix_of_clean found isResult clean inside, castTries, ⟨?_, ?_⟩, rfl, reached⟩
  · refine ⟨results ++ [last], _, by simp, fun index isIndex => ?_, rfl⟩
    by_cases earlier : index < results.length
    · simpa [List.getElem_append_left earlier] using (found index earlier).1
    · obtain rfl : index = results.length := by
        simp only [List.length_append, List.length_singleton] at isIndex
        omega
      simpa using isResult
  · intro other nameEq checkEq
    have agree : Agree other checker (results.length + 1) := ⟨nameEq, checkEq⟩
    simp only [castTries]
    exact quickFix_of_clean (agree.found (by omega) found)
      ((agree.resultAfter_eq (by omega)).trans isResult) clean inside

/-- A run in which the checker always finds something uses all passes, and fails when the last one
leaves problems. -/
theorem FindsSomething.exists_run (positive : 1 ≤ allowed)
    (finds : FindsSomething checker registry set files allowed.toNat) :
    ∃ run last, quickFix checker registry set allowed files = .ok run ∧ run.tries = allowed ∧
      MakesPasses checker registry set files run allowed.toNat ∧
      resultAfter checker registry set files (allowed.toNat - 1) = .ok last ∧
      run.files = last.files ∧
      run.ending = if last.unhandled = [] then .exhausted else .gaveUp last.unhandled := by
  obtain ⟨results, after, lengthEq, found, reached⟩ := exists_found finds
  have castTries : ((allowed.toNat : Nat) : Int) = allowed := by omega
  cases results using List.reverseRecOn with
  | nil => simp at lengthEq; omega
  | append_singleton results last =>
      obtain ⟨-, isResult, -⟩ := found.of_append
      have lastIndex : allowed.toNat - 1 = results.length := by simp at lengthEq; omega
      have reachedEnd : filesAfter checker registry set files (results ++ [last]).length =
          .ok after := lengthEq ▸ reached
      have used : ((results ++ [last]).length : Int) = allowed := by omega
      have afterEq : last.files = after := by
        have reachedLast := filesAfter_succ isResult
        rw [List.length_append, List.length_singleton] at reachedEnd
        exact Except.ok.inj (reachedLast.symm.trans reachedEnd)
      have left : leftBy (results ++ [last]) = last.unhandled := by simp [leftBy]
      have ends := quickFix_of_found found reachedEnd used positive
      refine ⟨_, last, ends, ?_, ⟨?_, ?_⟩, lastIndex ▸ isResult, ?_, ?_⟩
      · cases unhandled : last.unhandled <;> simp [outOfTries, left, unhandled, Run.after, castTries]
      · refine ⟨results ++ [last], ?_⟩
        cases unhandled : last.unhandled <;>
          simp only [outOfTries, left, unhandled, Run.after] <;>
          exact ⟨_, lengthEq, fun index isIndex => (found index isIndex).1, rfl⟩
      · intro other nameEq checkEq
        have agree : Agree other checker allowed.toNat := ⟨nameEq, checkEq⟩
        have sameTries : (((outOfTries allowed.toNat after (leftBy (results ++ [last]))).after
            (passLog allowed.toNat (results ++ [last]))).tries : Int) = allowed := by
          cases unhandled : last.unhandled <;>
            simp [outOfTries, left, unhandled, Run.after, castTries]
        rw [sameTries]
        exact quickFix_of_found (agree.found (by omega) found)
          ((agree.filesAfter_eq (by omega)).trans reachedEnd) used positive
      · cases unhandled : last.unhandled <;> simp [outOfTries, left, unhandled, Run.after, afterEq]
      · cases unhandled : last.unhandled <;> simp [outOfTries, left, unhandled, Run.after]

/-- When the checker says always the same about the same files, a run over files in which it finds
nothing makes one pass and changes nothing. -/
theorem exists_run_again {again : Int} (positive : 1 ≤ again)
    (steady : ∀ call other files, checker.check call files = checker.check other files)
    (clean : checker.check made files = .ok []) :
    ∃ run, quickFix checker registry set again files = .ok run ∧ run.ending = .clean ∧
      run.files = files ∧ MakesPasses checker registry set files run 1 := by
  have first : FirstClean checker registry set files 0 :=
    ⟨fun made inside => absurd inside (by omega), (steady 0 made files).trans clean⟩
  have inside : ((0 : Nat) : Int) < again := by omega
  obtain ⟨run, isRun, -, passes, ending, filesEq⟩ := first.exists_run inside
  exact ⟨run, isRun, ending, (Except.ok.inj filesEq).symm, passes⟩

/-- A run ends with the first pass in which the checker finds nothing, and leaves the files alone in
it; the next run makes one pass and changes nothing, if the checker says always the same about the
same files.  A run that finds something in all its passes fails with exactly what the last one left,
if that is anything.  A run that may make no pass is refused. -/
theorem quickFix_outcome (checker : Checker) (registry : FixerRegistry) (set : FileSet)
    (files : List File) (allowed : Int) :
    (allowed < 1 → quickFix checker registry set allowed files = .error .triesTooSmall) ∧
    (1 ≤ allowed →
      (∀ made, FirstClean checker registry set files made →
        ∃ run, quickFix checker registry set allowed files = .ok run ∧ run.tries = allowed ∧
          MakesPasses checker registry set files run (min (made + 1) allowed.toNat) ∧
          (made < allowed → run.ending = .clean ∧
            filesAfter checker registry set files made = .ok run.files ∧
            ((∀ call other files, checker.check call files = checker.check other files) →
              ∀ again, 1 ≤ again →
                ∃ second, quickFix checker registry set again run.files = .ok second ∧
                  second.ending = .clean ∧ second.files = run.files ∧
                  MakesPasses checker registry set run.files second 1))) ∧
      (FindsSomething checker registry set files allowed.toNat →
        ∃ run last, quickFix checker registry set allowed files = .ok run ∧ run.tries = allowed ∧
          MakesPasses checker registry set files run allowed.toNat ∧
          resultAfter checker registry set files (allowed.toNat - 1) = .ok last ∧
          run.files = last.files ∧
          run.ending = if last.unhandled = [] then .exhausted else .gaveUp last.unhandled) ∧
      (∀ (made : Nat) error, made < allowed → FindsSomething checker registry set files made →
        answerAfter checker registry set files made = .error error →
        ∃ run, quickFix checker registry set allowed files = .ok run ∧
          run.ending = .failed error ∧
          filesAfter checker registry set files made = .ok run.files)) := by
  refine ⟨fun tooSmall => if_pos tooSmall, fun positive => ⟨?_, ?_, ?_⟩⟩
  · intro made first
    by_cases inside : (made : Int) < allowed
    · obtain ⟨run, isRun, triesEq, passes, ending, reached⟩ := first.exists_run inside
      refine ⟨run, isRun, triesEq, ?_, fun _ => ⟨ending, reached, fun steady again isPos => ?_⟩⟩
      · rwa [Nat.min_eq_left (by omega)]
      · exact exists_run_again isPos steady (check_of_answerAfter reached first.2)
    · have finds : FindsSomething checker registry set files allowed.toNat :=
        fun earlier isEarlier => first.1 earlier (by omega)
      obtain ⟨run, last, isRun, triesEq, passes, -⟩ := finds.exists_run positive
      refine ⟨run, isRun, triesEq, ?_, fun isInside => absurd isInside inside⟩
      rwa [Nat.min_eq_right (by omega)]
  · exact fun finds => finds.exists_run positive
  · intro made error inside finds answered
    obtain ⟨results, before, rfl, found, reached⟩ := exists_found finds
    exact ⟨_, quickFix_of_failed found reached (check_of_answerAfter reached answered) inside, rfl,
      reached⟩

/-- A checker that speaks once about files that there are not makes two passes of three. -/
theorem quickFix_outcome_scripted :
    let checker := Checker.scripted [[⟨"x declared but not used", 4⟩]]
    ∃ run, quickFix checker .standard {} 3 [] = .ok run ∧
      MakesPasses checker .standard {} [] run 2 ∧ run.ending = .clean := by
  have first : FirstClean (Checker.scripted [[⟨"x declared but not used", 4⟩]]) .standard {} [] 1 := by
    refine ⟨fun made inside => ?_, by cbv⟩
    obtain rfl : made = 0 := by omega
    exact ⟨_, _, by cbv⟩
  obtain ⟨-, allowed⟩ := quickFix_outcome (.scripted [[⟨"x declared but not used", 4⟩]]) .standard
    {} [] 3
  obtain ⟨run, isRun, -, passes, ends⟩ := (allowed (by decide)).1 1 first
  exact ⟨run, isRun, passes, (ends (by decide)).1⟩

end Run

end GoMend
