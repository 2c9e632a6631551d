import CirText.Command.Run
import CirText.Proofs.Command.Workers

/-!
# Checking files does not depend on the workers

Checking gives one outcome for each file in the order in which the files are given, whichever worker
reads which file and in whatever order. So it fails just if a file cannot be read or has an error.
-/

namespace CirText.Command

/-- Whether a file cannot be read, or has an error. -/
def Faulty (read : FileReader) (invocation : Invocation) (path : String) : Prop :=
  (∃ error, read path = .error error) ∨
    ∃ source, read path = .ok source ∧ (parse source (invocation.options path)).hasErrors = true

/-- What becomes of a file that is faulty. -/
theorem faulty_iff {read : FileReader} {invocation : Invocation} {path : String} :
    Faulty read invocation path ↔ (∃ error, readAndParse read invocation path = .error error) ∨
      ∃ file, readAndParse read invocation path = .ok file ∧ file.parsed.hasErrors = true := by
  cases outcome : read path with
  | error error =>
    have failed : readAndParse read invocation path = .error error := by
      rw [readAndParse, outcome]
      rfl
    simp [Faulty, failed, outcome]
  | ok source =>
    have given : readAndParse read invocation path =
        .ok ⟨path, source, parse source (invocation.options path)⟩ := by
      rw [readAndParse, outcome]
      rfl
    simp [Faulty, given, outcome]

/-- A report on files tells a failure if one of them cannot be read or has an error. -/
theorem failed_report_iff {format : Format}
    {outcomes : List (String × Except ReadError ParsedFile)} :
    (report format outcomes).failed = true ↔
      ∃ outcome ∈ outcomes, (∃ error, outcome.2 = .error error) ∨
        ∃ file, outcome.2 = .ok file ∧ file.parsed.hasErrors = true := by
  have same : (report format outcomes).failed = (report .human outcomes).failed := by
    cases format <;> rfl
  rw [same, report]
  simp only [Bool.or_eq_true, Bool.not_eq_true', List.isEmpty_eq_false_iff_exists_mem,
    List.any_eq_true, List.mem_filterMap]
  constructor
  · rintro (⟨line, ⟨path, outcome⟩, listed, shown⟩ | ⟨file,
      ⟨⟨path, outcome⟩, listed, kept⟩, faulty⟩)
    · cases outcome with
      | error error => exact ⟨_, listed, .inl ⟨error, rfl⟩⟩
      | ok file => cases shown
    · cases outcome with
      | error error => cases kept
      | ok found =>
        cases kept
        exact ⟨_, listed, .inr ⟨_, rfl, faulty⟩⟩
  · rintro ⟨⟨path, outcome⟩, listed, ⟨error, rfl⟩ | ⟨file, rfl, faulty⟩⟩
    · exact .inl ⟨_, _, listed, rfl⟩
    · exact .inr ⟨file, ⟨_, listed, rfl⟩, faulty⟩

/-- The outcomes with their paths, whatever the turns of the workers are. -/
theorem zip_performAll {workers : Nat} (read : FileReader) (invocation : Invocation)
    (files : List String) (turns : List (Fin workers)) :
    files.zip (performAll (readAndParse read invocation) files turns) =
      files.map fun path => (path, readAndParse read invocation path) := by
  have paired : (files.map id).zip (files.map (readAndParse read invocation)) =
      files.map fun path => (path, readAndParse read invocation path) := List.zip_map'
  rwa [List.map_id, ← performAll_eq_map _ _ turns] at paired

/-- Checking fails just if a file cannot be read or has an error. -/
theorem failed_check_iff {workers : Nat} (read : FileReader) (invocation : Invocation)
    (files : List String) (turns : List (Fin workers)) :
    (check read invocation files turns).failed = true ↔
      ∃ path ∈ files, Faulty read invocation path := by
  rw [check, zip_performAll, failed_report_iff]
  simp only [List.mem_map, exists_exists_and_eq_and, faulty_iff]

/-- However many files are checked at a time, however many workers could be started and however they
take turns, there is one outcome for each file, that of the file, in the order of the files; so the
exit status tells just whether a file cannot be read or has an error, and it does not depend on how
many workers are asked for. -/
theorem check_anyTurns {workers : Nat} (read : FileReader) (invocation : Invocation)
    (files : List String) (turns : List (Fin workers)) :
    performAll (readAndParse read invocation) files turns =
      files.map (readAndParse read invocation) ∧
      ((check read invocation files turns).exitStatus = 1 ↔
        ∃ path ∈ files, Faulty read invocation path) ∧
      ∀ jobs, run read { invocation with task := .check files jobs } =
        check read invocation files turns := by
  refine ⟨performAll_eq_map _ _ _, ?_, ?_⟩
  · rw [← failed_check_iff read invocation files turns, Outcome.exitStatus]
    split <;> simp_all
  · intro jobs
    rw [check, zip_performAll]
    exact congrArg (report invocation.format) (zip_performAll read invocation files _)

end CirText.Command
