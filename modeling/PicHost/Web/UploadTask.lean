import PicHost.Api.UploadResult
import PicHost.Web.ImageProcessor

/-!
# Tasks of the upload queue
-/

namespace PicHost.Web

inductive UploadStatus
  | pending
  | processing
  | uploading
  | done
  | error
deriving DecidableEq

inductive ProcessingStatus
  | processing
  | done
  | failed

structure UploadTask where
  file : File
  status : UploadStatus
  progress : ℕ
  result : Option UploadResult
  error : Option String
  storageConfigIds : Option (List Uuid)
  processingStatus : ProcessingStatus

def maxConcurrent : ℕ := 3

namespace UploadTask

def preprocessFailed (e : Thrown) (t : UploadTask) : UploadTask :=
  { t with
    status := .error
    error := some (e.message "Preprocessing failed")
    processingStatus := .failed }

def preprocessed (file : File) (t : UploadTask) : UploadTask :=
  { t with file, status := .pending, processingStatus := .done }

end UploadTask

def newTask (file : File) (storageConfigIds : Option (List Uuid)) : UploadTask where
  file := file
  status := .processing
  progress := 0
  result := none
  error := none
  storageConfigIds := storageConfigIds
  processingStatus := .processing

def rejection : Option (Except Thrown File) → Option Thrown
  | some (.error e) => some e
  | _ => none

def fulfilment : Option (Except Thrown File) → Option File
  | some (.ok file) => some file
  | _ => none

def promiseAll (outcomes : List (Option (Except Thrown File))) :
    Option (Except Thrown (List File)) :=
  match outcomes.findSome? rejection with
  | some e => some (.error e)
  | none => (outcomes.mapM fulfilment).map .ok

theorem fulfilment_eq_some {o : Option (Except Thrown File)} {file : File} :
    fulfilment o = some file ↔ o = some (.ok file) := by
  rcases o with - | (e | processed) <;> simp [fulfilment]

theorem mapM_fulfilment {outcomes : List (Option (Except Thrown File))} {files : List File} :
    outcomes.mapM fulfilment = some files ↔ outcomes = files.map fun file => some (.ok file) := by
  induction outcomes generalizing files with
  | nil => cases files <;> simp
  | cons o outcomes ih =>
    simp only [List.mapM_cons, Option.bind_eq_bind, Option.pure_def, Option.bind_eq_some_iff,
      Option.some.injEq, fulfilment_eq_some, ih]
    constructor
    · rintro ⟨file, rfl, rest, rfl, rfl⟩
      rfl
    · intro h
      cases files with
      | nil => cases h
      | cons file rest =>
        obtain ⟨rfl, rfl⟩ := List.cons.inj h
        exact ⟨file, rfl, rest, rfl, rfl⟩

theorem promiseAll_error {outcomes : List (Option (Except Thrown File))} {e : Thrown}
    (h : promiseAll outcomes = some (.error e)) : some (.error e) ∈ outcomes := by
  unfold promiseAll at h
  split at h
  · rename_i e' hfind
    cases h
    obtain ⟨o, ho, hrej⟩ := List.exists_of_findSome?_eq_some hfind
    unfold rejection at hrej
    split at hrej
    · cases hrej
      exact ho
    · cases hrej
  · cases hm : outcomes.mapM fulfilment with
    | none =>
      rw [hm] at h
      cases h
    | some files =>
      rw [hm] at h
      cases h

theorem promiseAll_ok {outcomes : List (Option (Except Thrown File))} {files : List File}
    (h : promiseAll outcomes = some (.ok files)) :
    outcomes = files.map fun file => some (.ok file) := by
  unfold promiseAll at h
  split at h
  · cases h
  · cases hm : outcomes.mapM fulfilment with
    | none =>
      rw [hm] at h
      cases h
    | some files' =>
      rw [hm] at h
      cases h
      exact mapM_fulfilment.mp hm

/-- It is fulfilled once every promise is. -/
theorem promiseAll_of_fulfilled {outcomes : List (Option (Except Thrown File))}
    (h : ∀ o ∈ outcomes, ∃ file, o = some (.ok file)) :
    ∃ files, promiseAll outcomes = some (.ok files) ∧ files.length = outcomes.length := by
  choose! file hfile using h
  have hmap : outcomes = (outcomes.map file).map fun file => some (.ok file) := by
    rw [List.map_map]
    exact (List.map_id outcomes).symm.trans (List.map_congr_left hfile)
  have hnone : outcomes.findSome? rejection = none := by
    rw [List.findSome?_eq_none_iff]
    intro o ho
    rw [hfile o ho]
    rfl
  refine ⟨outcomes.map file, ?_, List.length_map _⟩
  rw [promiseAll, hnone, mapM_fulfilment.mpr hmap]
  rfl

end PicHost.Web
