import PicHost.Api.Categories
import PicHost.Api.State
import PicHost.Core.Uuid

/-!
# The parts of an upload

`extract_upload_parts` over a multipart body whose reading can fail between fields or inside one.
The reader takes what has arrived before it answers, so a failure may show at any of its calls, up
to the place in the body where it is.
-/

namespace PicHost.UploadParts

abbrev Bytes := List UInt8

structure FieldHead where
  name : Option String
  fileName : Option String
deriving DecidableEq

structure Field where
  head : FieldHead
  data : Bytes
deriving DecidableEq

/-- How a body ends behind its whole fields: properly, between fields or inside one. -/
inductive Ending where
  | complete
  | broken
  | cut (head : FieldHead)

structure Submission where
  fields : List Field
  ending : Ending

/-- What the reader answers when it is asked for fields in turn: none is left, none can be read, or
a field, with what reading it to its end gives and the answers behind it. -/
inductive Answers where
  | none
  | failed (reason : String)
  | field (head : FieldHead) (content : Except String Bytes) (rest : Answers)

/-- What a reader may answer. The fields come in their order, each with its own content. A whole
body is read to its end; in any other a read fails, the one at its break or one before it. -/
inductive Answering : Submission → Answers → Prop
  | done : Answering ⟨[], .complete⟩ .none
  | field {f : Field} {rest : List Field} {ending : Ending} {answers : Answers}
      (h : Answering ⟨rest, ending⟩ answers) :
      Answering ⟨f :: rest, ending⟩ (.field f.head (.ok f.data) answers)
  | failed {fields : List Field} {ending : Ending} (h : ending ≠ .complete) (reason : String) :
      Answering ⟨fields, ending⟩ (.failed reason)
  | failedIn {f : Field} {rest : List Field} {ending : Ending} (h : ending ≠ .complete)
      (reason next : String) :
      Answering ⟨f :: rest, ending⟩ (.field f.head (.error reason) (.failed next))
  | cut (head : FieldHead) (reason next : String) :
      Answering ⟨[], .cut head⟩ (.field head (.error reason) (.failed next))

/-- The reader of multipart bodies, with the times at which their bytes arrive. -/
structure Multer where
  answers : Submission → Answers
  lawful : ∀ s, Answering s (answers s)

structure Parts where
  fileData : Option Bytes := none
  fileName : String := "file"
  storageConfigIds : Option (List Uuid) := none

-- The text of a field's bytes in the field's character set.
variable (decode : FieldHead → Bytes → String)

/-- Some identifiers separated by commas, unless one does not read. -/
def parseIds (text : String) : Option (List Uuid) :=
  ((text.toList.splitOn ',').map String.ofList).mapM fun s => Uuid.parseStr (Categories.trim s)

def parseUploadField (head : FieldHead) (content : Except String Bytes) (parts : Parts) :
    Except ApiError Parts :=
  if head.name = some "file" then
    match content with
    | .error e => .error { status := 400, key := "upload.field_read_failed", args := [e] }
    | .ok data =>
      .ok { parts with fileName := head.fileName.getD "file", fileData := some data }
  else if head.name = some "storage_config_ids" then
    match content with
    | .error e => .error { status := 400, key := "upload.config_ids_read_failed", args := [e] }
    | .ok data =>
      match parseIds (decode head data) with
      | none => .error { status := 400, key := "upload.invalid_config_uuid" }
      | some ids => .ok { parts with storageConfigIds := some ids }
  -- a field of another name is not read; the next call of `next_field` skips it
  else .ok parts

/-- The loop over the fields, which ends at the first read that gives none. -/
def readFields : Answers → Parts → Except ApiError Parts
  | .field head content rest, parts => do
    let parts ← parseUploadField decode head content parts
    readFields rest parts
  -- `while let Ok(Some(field))`: the end of the body and a failed read alike
  | _, parts => .ok parts

def extractUploadParts (answers : Answers) :
    Except ApiError (Bytes × String × Option (List Uuid)) :=
  match readFields decode answers {} with
  | .error e => .error e
  | .ok parts =>
    match parts.fileData with
    | none => .error { status := 400, key := "upload.file_missing" }
    | some bytes => .ok (bytes, parts.fileName, parts.storageConfigIds)

/-! ## What the loop collects -/

def IsFile (f : Field) : Prop := f.head.name = some "file"

def IsIds (f : Field) : Prop := f.head.name = some "storage_config_ids"

instance (f : Field) : Decidable (IsFile f) := inferInstanceAs (Decidable (_ = _))

instance (f : Field) : Decidable (IsIds f) := inferInstanceAs (Decidable (_ = _))

def idsOf (f : Field) : Option (List Uuid) := parseIds (decode f.head f.data)

/-- What a field that reads leaves of the parts. -/
def absorb (parts : Parts) (f : Field) : Parts :=
  if IsFile f then { parts with fileName := f.head.fileName.getD "file", fileData := some f.data }
  else if IsIds f then { parts with storageConfigIds := idsOf decode f }
  else parts

theorem parseUploadField_ok (f : Field) (parts p : Parts) :
    parseUploadField decode f.head (.ok f.data) parts = .ok p ↔
      (IsIds f → (idsOf decode f).isSome) ∧ absorb decode parts f = p := by
  unfold parseUploadField absorb IsFile IsIds idsOf
  by_cases hfile : f.head.name = some "file"
  · simp [hfile]
  · by_cases hids : f.head.name = some "storage_config_ids"
    · simp only [hids, Option.some.injEq, String.reduceEq, if_false, if_true, forall_const]
      cases parseIds (decode f.head f.data) with
      | none => simp
      | some ids => simp
    · simp [hfile, hids]

/-- The fields that are read to their ends. -/
def Answers.fields : Answers → List Field
  | .none | .failed _ => []
  | .field head (.ok data) rest => ⟨head, data⟩ :: rest.fields
  | .field _ (.error _) rest => rest.fields

/-- No read of a field that is used fails. -/
def Answers.Unnoticed : Answers → Prop
  | .none | .failed _ => True
  | .field _ (.ok _) rest => rest.Unnoticed
  | .field head (.error _) rest =>
    (head.name ≠ some "file" ∧ head.name ≠ some "storage_config_ids") ∧ rest.Unnoticed

/-- The loop succeeds when it notices no failure and the identifiers read. -/
theorem readFields_ok (answers : Answers) (parts p : Parts) :
    readFields decode answers parts = .ok p ↔
      answers.Unnoticed ∧ (∀ f ∈ answers.fields, IsIds f → (idsOf decode f).isSome) ∧
      answers.fields.foldl (absorb decode) parts = p := by
  fun_induction Answers.fields answers generalizing parts with
  | case1 => simp [readFields, Answers.Unnoticed]
  | case2 reason => simp [readFields, Answers.Unnoticed]
  | case3 head data rest ih =>
    rw [readFields]
    simp only [Answers.Unnoticed, List.mem_cons, forall_eq_or_imp, List.foldl_cons]
    cases hparse : parseUploadField decode head (.ok data) parts with
    | error e =>
      refine iff_of_false (fun h => by cases h) fun h => ?_
      have hok := (parseUploadField_ok decode ⟨head, data⟩ parts _).mpr ⟨h.2.1.1, rfl⟩
      rw [hparse] at hok
      cases hok
    | ok q =>
      obtain ⟨hsome, rfl⟩ := (parseUploadField_ok decode ⟨head, data⟩ parts q).mp hparse
      refine (ih _).trans ?_
      rw [and_iff_right hsome]
  | case4 head reason rest ih =>
    rw [readFields, Answers.Unnoticed, parseUploadField]
    by_cases hfile : head.name = some "file"
    · rw [if_pos hfile]
      exact iff_of_false (fun h => by cases h) fun h => h.1.1.1 hfile
    · rw [if_neg hfile]
      by_cases hids : head.name = some "storage_config_ids"
      · rw [if_pos hids]
        exact iff_of_false (fun h => by cases h) fun h => h.1.1.2 hids
      · rw [if_neg hids]
        refine (ih parts).trans ?_
        exact and_congr_left fun _ => (and_iff_right ⟨hfile, hids⟩).symm

/-- The identifiers of the last field that lists some. -/
def idsListed (fields : List Field) : Option (List Uuid) :=
  (fields.reverse.find? fun f => decide (IsIds f)).bind (idsOf decode)

theorem not_isFile_of_isIds {f : Field} (h : IsIds f) : ¬ IsFile f := by
  unfold IsFile
  rw [show f.head.name = some "storage_config_ids" from h]
  decide

theorem foldl_absorb_ids (fields : List Field) :
    (fields.foldl (absorb decode) {}).storageConfigIds = idsListed decode fields := by
  unfold idsListed
  induction fields using List.reverseRecOn with
  | nil => rfl
  | append_singleton fields f ih =>
    rw [List.foldl_append, List.reverse_append, List.foldl_cons, List.foldl_nil,
      List.reverse_singleton, List.singleton_append, List.find?_cons, absorb]
    by_cases hids : IsIds f
    · simp [hids, not_isFile_of_isIds hids]
    · by_cases hfile : IsFile f
      · simp [hids, hfile, ih]
      · simp [hids, hfile, ih]

theorem foldl_absorb_fileData (fields : List Field) (parts : Parts) :
    (fields.foldl (absorb decode) parts).fileData.isSome ↔
      parts.fileData.isSome ∨ ∃ f ∈ fields, IsFile f := by
  induction fields generalizing parts with
  | nil => simp
  | cons f fields ih =>
    rw [List.foldl_cons, ih, absorb]
    by_cases hfile : IsFile f
    · simp [hfile]
    · by_cases hids : IsIds f
      · simp [hfile, hids]
      · simp [hfile, hids]

theorem extract_ok (answers : Answers) :
    (∃ r, extractUploadParts decode answers = .ok r) ↔
      answers.Unnoticed ∧ (∀ f ∈ answers.fields, IsIds f → (idsOf decode f).isSome) ∧
      ∃ f ∈ answers.fields, IsFile f := by
  have hfold := foldl_absorb_fileData decode answers.fields {}
  simp only [Option.isSome_none, Bool.false_eq_true, false_or] at hfold
  unfold extractUploadParts
  cases hread : readFields decode answers {} with
  | error e =>
    apply iff_of_false (by simp)
    intro h
    have hok := (readFields_ok decode answers {} _).mpr ⟨h.1, h.2.1, rfl⟩
    rw [hread] at hok
    cases hok
  | ok parts =>
    obtain ⟨hend, hids, rfl⟩ := (readFields_ok decode answers {} parts).mp hread
    rw [← hfold]
    simp only
    cases hdata : (answers.fields.foldl (absorb decode) {}).fileData with
    | none => simp
    | some bytes => simpa using ⟨hend, hids⟩

theorem extract_ids {answers : Answers} {bytes : Bytes} {name : String}
    {ids : Option (List Uuid)} (h : extractUploadParts decode answers = .ok (bytes, name, ids)) :
    ids = idsListed decode answers.fields := by
  unfold extractUploadParts at h
  cases hread : readFields decode answers {} with
  | error e =>
    rw [hread] at h
    cases h
  | ok parts =>
    obtain ⟨-, -, rfl⟩ := (readFields_ok decode answers {} parts).mp hread
    rw [hread] at h
    simp only at h
    split at h
    · cases h
    · rw [← foldl_absorb_ids]
      exact (congrArg (fun r : Bytes × String × Option (List Uuid) => r.2.2) (Except.ok.inj h)).symm

/-- A whole body is handed out as it was sent. -/
theorem Answering.of_complete {s : Submission} {answers : Answers} (h : Answering s answers)
    (hend : s.ending = .complete) : answers.Unnoticed ∧ answers.fields = s.fields := by
  induction h with
  | done => exact ⟨trivial, rfl⟩
  | field h ih =>
    obtain ⟨hunnoticed, hfields⟩ := ih hend
    exact ⟨hunnoticed, congrArg (_ :: ·) hfields⟩
  | failed h => exact absurd hend h
  | failedIn h => exact absurd hend h
  | cut => cases hend

/-! ## Which failures are reported -/

variable (multer : Multer) (s : Submission)

/-- A body that cannot be read whole is refused, and what is accepted carries the identifiers of
its field. -/
def Reported : Prop :=
  (s.ending ≠ .complete → ∃ e, extractUploadParts decode (multer.answers s) = .error e) ∧
  ∀ bytes name ids, extractUploadParts decode (multer.answers s) = .ok (bytes, name, ids) →
    s.ending = .complete ∧ ids = idsListed decode s.fields

/-- Reading fails, but never inside a field that is used, and only when a file has been read; what
is listed up to there reads. -/
def Swallowed : Prop :=
  s.ending ≠ .complete ∧ (multer.answers s).Unnoticed ∧
    (∃ f ∈ (multer.answers s).fields, IsFile f) ∧
    ∀ f ∈ (multer.answers s).fields, IsIds f → (idsOf decode f).isSome

theorem reported_iff : Reported decode multer s ↔ ¬ Swallowed decode multer s := by
  constructor
  · rintro ⟨hrefused, -⟩ ⟨hend, hunnoticed, hfile, hids⟩
    obtain ⟨e, he⟩ := hrefused hend
    obtain ⟨r, hr⟩ := (extract_ok decode _).mpr ⟨hunnoticed, hids, hfile⟩
    rw [he] at hr
    cases hr
  · intro hseen
    have hcomplete : ∀ r, extractUploadParts decode (multer.answers s) = .ok r →
        s.ending = .complete := by
      intro r hr
      obtain ⟨hunnoticed, hids, hfile⟩ := (extract_ok decode _).mp ⟨r, hr⟩
      by_contra hend
      exact hseen ⟨hend, hunnoticed, hfile, hids⟩
    refine ⟨fun hend => ?_, fun bytes name ids hr => ⟨hcomplete _ hr, ?_⟩⟩
    · cases hr : extractUploadParts decode (multer.answers s) with
      | error e => exact ⟨e, rfl⟩
      | ok r => exact absurd (hcomplete r hr) hend
    · rw [extract_ids decode hr, ((multer.lawful s).of_complete (hcomplete _ hr)).2]

/-! ## Two readers -/

def Ending.answers : Ending → Answers
  | .complete => .none
  | .broken => .failed "incomplete multipart stream"
  | .cut head =>
    .field head (.error "incomplete field data") (.failed "incomplete multipart stream")

/-- Bytes arrive one by one: a failure shows where it is in the body. -/
def inStep : Multer where
  answers s := s.fields.foldr (fun f answers => .field f.head (.ok f.data) answers) s.ending.answers
  lawful := by
    rintro ⟨fields, ending⟩
    induction fields with
    | nil =>
      cases ending with
      | complete => exact .done
      | broken => exact .failed (by simp) _
      | cut head => exact .cut head _ _
    | cons f fields ih => exact .field ih

/-- All has arrived before the first field is asked for: a failure shows at once. -/
def allAtOnce : Multer where
  answers s :=
    match s.ending with
    | .complete => inStep.answers s
    | _ => .failed "incomplete multipart stream"
  lawful := by
    rintro ⟨fields, ending⟩
    cases ending with
    | complete => exact inStep.lawful ⟨fields, .complete⟩
    | broken => exact .failed (by simp) _
    | cut head => exact .failed (by simp) _

/-- A file that was sent whole, before the connection broke. -/
def halfSent : Submission where
  fields := [⟨⟨some "file", some "cat.png"⟩, [0x89, 0x50, 0x4e, 0x47]⟩]
  ending := .broken

/-- The upload goes on without the configurations the rest of the body would have named. -/
theorem halfSent_accepted :
    ¬ Reported (fun _ _ => "") inStep halfSent ∧
    extractUploadParts (fun _ _ => "") (inStep.answers halfSent) =
      .ok ([0x89, 0x50, 0x4e, 0x47], "cat.png", none) := by
  have haccepted : extractUploadParts (fun _ _ => "") (inStep.answers halfSent) =
      .ok ([0x89, 0x50, 0x4e, 0x47], "cat.png", none) := rfl
  refine ⟨fun h => ?_, haccepted⟩
  have hend := (h.2 _ _ _ haccepted).1
  cases hend

/-- The same body is refused when the failure is there before the file is asked for. -/
example : extractUploadParts (fun _ _ => "") (allAtOnce.answers halfSent) =
    .error { status := 400, key := "upload.file_missing" } := rfl

end PicHost.UploadParts
