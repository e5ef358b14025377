import PicHost.Api.Deletion

/-!
# Whether the deletion of an image is all or nothing

The files of an image are deleted before its row, and what those calls return is dropped. Nothing
interleaves with the request; each of its calls can fail.
-/

namespace PicHost.DeleteAtomicity

open KeyedTable BatchDelete Deletion

variable {J : Type} (router : StorageRouter) (user : AuthUser)

/-- The calls of `delete_image`: the selection of the row, one deletion for each file, the
deletion of the row and of the cached description. -/
structure Calls where
  select : Input
  files : List Input
  row : Input
  evict : Input

def advanceAll (id : Uuid) (inps : List Input) (w : Stage × ImageStore J) : Stage × ImageStore J :=
  inps.foldl (fun w inp => advance router inp (.deleteImage user id) w.1 w.2) w

def deleteImage (id : Uuid) (calls : Calls) (s : ImageStore J) : Stage × ImageStore J :=
  advanceAll router user id (calls.select :: (calls.files ++ [calls.row, calls.evict])) (.start, s)

/-- Where the calls that no fault meets delete. -/
def deletedAt (storage : Backend) (keys : List String) (files : List Input) : List Location :=
  (keys.zip files).filterMap fun call =>
    if call.2.storageFault = none then some (storage.locate call.1) else none

/-- Where the image's files are deleted in this request. -/
def deletedFor (r : Image) (calls : Calls) : List Location :=
  deletedAt (router.forBackend r.storageBackend) (keysOf (.ofImage r)) calls.files

/-- `placed` is where the image's objects are. An answer of `Err` leaves the row and what was
there of the objects, an answer of `Ok` neither. -/
def Atomic (r : Image) (placed : List Location) (s : ImageStore J)
    (w : Stage × ImageStore J) : Prop :=
  (∃ e, w.1 = .done (.error e) ∧ r ∈ w.2.images.rows ∧
    ∀ l ∈ placed, s.objects l ≠ none → w.2.objects l ≠ none) ∨
  ∃ reply, w.1 = .done (.ok reply) ∧ (∀ q ∈ w.2.images.rows, q.id ≠ r.id) ∧
    ∀ l ∈ placed, w.2.objects l = none

/-- The row is selected for this user. -/
def Selected (r : Image) (calls : Calls) : Prop :=
  calls.select.dbUp = true ∧ (r.userId = user.id ∨ user.isAdmin = true)

variable {router user} {id : Uuid} {s : ImageStore J} {r : Image}

theorem advanceAll_append (inps inps' : List Input) (w : Stage × ImageStore J) :
    advanceAll router user id (inps ++ inps') w =
      advanceAll router user id inps' (advanceAll router user id inps w) :=
  List.foldl_append ..

/-- A request that has answered stays so. -/
theorem advanceAll_done (inps : List Input) (answer : Except ApiError Reply) (s : ImageStore J) :
    advanceAll router user id inps (.done answer, s) = (.done answer, s) := by
  induction inps with
  | nil => rfl
  | cons inp inps ih => exact ih

theorem mem_deletedAt_cons {storage : Backend} {key : String} {keys : List String} {inp : Input}
    {files : List Input} {l : Location} :
    l ∈ deletedAt storage (key :: keys) (inp :: files) ↔
      inp.storageFault = none ∧ l = storage.locate key ∨ l ∈ deletedAt storage keys files := by
  unfold deletedAt
  rw [List.zip_cons_cons, List.filterMap_cons]
  cases inp.storageFault with
  | some text => simp
  | none => simp

/-- The deletions of the files of one row. -/
theorem advanceAll_clean (storage : Backend) {keys : List String} {files : List Input}
    (hkeys : keys ≠ []) (hlen : files.length = keys.length) (s : ImageStore J) :
    ∃ objects, advanceAll router user id files (.clean storage keys [], s) =
        (.remove, { s with objects }) ∧
      ∀ l, objects l = if l ∈ deletedAt storage keys files then none else s.objects l := by
  induction keys generalizing files s with
  | nil => exact absurd rfl hkeys
  | cons key keys ih =>
    cases files with
    | nil => cases hlen
    | cons inp files =>
      let s' : ImageStore J :=
        { s with objects := (storage.delete inp.storageFault key s.objects).2 }
      have hfirst : advance router inp (.deleteImage user id) (.clean storage (key :: keys) []) s =
          (if keys = [] then .remove else .clean storage keys [], s') := rfl
      have hsteps : advanceAll router user id (inp :: files) (.clean storage (key :: keys) [], s) =
          advanceAll router user id files
            (if keys = [] then .remove else .clean storage keys [], s') := by
        rw [← hfirst]
        rfl
      rw [hsteps]
      by_cases hlast : keys = []
      · subst hlast
        have hfiles : files = [] := List.length_eq_zero_iff.mp (by simpa using hlen)
        subst hfiles
        refine ⟨_, rfl, fun l => ?_⟩
        rw [Backend.delete_at]
        simp only [mem_deletedAt_cons]
        simp [deletedAt]
      · rw [if_neg hlast]
        obtain ⟨objects, hrun, hobjects⟩ := ih hlast (Nat.succ.inj hlen) s'
        refine ⟨objects, hrun, fun l => ?_⟩
        have hat : s'.objects l = _ := storage.delete_at inp.storageFault key s.objects l
        rw [hobjects, hat, if_congr mem_deletedAt_cons rfl rfl]
        by_cases hrest : l ∈ deletedAt storage keys files
        · simp [hrest]
        · simp [hrest]

variable (router) in
theorem select_target (hr : r ∈ s.images.rows) (calls : Calls) :
    (Selected user r calls →
      advance router calls.select (.deleteImage user r.id) .start s =
        (.clean (router.forBackend r.storageBackend) (keysOf (.ofImage r)) [], s)) ∧
    (¬ Selected user r calls → ∃ e,
      advance router calls.select (.deleteImage user r.id) .start s = (.done (.error e), s)) := by
  have hwhere : ∀ q ∈ s.images.rows,
      (q.id == r.id && (q.userId == user.id || user.isAdmin)) = true →
        q = r ∧ (r.userId = user.id ∨ user.isAdmin = true) := by
    intro q hq h
    simp only [Bool.and_eq_true, Bool.or_eq_true, beq_iff_eq] at h
    obtain rfl := ImageTable.eq_of_id hq hr h.1
    exact ⟨rfl, h.2⟩
  cases hdb : calls.select.dbUp with
  | false =>
    refine ⟨fun h => ?_, fun _ => ⟨internalError, ?_⟩⟩
    · rw [Selected, hdb] at h
      cases h.1
    · simp only [advance, Request.targets, fetchDeleteTarget, hdb]
      rfl
  | true =>
    constructor
    · rintro ⟨-, howner⟩
      have hhead := Table.select_head?_of_unique (t := s.images) hr
        (p := fun q => q.id == r.id && (q.userId == user.id || user.isAdmin))
        (by simpa using howner) fun q hq h => (hwhere q hq h).1
      simp only [advance, Request.targets, fetchDeleteTarget, hdb, if_true, hhead]
      rfl
    · intro hno
      refine ⟨notFound, ?_⟩
      have hhead : (s.images.select fun q =>
          q.id == r.id && (q.userId == user.id || user.isAdmin)).head? = none := by
        rw [List.head?_eq_none_iff]
        exact List.filter_eq_nil_iff.mpr fun q hq h => hno ⟨hdb, (hwhere q hq h).2⟩
      simp only [advance, Request.targets, fetchDeleteTarget, hdb, if_true, hhead]
      rfl

/-- The deletion of the row and what follows. -/
theorem advanceAll_remove (row evict : Input) (s : ImageStore J) :
    ∃ w, advanceAll router user id [row, evict] (.remove, s) = w ∧
      w.2.objects = s.objects ∧
      if row.dbUp = true then
        (∃ reply, w.1 = .done (.ok reply)) ∧ ∀ q ∈ w.2.images.rows, q.id ≠ id
      else (∃ e, w.1 = .done (.error e)) ∧ w.2.images = s.images := by
  refine ⟨_, rfl, ?_⟩
  have hsteps : advanceAll router user id [row, evict] (.remove, s) =
      advance router evict (.deleteImage user id)
        (advance router row (.deleteImage user id) .remove s).1
        (advance router row (.deleteImage user id) .remove s).2 := rfl
  rw [hsteps]
  cases hdb : row.dbUp with
  | true =>
    simp only [advance, hdb, if_true, Request.ids, nextEvict, List.cons_ne_nil, if_false]
    refine ⟨trivial, ⟨_, rfl⟩, fun q hq => ?_⟩
    have := (Table.mem_delete.mp hq).2
    simpa [Request.deletes] using this
  | false =>
    simp only [advance, hdb, Bool.false_eq_true, if_false]
    exact ⟨trivial, ⟨_, rfl⟩, trivial⟩

variable (router) in
/-- A selected row goes if its statement succeeds; the files go where no fault is met. -/
theorem deleteImage_selected (hr : r ∈ s.images.rows) {calls : Calls}
    (hfiles : calls.files.length = (keysOf (.ofImage r)).length)
    (hs : Selected user r calls) :
    (∀ l, (deleteImage router user r.id calls s).2.objects l =
      if l ∈ deletedFor router r calls then none else s.objects l) ∧
    if calls.row.dbUp = true then
      (∃ reply, (deleteImage router user r.id calls s).1 = .done (.ok reply)) ∧
        ∀ q ∈ (deleteImage router user r.id calls s).2.images.rows, q.id ≠ r.id
    else (∃ e, (deleteImage router user r.id calls s).1 = .done (.error e)) ∧
      (deleteImage router user r.id calls s).2.images = s.images := by
  obtain ⟨objects, hclean, hobjects⟩ := @advanceAll_clean J router user r.id
    (router.forBackend r.storageBackend) _ calls.files (List.cons_ne_nil _ _) hfiles s
  obtain ⟨w, hw, hkept, hend⟩ := @advanceAll_remove J router user r.id calls.row calls.evict
    { s with objects }
  have hrun : deleteImage router user r.id calls s = w := by
    rw [← hw, ← hclean, ← advanceAll_append]
    show advanceAll router user r.id _ (advance router calls.select _ .start s) = _
    rw [(select_target router hr calls).1 hs]
    rfl
  rw [hrun]
  exact ⟨fun l => by rw [hkept]; exact hobjects l, hend⟩

variable (router) in
theorem deleteImage_refused (hr : r ∈ s.images.rows) {calls : Calls}
    (hs : ¬ Selected user r calls) :
    ∃ e, deleteImage router user r.id calls s = (.done (.error e), s) := by
  obtain ⟨e, he⟩ := (select_target router hr calls).2 hs
  refine ⟨e, ?_⟩
  show advanceAll router user r.id _ (advance router calls.select _ .start s) = _
  rw [he, advanceAll_done]

section Answers

variable {w : Stage × ImageStore J} {deleted placed : List Location}
  (hobjects : ∀ l, w.2.objects l = if l ∈ deleted then none else s.objects l)
include hobjects

theorem atomic_ok_iff {reply : Reply} (hreply : w.1 = .done (.ok reply))
    (hgone : ∀ q ∈ w.2.images.rows, q.id ≠ r.id) :
    Atomic r placed s w ↔ ∀ l ∈ placed, s.objects l ≠ none → l ∈ deleted := by
  constructor
  · rintro (⟨e, he, -⟩ | ⟨-, -, -, hnone⟩) l hl hthere
    · cases he.symm.trans hreply
    · by_contra hkeep
      have hl' := hnone l hl
      rw [hobjects, if_neg hkeep] at hl'
      exact hthere hl'
  · intro h
    refine .inr ⟨reply, hreply, hgone, fun l hl => ?_⟩
    rw [hobjects]
    by_cases hthere : s.objects l = none
    · rw [hthere, ite_self]
    · rw [if_pos (h l hl hthere)]

theorem atomic_error_iff {e : ApiError} (he : w.1 = .done (.error e))
    (hr : r ∈ w.2.images.rows) :
    Atomic r placed s w ↔ ∀ l ∈ placed, s.objects l ≠ none → l ∉ deleted := by
  constructor
  · rintro (⟨-, -, -, hthere⟩ | ⟨reply, hreply, -⟩) l hl hstored hdeleted
    · have hl' := hthere l hl hstored
      rw [hobjects, if_pos hdeleted] at hl'
      exact hl' rfl
    · cases he.symm.trans hreply
  · intro h
    refine .inl ⟨e, he, hr, fun l hl hstored => ?_⟩
    rw [hobjects, if_neg (h l hl hstored)]
    exact hstored

end Answers

/-- A deletion of an image of the table answers, and is all or nothing exactly when the row is
not selected, or the row goes with everything that was stored, or neither goes. -/
theorem atomic_iff (hr : r ∈ s.images.rows) {calls : Calls}
    (hfiles : calls.files.length = (keysOf (.ofImage r)).length) (placed : List Location) :
    Atomic r placed s (deleteImage router user r.id calls s) ↔
      (Selected user r calls →
        if calls.row.dbUp = true then
          ∀ l ∈ placed, s.objects l ≠ none → l ∈ deletedFor router r calls
        else ∀ l ∈ placed, s.objects l ≠ none → l ∉ deletedFor router r calls) := by
  by_cases hs : Selected user r calls
  · obtain ⟨hobjects, hend⟩ := deleteImage_selected router hr hfiles hs
    rw [forall_prop_of_true hs]
    cases hdb : calls.row.dbUp with
    | true =>
      rw [hdb, if_pos rfl] at hend
      obtain ⟨⟨reply, hreply⟩, hgone⟩ := hend
      exact atomic_ok_iff hobjects hreply hgone
    | false =>
      rw [hdb, if_neg Bool.false_ne_true] at hend
      obtain ⟨⟨e, he⟩, himages⟩ := hend
      exact atomic_error_iff hobjects he (himages ▸ hr)
  · obtain ⟨e, he⟩ := deleteImage_refused router hr hs
    rw [he]
    exact iff_of_true (.inl ⟨e, rfl, hr, fun l _ hl => hl⟩) fun h => absurd h hs

/-- Where the original of user 9's image is. -/
def originalAt : Location := .file "/data" strangersImage.storageKey

def storedOriginal : ImageStore Unit :=
  { strangersStore with objects := fun l => if l = originalAt then some [1] else none }

def up : Input := ⟨true, none, true⟩

/-- With every call answered the owner's deletion is all or nothing. -/
theorem atomic_iff_owner : Atomic strangersImage [originalAt] storedOriginal
    (deleteImage localRouter ⟨9, false, none⟩ strangersImage.id ⟨up, [up], up, up⟩
      storedOriginal) := by
  refine (atomic_iff (List.mem_singleton_self _) rfl [originalAt]).mpr fun _ => ?_
  show ∀ l ∈ [originalAt], storedOriginal.objects l ≠ none →
    l ∈ deletedFor localRouter strangersImage ⟨up, [up], up, up⟩
  decide +kernel

/-- The database fails at the deletion of the row: an error, with the original gone. -/
theorem delete_not_atomic :
    ¬ ∀ (router : StorageRouter) (user : AuthUser) (r : Image) (calls : Calls)
      (placed : List Location) (s : ImageStore Unit),
      r ∈ s.images.rows → calls.files.length = (keysOf (.ofImage r)).length →
        placed = (keysOf (.ofImage r)).map (router.forBackend r.storageBackend).locate →
        Atomic r placed s (deleteImage router user r.id calls s) := by
  intro h
  have hatomic := h localRouter ⟨9, false, none⟩ strangersImage
    ⟨up, [up], ⟨false, none, true⟩, up⟩ [originalAt] storedOriginal
    (List.mem_singleton_self _) rfl (by decide +kernel)
  obtain ⟨-, -, -, hkept⟩ | ⟨reply, hreply, -⟩ := hatomic
  · exact hkept originalAt (List.mem_singleton_self _) (by decide +kernel) (by decide +kernel)
  · have hfailed : (deleteImage localRouter ⟨9, false, none⟩ strangersImage.id
        ⟨up, [up], ⟨false, none, true⟩, up⟩ storedOriginal).1 =
        .done (.error { status := 500, key := "image.delete_failed" }) := by decide +kernel
    cases hfailed.symm.trans hreply

end PicHost.DeleteAtomicity
