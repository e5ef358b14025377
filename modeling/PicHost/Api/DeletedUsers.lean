import PicHost.Api.Admin
import PicHost.Worker.VariantKeys

/-!
# What the deletion of a user leaves in storage

`delete_user` deletes the files of every image of the user from the default backend, whichever
backend they are on.
-/

namespace PicHost.DeletedUsers

open KeyedTable Admin

variable {J : Type}

/-- What the outside contributes to the calls of `delete_user`. -/
structure Inputs where
  verifyUserExists : Input
  cleanupStorageFiles : Input
  deleteImages : Input
  deleteUser : Input

section Statements

variable (jwt : Auth.Jwt) (config : Auth.AuthConfig) (router : StorageRouter)

/-- Request `i` goes through the calls of `delete_user`, and nothing interleaves. -/
def alone (inps : Inputs) (i : ℕ) (s : State J) : State J :=
  [inps.verifyUserExists, inps.cleanupStorageFiles, inps.deleteImages, inps.deleteUser].foldl
    (fun s inp => step jwt config router s (.advance i inp)) s

/-- The images of the user. -/
def owned (userId : Uuid) (s : State J) : List Image :=
  s.images.select fun r => r.userId == userId

/-- `placed` says where the objects of an image are: its file and its variants, each on whatever
backend. None of the user's objects is left, and none of another user's image is gone. -/
structure Removed (placed : Image → List Location) (userId : Uuid) (s s' : State J) : Prop where
  own : ∀ r ∈ s.images.rows, r.userId = userId → ∀ l ∈ placed r, s'.objects l = none
  others : ∀ r ∈ s.images.rows, r.userId ≠ userId → ∀ l ∈ placed r, s'.objects l = s.objects l

/-- The default backend has an object there under a key of one of the user's images. -/
def OnDefault (userId : Uuid) (s : State J) (l : Location) : Prop :=
  ∃ r ∈ owned userId s, ∃ key ∈ imageKeys r, l = router.defaultBackend.locate key

/-- The user's stored objects are all on the default backend under the keys of the images, and
no object of another user's image is at such a place. -/
structure AllOnDefault (placed : Image → List Location) (userId : Uuid) (s : State J) : Prop where
  -- objects that were missing before need no deletion
  own : ∀ r ∈ s.images.rows, r.userId = userId → ∀ l ∈ placed r, s.objects l ≠ none →
    OnDefault router userId s l
  others : ∀ r ∈ s.images.rows, r.userId ≠ userId → ∀ l ∈ placed r, s.objects l ≠ none →
    ¬ OnDefault router userId s l

end Statements

variable {jwt : Auth.Jwt} {config : Auth.AuthConfig} {router : StorageRouter}

/-- The objects after some keys have been deleted from a backend. -/
theorem delete_all (storage : Backend) (keys : List String) (objs : Objects) (l : Location) :
    keys.foldl (fun objs key => (storage.delete none key objs).2) objs l =
      if l ∈ keys.map storage.locate then none else objs l := by
  induction keys generalizing objs with
  | nil => rfl
  | cons key keys ih =>
    rw [List.foldl_cons, ih, List.map_cons, storage.delete_at, ← ite_or]
    refine if_congr ?_ rfl rfl
    rw [List.mem_cons, and_iff_right rfl, or_comm]

theorem onDefault_iff {userId : Uuid} {s : State J} {l : Location} :
    OnDefault router userId s l ↔
      l ∈ ((owned userId s).flatMap imageKeys).map router.defaultBackend.locate := by
  simp only [OnDefault, List.mem_map, List.mem_flatMap]
  constructor
  · rintro ⟨r, hr, key, hkey, rfl⟩
    exact ⟨key, ⟨r, hr, hkey⟩, rfl⟩
  · rintro ⟨key, ⟨r, hr, hkey⟩, rfl⟩
    exact ⟨r, hr, key, hkey, rfl⟩

instance (userId : Uuid) (s : State J) (l : Location) : Decidable (OnDefault router userId s l) :=
  decidable_of_iff _ onDefault_iff.symm

section Calls

variable {s : State J} {i : ℕ} {r : Request J} {userId : Uuid}

theorem getElem?_setStage (hi : s.requests[i]? = some r) (stage : Stage J) :
    (s.setStage i r stage).requests[i]? = some { r with stage } := by
  rw [State.setStage, List.getElem?_set_self', hi]
  rfl

/-- A request that has returned stays so. -/
theorem foldl_returned (inps : List Input) {result : Except ApiError Reply}
    (hi : s.requests[i]? = some r) (hstage : r.stage = .returned result) :
    inps.foldl (fun s inp => step jwt config router s (.advance i inp)) s = s := by
  induction inps with
  | nil => rfl
  | cons inp inps ih =>
    have hstep : step jwt config router s (.advance i inp) = s := by
      simp only [step, hi, advance, hstage]
    rw [List.foldl_cons, hstep, ih]

/-- Nor can it have returned otherwise. -/
theorem not_deleted_of_error (inps : List Input) {e : ApiError}
    (hi : s.requests[i]? = some r) (hstage : r.stage = .returned (.error e)) :
    ¬ ∃ r' ∈ (inps.foldl (fun s inp => step jwt config router s (.advance i inp)) s).requests[i]?,
      r'.stage = .returned (.ok .deleted) := by
  rw [foldl_returned inps hi hstage, hi]
  rintro ⟨r', hr', hdone⟩
  cases hr'
  rw [hstage] at hdone
  cases hdone

theorem deleteUser_cases (inp : Input) (currentUser : AuthUser) (userId : Uuid) (s : State J) :
    deleteUser inp currentUser userId s = .cleanupStorageFiles ∨
      ∃ e, deleteUser inp currentUser userId s = .returned (.error e) := by
  unfold deleteUser
  repeat' split
  · exact .inr ⟨_, rfl⟩
  · exact .inl rfl
  · exact .inr ⟨_, rfl⟩
  · exact .inr ⟨_, rfl⟩

theorem step_execute (hi : s.requests[i]? = some r) (hcall : r.call = .deleteUser userId)
    (hstage : r.stage = .cleanupStorageFiles ∨ r.stage = .deleteImages ∨ r.stage = .deleteFromDb)
    (inp : Input) :
    step jwt config router s (.advance i inp) = executeDelete router inp i r userId s := by
  rcases hstage with hstage | hstage | hstage <;> simp only [step, hi, advance, hstage, hcall]

theorem objects_deleteFromDb (inp : Input) (hstage : r.stage = .deleteFromDb) :
    (executeDelete router inp i r userId s).objects = s.objects := by
  unfold executeDelete
  split
  · rw [hstage]
    rfl
  · rfl

/-- The statements after the cleanup leave the objects. -/
theorem objects_deleteImages (images user : Input) (hi : s.requests[i]? = some r)
    (hcall : r.call = .deleteUser userId) (hstage : r.stage = .deleteImages) :
    ([images, user].foldl (fun s inp => step jwt config router s (.advance i inp)) s).objects =
      s.objects := by
  rw [List.foldl_cons, step_execute hi hcall (.inr (.inl hstage))]
  cases hdb : images.env.dbUp with
  | false =>
    have herror : executeDelete router images i r userId s =
        s.setStage i r (.returned (.error Registration.internalError)) := by
      simp only [executeDelete, hdb, Bool.false_eq_true, if_false]
    rw [herror, foldl_returned _ (getElem?_setStage hi _) rfl]
    rfl
  | true =>
    have hnext : executeDelete router images i r userId s = { s.setStage i r .deleteFromDb with
        images := s.images.delete fun image => image.userId == userId } := by
      simp only [executeDelete, hdb, if_true, hstage]
    have hi₁ : (executeDelete router images i r userId s).requests[i]? =
        some { r with stage := .deleteFromDb } := by
      rw [hnext]
      exact getElem?_setStage hi _
    rw [List.foldl_cons, List.foldl_nil, step_execute hi₁ hcall (.inr (.inr rfl)),
      objects_deleteFromDb user rfl, hnext]
    rfl

/-- The cleanup is the only call that changes the objects. -/
theorem objects_alone {inps : Inputs} {currentUser : AuthUser} (hi : s.requests[i]? = some r)
    (hcall : r.call = .deleteUser userId) (hstage : r.stage = .handle currentUser)
    (hok : ∃ r' ∈ (alone jwt config router inps i s).requests[i]?,
      r'.stage = .returned (.ok .deleted)) :
    (alone jwt config router inps i s).objects =
      collectAndCleanupStorageFiles router.defaultBackend inps.cleanupStorageFiles.storage
        (owned userId s) s.objects := by
  unfold alone at hok ⊢
  rw [List.foldl_cons] at hok ⊢
  have hverify : step jwt config router s (.advance i inps.verifyUserExists) =
      s.setStage i r (deleteUser inps.verifyUserExists currentUser userId s) := by
    simp only [step, hi, advance, hstage, hcall]
  rw [hverify] at hok ⊢
  rcases deleteUser_cases inps.verifyUserExists currentUser userId s with hchecked | ⟨e, herror⟩
  · have hi₁ := getElem?_setStage hi .cleanupStorageFiles
    rw [hchecked, List.foldl_cons, step_execute hi₁ hcall (.inl rfl)] at hok ⊢
    cases hdb : inps.cleanupStorageFiles.env.dbUp with
    | false =>
      have herror : executeDelete router inps.cleanupStorageFiles i
          { r with stage := .cleanupStorageFiles } userId (s.setStage i r .cleanupStorageFiles) =
          (s.setStage i r .cleanupStorageFiles).setStage i { r with stage := .cleanupStorageFiles }
            (.returned (.error Registration.internalError)) := by
        simp only [executeDelete, hdb, Bool.false_eq_true, if_false]
      rw [herror] at hok
      exact absurd hok (not_deleted_of_error _ (getElem?_setStage hi₁ _) rfl)
    | true =>
      have hcleaned : executeDelete router inps.cleanupStorageFiles i
          { r with stage := .cleanupStorageFiles } userId (s.setStage i r .cleanupStorageFiles) =
          { (s.setStage i r .cleanupStorageFiles).setStage i
              { r with stage := .cleanupStorageFiles } .deleteImages with
            objects := collectAndCleanupStorageFiles router.defaultBackend
              inps.cleanupStorageFiles.storage (owned userId s) s.objects } := by
        simp only [executeDelete, hdb, if_true]
        rfl
      have hi₂ : (executeDelete router inps.cleanupStorageFiles i
          { r with stage := .cleanupStorageFiles } userId
          (s.setStage i r .cleanupStorageFiles)).requests[i]? =
          some { r with stage := .deleteImages } := by
        rw [hcleaned]
        exact getElem?_setStage hi₁ _
      rw [objects_deleteImages _ _ hi₂ hcall rfl, hcleaned]
  · rw [herror] at hok
    exact absurd hok (not_deleted_of_error _ (getElem?_setStage hi _) rfl)

end Calls

variable (jwt config router) in
/-- A deletion of a user that returns `Ok`, with no storage call failing, leaves none of the
user's objects and touches no other's, exactly if what is stored for the user's images is all on
the default backend and nothing of another user's image is at one of these places. -/
theorem deleted_user_leaves_nothing_iff (placed : Image → List Location) {s : State J} {i : ℕ}
    {r : Request J} {userId : Uuid} {currentUser : AuthUser} {inps : Inputs}
    (hi : s.requests[i]? = some r) (hcall : r.call = .deleteUser userId)
    (hstage : r.stage = .handle currentUser)
    (hfault : inps.cleanupStorageFiles.storage = fun _ => none)
    (hok : ∃ r' ∈ (alone jwt config router inps i s).requests[i]?,
      r'.stage = .returned (.ok .deleted)) :
    Removed placed userId s (alone jwt config router inps i s) ↔
      AllOnDefault router placed userId s := by
  have hobjects : ∀ l, (alone jwt config router inps i s).objects l =
      if OnDefault router userId s l then none else s.objects l := by
    intro l
    rw [objects_alone hi hcall hstage hok, collectAndCleanupStorageFiles, hfault, delete_all]
    simp only [onDefault_iff]
  constructor
  · intro h
    refine ⟨fun r hr howner l hl hstored => ?_, fun r hr howner l hl hstored hdefault => ?_⟩
    · by_contra hdefault
      have hgone := h.own r hr howner l hl
      rw [hobjects l, if_neg hdefault] at hgone
      exact hstored hgone
    · have hkept := h.others r hr howner l hl
      rw [hobjects l, if_pos hdefault] at hkept
      exact hstored hkept.symm
  · intro h
    refine ⟨fun r hr howner l hl => ?_, fun r hr howner l hl => ?_⟩
    · rw [hobjects l]
      split
      · rfl
      · rename_i hdefault
        by_contra hstored
        exact hdefault (h.own r hr howner l hl hstored)
    · rw [hobjects l]
      split
      · rename_i hdefault
        by_contra hstored
        exact h.others r hr howner l hl (fun hnone => hstored hnone.symm) hdefault
      · rfl

/-- S3 is the default; images of `local` configurations and of Git ones go elsewhere. -/
def bucketRouter : StorageRouter :=
  initStorageBackends "/data" "http://pics" (some ("http://s3", "pichost")) "rustfs" fun _ => 0

def githubPlace : Location :=
  .content .gitHub "me" "pics" "main" Worker.githubImage.storageKey

/-- An administrator deletes user 7, whose image is on GitHub. -/
def githubUser : State Unit where
  users := ⟨[⟨7, "bob", none, "", false, "local", none, none⟩], List.pairwise_singleton _ _⟩
  images := ⟨[Worker.githubImage], List.pairwise_singleton _ _⟩
  objects l := if l = githubPlace then some [3] else none
  blacklist := .emptyRedis
  issued := []
  requests := [⟨none, .deleteUser 7, .handle ⟨1, true, none⟩⟩]

def upInput : Input := ⟨⟨0, true, true, true, true⟩, none, fun _ => none⟩

def upInputs : Inputs := ⟨upInput, upInput, upInput, upInput⟩

theorem deleted_user_leaves_nothing_iff_github :
    Removed (fun _ => [githubPlace]) 7 githubUser
        (alone Auth.plainJwt Auth.shortConfig bucketRouter upInputs 0 githubUser) ↔
      AllOnDefault bucketRouter (fun _ => [githubPlace]) 7 githubUser :=
  deleted_user_leaves_nothing_iff Auth.plainJwt Auth.shortConfig bucketRouter
    (fun _ => [githubPlace]) rfl rfl rfl rfl ⟨_, rfl, rfl⟩

/-- Every call succeeds, the row is gone and the file is still in the repository. -/
theorem deleted_user_leaves_file :
    ¬ ∀ (placed : Image → List Location) (router : StorageRouter) (s : State Unit),
      (∃ r ∈ (alone Auth.plainJwt Auth.shortConfig router upInputs 0 s).requests[0]?,
        r.stage = .returned (.ok .deleted)) →
      Removed placed 7 s (alone Auth.plainJwt Auth.shortConfig router upInputs 0 s) := by
  intro h
  have hgone := (h (fun _ => [githubPlace]) bucketRouter githubUser ⟨_, rfl, rfl⟩).own
    Worker.githubImage (List.mem_singleton_self _) rfl githubPlace (List.mem_singleton_self _)
  have hleft : (alone Auth.plainJwt Auth.shortConfig bucketRouter upInputs 0 githubUser).objects
      githubPlace = some [3] := by
    decide +kernel
  rw [hleft] at hgone
  cases hgone

end PicHost.DeletedUsers
