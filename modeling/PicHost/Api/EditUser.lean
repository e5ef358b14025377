import PicHost.Api.PartialUpdates
import PicHost.Lib.IntText

/-!
# Editing a user in the web interface

The dialog leaves an empty email out and sends `null` for no quota. The server keeps what is left
out or `null`, and takes a quota of 0 for none.
-/

namespace PicHost.EditUser

open KeyedTable Admin

/-- The state of the dialog; no quota is unlimited, and so is one of 0. -/
structure EditForm where
  username : String
  email : String
  isAdmin : Bool
  password : String
  storageQuota : Option ℕ

/-- The JSON of a request: members that are missing, and a quota that may be `null`. -/
structure PatchBody where
  username : String
  email : Option String
  password : Option String
  isAdmin : Bool
  storageQuota : Option ℕ

/-- `if (value) body.member = value`. -/
def unlessEmpty (value : String) : Option String := if value = "" then none else some value

/-- What `handleSubmit` sends. -/
def EditForm.body (form : EditForm) : PatchBody where
  username := form.username
  email := unlessEmpty form.email
  password := unlessEmpty form.password
  isAdmin := form.isAdmin
  storageQuota := form.storageQuota

variable {J : Type}

/-- `JsonBody`: a quota that is no `i64` is refused. -/
def PatchBody.decode (body : PatchBody) : Option (UpdateUserBody J) :=
  if ∀ quota ∈ body.storageQuota, IntText.Fits 64 quota then
    some
      { username := some body.username
        email := body.email
        password := body.password
        isAdmin := some body.isAdmin
        storageQuota := body.storageQuota.map Nat.cast }
  else none

/-- A body is processed: `update_user` reads the user, and its statement changes the table that it
finds then. -/
inductive Processed (currentUser : AuthUser) (userId : Uuid) (body : PatchBody) :
    UserRows J → UserRows J → UserRows J → Prop
  | done {before found after : UserRows J} {update : UpdateUserBody J} {existing : UserFields J}
      {passwordHash : Option String} {inp : PartialUpdates.Input} {up : Bool}
      (hdecode : body.decode = some update)
      (hread : PartialUpdates.updateUser inp currentUser userId update before =
        .executeUserUpdate existing passwordHash)
      (hexec : executeUserUpdate up userId (mergeUserFields update existing) passwordHash found =
        some after) :
      Processed currentUser userId body before found after

namespace EditForm

def limit (form : EditForm) : Option ℤ := (form.storageQuota.filter (0 < ·)).map Nat.cast

/-- What the form shows is what the row holds. -/
structure SavedIn (form : EditForm) (u : UserRow J) : Prop where
  username : u.username = form.username
  email : u.email = unlessEmpty form.email
  isAdmin : u.isAdmin = form.isAdmin
  storageQuota : u.storageQuota = form.limit

/-- Nothing is cleared that the row has. -/
structure ClearsNothing (form : EditForm) (u : UserRow J) : Prop where
  email : form.email = "" → u.email = none
  storageQuota : form.storageQuota = none → u.storageQuota = none

end EditForm

theorem unlessEmpty_or_iff (value : String) (existing : Option String) :
    (unlessEmpty value).or existing = unlessEmpty value ↔ (value = "" → existing = none) := by
  unfold unlessEmpty
  split
  · rename_i hempty
    rw [Option.none_or, forall_prop_of_true hempty]
  · rename_i hvalue
    exact iff_of_true Option.some_or fun hempty => absurd hempty hvalue

/-- The server's reading of a quota. -/
theorem mergedQuota_iff (quota : Option ℕ) (existing : Option ℤ) :
    (if quota.map Nat.cast = some (0 : ℤ) then none
      else (quota.map (Nat.cast : ℕ → ℤ)).or existing) =
        (quota.filter (0 < ·)).map Nat.cast ↔ (quota = none → existing = none) := by
  cases quota with
  | none => simp
  | some n =>
    cases n with
    | zero => simp
    | succ n =>
      have hzero : (some (n + 1)).map (Nat.cast : ℕ → ℤ) ≠ some 0 := by
        rw [Option.map_some, ne_eq, Option.some.injEq]
        omega
      rw [if_neg hzero, Option.filter_some, if_pos (by simp)]
      simp

/-- What the request starts from is the user's row. -/
theorem fields_of_updateUser {inp : PartialUpdates.Input} {currentUser : AuthUser} {userId : Uuid}
    {update : UpdateUserBody J} {users : UserRows J} {existing : UserFields J}
    {passwordHash : Option String} (h : PartialUpdates.updateUser inp currentUser userId update
      users = .executeUserUpdate existing passwordHash)
    {u : UserRow J} (hu : u ∈ users.rows) (hid : u.id = userId) :
    existing.email = u.email ∧ existing.storageQuota = u.storageQuota := by
  unfold PartialUpdates.updateUser at h
  split at h
  · cases h
  · cases hfetch : fetchUserFields inp.dbUp userId users with
    | error e =>
      rw [hfetch] at h
      cases h
    | ok fields =>
      rw [hfetch] at h
      dsimp only at h
      split at h
      · cases h
      · obtain ⟨rfl, -⟩ := PartialUpdates.Stage.executeUserUpdate.inj h
        unfold fetchUserFields at hfetch
        split at hfetch
        · split at hfetch
          · rename_i v hhead
            -- Identifiers are unique, so the row that was read is this one.
            obtain ⟨hv, hvid⟩ := List.mem_filter.mp (List.mem_of_head? hhead)
            have hsame : v = u := users.eq_of_clash Registration.UserKeys.Clash.symm hv hu
              (.inl ((beq_iff_eq.mp hvid).trans hid.symm))
            rw [← Except.ok.inj hfetch, hsame]
            exact ⟨rfl, rfl⟩
          · cases hfetch
        · cases hfetch

/-- Every field of the form but the password is in the row that the statement writes, if what is
sent stands for what the form shows. -/
theorem savedIn_setFields_iff {form : EditForm} {update : UpdateUserBody J}
    (hdecode : form.body.decode = some update) (existing : UserFields J)
    (passwordHash : Option String) (w : UserRow J) :
    form.SavedIn (setFields (mergeUserFields update existing) passwordHash w) ↔
      (form.email = "" → existing.email = none) ∧
        (form.storageQuota = none → existing.storageQuota = none) := by
  rw [← unlessEmpty_or_iff, ← mergedQuota_iff]
  unfold PatchBody.decode at hdecode
  split at hdecode
  · rw [← Option.some.inj hdecode]
    exact ⟨fun h => ⟨h.email, h.storageQuota⟩, fun h => ⟨rfl, h.1, rfl, h.2⟩⟩
  · cases hdecode

/-- The row holds what the form shows exactly when the form clears nothing that the row had. -/
theorem saved_iff {currentUser : AuthUser} {userId : Uuid} {form : EditForm}
    {before found after : UserRows J}
    (hprocessed : Processed currentUser userId form.body before found after)
    {u : UserRow J} (hu : u ∈ before.rows) (hid : u.id = userId)
    (hfound : ∃ v ∈ found.rows, v.id = userId) :
    (∀ v ∈ after.rows, v.id = userId → form.SavedIn v) ↔ form.ClearsNothing u := by
  cases hprocessed with
  | @done update existing passwordHash inp up hdecode hread hexec =>
    obtain ⟨hemail, hquota⟩ := fields_of_updateUser hread hu hid
    rw [rows_executeUserUpdate hexec]
    have hsaved (w : UserRow J) :
        form.SavedIn (setFields (mergeUserFields update existing) passwordHash w) ↔
          form.ClearsNothing u := by
      rw [savedIn_setFields_iff hdecode, hemail, hquota]
      exact ⟨fun h => ⟨h.1, h.2⟩, fun h => ⟨h.email, h.storageQuota⟩⟩
    constructor
    · intro h
      obtain ⟨w, hw, hwid⟩ := hfound
      exact (hsaved w).mp (h _ (Table.mem_updated_iff.mpr
        (.inr ⟨w, hw, beq_iff_eq.mpr hwid, rfl⟩)) hwid)
    · -- The statement writes every row with the identifier.
      intro h v hv hvid
      rcases Table.mem_updated_iff.mp hv with ⟨-, hne⟩ | ⟨w, -, -, rfl⟩
      · exact absurd hvid (beq_eq_false_iff_ne.mp hne)
      · exact (hsaved w).mpr h

def oneUser (email : Option String) (quota : Option ℤ) : UserRows Unit :=
  ⟨[⟨2, "ann", email, "hash", false, "local", quota, none⟩], List.pairwise_singleton ..⟩

/-- The name, the email and the quota are changed. -/
def renameForm : EditForm where
  username := "annie"
  email := "annie@pics"
  isAdmin := false
  password := ""
  storageQuota := some 10

/-- The email and the quota are cleared. -/
def clearForm : EditForm where
  username := "ann"
  email := ""
  isAdmin := false
  password := ""
  storageQuota := none

def signedIn : AuthUser := ⟨1, true, none⟩

def annieRow : UserRow Unit :=
  ⟨2, "annie", some "annie@pics", "hash", false, "local", some 10, none⟩

def renamed : UserRows Unit := ⟨[annieRow], List.pairwise_singleton ..⟩

theorem processed_renameForm : Processed signedIn 2 renameForm.body
    (oneUser (some "ann@pics") (some 5)) (oneUser (some "ann@pics") (some 5)) renamed := by
  have hdecode : renameForm.body.decode (J := Unit) = some
      { username := some "annie", email := some "annie@pics", isAdmin := some false,
        storageQuota := some 10 } := if_pos (by decide)
  exact @Processed.done _ _ _ _ _ _ _ _ _ none ⟨true, 0, none, none, none, ""⟩ true hdecode rfl rfl

theorem saved_renameForm : renameForm.SavedIn annieRow :=
  (saved_iff processed_renameForm List.mem_cons_self rfl ⟨_, List.mem_cons_self, rfl⟩).mpr
    ⟨fun h => absurd h (by decide), fun h => by cases h⟩ annieRow List.mem_cons_self rfl

/-- What is cleared stays as it was. -/
theorem processed_clearForm {email : Option String} {quota : Option ℤ} :
    Processed signedIn 2 clearForm.body (oneUser email quota) (oneUser email quota)
      (oneUser email quota) := by
  have hdecode : clearForm.body.decode (J := Unit) =
      some { username := some "ann", isAdmin := some false } :=
    if_pos (by rintro quota ⟨⟩)
  exact @Processed.done _ _ _ _ _ _ _ _ _ none ⟨true, 0, none, none, none, ""⟩ true hdecode rfl rfl

/-- An email that is cleared stays. -/
theorem email_stays : ¬ ∀ (currentUser : AuthUser) (userId : Uuid) (form : EditForm)
    (before after : UserRows Unit), (∃ u ∈ before.rows, u.id = userId) →
    Processed currentUser userId form.body before before after →
    ∀ v ∈ after.rows, v.id = userId → form.SavedIn v := by
  intro h
  have hsaved := h signedIn 2 clearForm (oneUser (some "ann@pics") none)
    (oneUser (some "ann@pics") none) ⟨_, List.mem_cons_self, rfl⟩ processed_clearForm
    ⟨2, "ann", some "ann@pics", "hash", false, "local", none, none⟩ List.mem_cons_self rfl
  have hemail := hsaved.email
  revert hemail
  decide

end PicHost.EditUser
