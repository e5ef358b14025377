import PicHost.Api.AdminConfig
import Mathlib.Data.List.TakeWhile

/-!
# What masked URLs show

The mask takes for the password what stands between the first colon after `://` and the first `@`
after that. A driver ends the password at the last `@` before the host.
-/

namespace PicHost.MaskedUrls

open AdminConfig

/-- A colon in the user would begin the password. -/
structure ConnectionUrl where
  scheme : List Char
  /-- The user and the password. -/
  userinfo : Option (List Char × Option (List Char))
  host : List Char
  port : Option (List Char)
  /-- The path and what follows it. -/
  path : List Char
  scheme_plain : ':' ∉ scheme
  user_plain : ∀ info ∈ userinfo, ':' ∉ info.1
  host_plain : '@' ∉ host ∧ '/' ∉ host

def userinfoText : Option (List Char × Option (List Char)) → List Char
  | none => []
  | some (user, none) => user ++ ['@']
  | some (user, some password) => user ++ ':' :: (password ++ ['@'])

/-- What stands between the first colon of a text and the first `@` after it. -/
def marked (text : List Char) : Option (List Char) :=
  match text.dropWhile (· != ':') with
  | [] => none
  | _ :: after => if '@' ∈ after then some (after.takeWhile (· != '@')) else none

namespace ConnectionUrl

def password (url : ConnectionUrl) : Option (List Char) := url.userinfo.bind Prod.snd

/-- All that follows the userinfo. -/
def place (url : ConnectionUrl) : List Char :=
  url.host ++ url.port.elim [] (':' :: ·) ++ url.path

def text (url : ConnectionUrl) : List Char :=
  url.scheme ++ ("://".toList ++ (userinfoText url.userinfo ++ url.place))

def masked (url : ConnectionUrl) : ConnectionUrl :=
  { url with
    userinfo := url.userinfo.map fun info => (info.1, info.2.map fun _ => "***".toList)
    user_plain := by
      intro info hinfo
      obtain ⟨info', hinfo', rfl⟩ := Option.mem_map.mp hinfo
      exact url.user_plain info' hinfo' }

/-- The only `@` that a mask can find is the one that ends the password. -/
structure Clear (url : ConnectionUrl) : Prop where
  password : ∀ password ∈ url.password, '@' ∉ password
  place : url.password = none → ∀ found ∈ marked url.place, found = "***".toList

end ConnectionUrl

theorem dropWhile_append_cons {c : Char} {l : List Char} (h : c ∉ l) (rest : List Char) :
    (l ++ c :: rest).dropWhile (· != c) = c :: rest := by
  rw [List.dropWhile_append_of_pos fun x hx => bne_iff_ne.mpr (ne_of_mem_of_not_mem hx h)]
  exact List.dropWhile_cons_of_neg (by simp)

theorem takeWhile_append_cons {c : Char} {l : List Char} (h : c ∉ l) (rest : List Char) :
    (l ++ c :: rest).takeWhile (· != c) = l := by
  rw [List.takeWhile_append_of_pos fun x hx => bne_iff_ne.mpr (ne_of_mem_of_not_mem hx h),
    List.takeWhile_cons_of_neg (by simp), List.append_nil]

theorem credentials_text {user password : List Char} (huser : ':' ∉ user)
    (hpassword : '@' ∉ password) (rest : List Char) :
    credentials ("://".toList ++ (user ++ ':' :: (password ++ '@' :: rest))) =
      some (user, password, rest) := by
  change credentials (':' :: '/' :: '/' :: (user ++ ':' :: (password ++ '@' :: rest))) = _
  rw [credentials, dropWhile_append_cons huser]
  dsimp only
  rw [dropWhile_append_cons hpassword]
  dsimp only
  rw [takeWhile_append_cons huser, takeWhile_append_cons hpassword]

theorem credentials_of_ne {c : Char} (h : c ≠ ':') (rest : List Char) :
    credentials (c :: rest) = none := by
  unfold credentials
  split
  · rename_i heq
    exact (h (List.cons.inj heq).1).elim
  · rfl

theorem maskChars_append {front : List Char} (h : ':' ∉ front) (rest : List Char) :
    maskChars (front ++ rest) = front ++ maskChars rest := by
  induction front with
  | nil => rfl
  | cons c front ih =>
    rw [List.mem_cons, not_or] at h
    rw [List.cons_append, maskChars, credentials_of_ne (Ne.symm h.1)]
    dsimp only
    rw [ih h.2, List.cons_append]

theorem passwordChars_append {front : List Char} (h : ':' ∉ front) (rest : List Char) :
    passwordChars (front ++ rest) = passwordChars rest := by
  induction front with
  | nil => rfl
  | cons c front ih =>
    rw [List.mem_cons, not_or] at h
    rw [List.cons_append, passwordChars, credentials_of_ne (Ne.symm h.1)]
    exact ih h.2

theorem marked_append {front : List Char} (h : ':' ∉ front) (rest : List Char) :
    marked (front ++ rest) = marked rest := by
  rw [marked, List.dropWhile_append_of_pos fun x hx =>
    bne_iff_ne.mpr (ne_of_mem_of_not_mem hx h)]
  rfl

theorem at_mem_of_marked {text found : List Char} (h : marked text = some found) :
    '@' ∈ text := by
  unfold marked at h
  split at h
  · cases h
  · rename_i c after hafter
    split at h
    · rename_i hat
      have hmem : '@' ∈ text.dropWhile (· != ':') := hafter ▸ List.mem_cons_of_mem _ hat
      exact (List.dropWhile_sublist _).subset hmem
    · cases h

theorem passwordChars_eq_none {text : List Char} (h : marked text = none) :
    passwordChars text = none := by
  induction text with
  | nil => rfl
  | cons c rest ih =>
    by_cases hc : c = ':'
    · subst hc
      have hat : '@' ∉ rest := by
        intro hat
        rw [marked, List.dropWhile_cons_of_neg (by simp)] at h
        dsimp only at h
        rw [if_pos hat] at h
        cases h
      have hcred : credentials (':' :: rest) = none := by
        cases hcred : credentials (':' :: rest) with
        | none => rfl
        | some found =>
          have hsplit := credentials_eq_some hcred
          rw [show "://".toList = ':' :: "//".toList from rfl, List.cons_append,
            List.cons_append, List.cons.injEq] at hsplit
          refine (hat ?_).elim
          rw [hsplit.2]
          simp
      rw [passwordChars, hcred]
      refine ih (Option.eq_none_iff_forall_ne_some.mpr fun found hfound => ?_)
      exact hat (at_mem_of_marked hfound)
    · rw [passwordChars, credentials_of_ne hc]
      apply ih
      rw [← h]
      exact (@marked_append [c] (by simpa using Ne.symm hc) rest).symm

/-- After the scheme the mask finds what is marked. -/
theorem passwordChars_scheme (after : List Char) :
    passwordChars ("://".toList ++ after) = marked after := by
  have hslashes : passwordChars ('/' :: '/' :: after) = passwordChars after :=
    @passwordChars_append ['/', '/'] (by decide) after
  have hrest : credentials (':' :: '/' :: '/' :: after) = none →
      passwordChars ("://".toList ++ after) = passwordChars after := by
    intro hcred
    rw [← hslashes]
    change passwordChars (':' :: '/' :: '/' :: after) = _
    rw [passwordChars, hcred]
  -- Without a colon, or an `@` after it, the mask goes on past the scheme.
  cases hcolon : after.dropWhile (· != ':') with
  | nil =>
    have hmarked : marked after = none := by rw [marked, hcolon]
    rw [hmarked, hrest (by rw [credentials, hcolon]), passwordChars_eq_none hmarked]
  | cons c tail =>
    by_cases hat : '@' ∈ tail
    · obtain ⟨found, rest, rfl, hfound⟩ := List.eq_append_cons_of_mem hat
      rw [marked, hcolon]
      dsimp only
      rw [if_pos hat]
      change passwordChars (':' :: '/' :: '/' :: after) = _
      rw [passwordChars, credentials, hcolon]
      dsimp only
      rw [dropWhile_append_cons hfound]
    · have hmarked : marked after = none := by
        rw [marked, hcolon]
        exact if_neg hat
      have hnone : tail.dropWhile (· != '@') = [] := List.dropWhile_eq_nil_iff.mpr fun x hx =>
        bne_iff_ne.mpr (ne_of_mem_of_not_mem hx hat)
      rw [hmarked, hrest, passwordChars_eq_none hmarked]
      rw [credentials, hcolon]
      dsimp only
      rw [hnone]

/-! ## When the password is hidden -/

theorem maskChars_text (url : ConnectionUrl) : maskChars url.text =
    url.scheme ++ maskChars ("://".toList ++ (userinfoText url.userinfo ++ url.place)) :=
  maskChars_append url.scheme_plain _

theorem maskChars_credentials {user password : List Char} (huser : ':' ∉ user)
    (hpassword : '@' ∉ password) (rest : List Char) :
    maskChars ("://".toList ++ (user ++ ':' :: (password ++ '@' :: rest))) =
      "://".toList ++ (user ++ ':' :: ("***".toList ++ '@' :: rest)) := by
  have hcred : credentials (':' :: ("//".toList ++ (user ++ ':' :: (password ++ '@' :: rest)))) =
      some (user, password, rest) := credentials_text huser hpassword rest
  change maskChars (':' :: ("//".toList ++ (user ++ ':' :: (password ++ '@' :: rest)))) = _
  rw [maskChars, hcred]
  dsimp only
  rw [List.append_assoc, List.append_assoc]
  rfl

/-- A password is hidden as a whole exactly when it has no `@`. -/
theorem password_hidden_iff {user password : List Char} (huser : ':' ∉ user)
    (rest : List Char) :
    maskChars ("://".toList ++ (user ++ ':' :: (password ++ '@' :: rest))) =
      "://".toList ++ (user ++ ':' :: ("***".toList ++ '@' :: rest)) ↔ '@' ∉ password := by
  constructor
  · intro hmask hat
    obtain ⟨front, back, rfl, hfront⟩ := List.eq_append_cons_of_mem hat
    rw [List.append_assoc, List.cons_append, maskChars_credentials huser hfront] at hmask
    -- The mask ends at the first `@`, so the rest of the password is left.
    have hrest := List.append_cancel_left (List.cons.inj (List.append_cancel_left
      (List.append_cancel_left hmask))).2
    have hlength := congrArg List.length (List.cons.inj hrest).2
    rw [List.length_append, List.length_cons] at hlength
    omega
  · exact fun hpassword => maskChars_credentials huser hpassword rest

theorem passwordless_iff {userinfo : List Char} (huser : ':' ∉ userinfo) (place : List Char) :
    maskChars ("://".toList ++ (userinfo ++ place)) = "://".toList ++ (userinfo ++ place) ↔
      ∀ found ∈ marked place, found = "***".toList := by
  rw [maskChars_eq_self_iff, passwordChars_scheme, marked_append huser]

/-- A masked URL is the URL with three asterisks for its password exactly when the first `@` that
follows a colon is the one that ends the password. -/
theorem masks_iff (url : ConnectionUrl) :
    maskUrl (String.ofList url.text) = String.ofList url.masked.text ↔ url.Clear := by
  have huser := url.user_plain
  have hclear : url.Clear ↔ (∀ password ∈ url.password, '@' ∉ password) ∧
      (url.password = none → ∀ found ∈ marked url.place, found = "***".toList) :=
    ⟨fun h => ⟨h.password, h.place⟩, fun h => ⟨h.1, h.2⟩⟩
  rw [maskUrl, String.toList_ofList (l := url.text), String.ofList_inj, maskChars_text,
    ConnectionUrl.text, hclear]
  change url.scheme ++ _ = url.scheme ++ ("://".toList ++ (_ ++ url.place)) ↔ _
  rw [List.append_cancel_left_eq, ConnectionUrl.password, ConnectionUrl.masked]
  dsimp only
  generalize url.place = place
  generalize url.userinfo = userinfo at huser ⊢
  rcases userinfo with _ | ⟨user, _ | password⟩
  · refine (@passwordless_iff [] List.not_mem_nil place).trans ?_
    simp
  · have hno : ':' ∉ user ++ ['@'] := by
      rw [List.mem_append, not_or]
      exact ⟨huser (user, none) rfl, by decide⟩
    refine (passwordless_iff hno place).trans ?_
    simp
  · have hmask := @password_hidden_iff user password (huser (user, some password) rfl) place
    simp only [userinfoText, Option.map_some, List.append_assoc, List.cons_append,
      List.nil_append]
    apply hmask.trans
    simp

/-- A password with an `@` is shown from there on. -/
theorem password_shown : ¬ ∀ url : ConnectionUrl,
    maskUrl (String.ofList url.text) = String.ofList url.masked.text := by
  intro h
  have hmask := h
    { scheme := "postgres".toList
      userinfo := some ("pichost".toList, some "p@ss".toList)
      host := "db".toList
      port := some "5432".toList
      path := "/pichost".toList
      scheme_plain := by decide
      user_plain := by
        rintro info ⟨⟩
        decide
      host_plain := by decide }
  revert hmask
  decide +kernel

end PicHost.MaskedUrls
