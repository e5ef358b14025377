import PicHost.Core.Models
import PicHost.Lib.Table
import Mathlib.Logic.Function.Basic

/-!
# The two invite stores

Instants are nanoseconds since the epoch.
-/

namespace PicHost

open KeyedTable

def nanosPerSecond : ℤ := 1000000000

/-- The text under `%Y-%m-%dT%H:%M:%fZ`: everything down to the minute, then, as chrono's `%f`
has it, the nanoseconds of the second. The second itself is not in the text. -/
structure Stamp where
  minute : ℤ
  fraction : ℤ
deriving DecidableEq

namespace Stamp

def ofInstant (t : Instant) : Stamp := ⟨t / (60 * nanosPerSecond), t % nanosPerSecond⟩

/-- The order of the texts, whose fields have fixed widths. -/
def le (a b : Stamp) : Bool :=
  a.minute < b.minute || (a.minute == b.minute && a.fraction ≤ b.fraction)

end Stamp

inductive InviteVerifyStatus
  | valid
  | used
  | expired
  | notFound
deriving DecidableEq

/-- A row of `invite_codes`. -/
structure InviteCode where
  code : String
  createdBy : String
  expiresAt : Option Stamp
  usedBy : Option String
deriving DecidableEq

/-- The hash `pichost:invite:{code}`: its fields, and when Redis drops it. `expires_at` counts
seconds. -/
structure InviteHash where
  createdBy : Option String
  createdAt : Option ℤ
  expiresAt : Option ℤ
  usedBy : Option String
  deadline : Option Instant
deriving DecidableEq

abbrev InviteCodes := Table (α := InviteCode) InviteCode.code Eq

/-- The invite store of the mode the server runs in. -/
inductive Invites
  | redis (hashes : String → Option InviteHash)
  | sqlite (codes : InviteCodes)

/-- The mode the server runs in. -/
inductive InviteMode
  | redis
  | sqlite
deriving DecidableEq

namespace InviteHash

/-- Redis shows a hash until its deadline. -/
def live (now : Instant) (h : InviteHash) : Bool := h.deadline.all fun d => decide (now < d)

def isUsed (h : InviteHash) : Bool := h.usedBy.any (· ≠ "")

end InviteHash

namespace Invites

def lookup (hashes : String → Option InviteHash) (now : Instant) (code : String) :
    Option InviteHash := (hashes code).filter (InviteHash.live now)

def row (codes : InviteCodes) (code : String) : Option InviteCode :=
  (codes.select fun r => r.code == code).head?

/-- `create`, with `ttlSecs` to live. -/
def create (now : Instant) (code : String) (createdBy : Uuid) (ttlSecs : ℕ) : Invites → Invites
  | .redis hashes => .redis (Function.update hashes code (some
      { createdBy := some createdBy.toText
        createdAt := some (now / nanosPerSecond)
        expiresAt := some (now / nanosPerSecond + ttlSecs)
        usedBy := some ""
        deadline := some (now + ttlSecs * nanosPerSecond) }))
  | .sqlite codes =>
    match codes.insert
      { code
        createdBy := createdBy.toText
        expiresAt := some (Stamp.ofInstant (now + ttlSecs * nanosPerSecond))
        usedBy := none } with
    | some codes => .sqlite codes
    | none => .sqlite codes

/-- `verify_detail` on the row `SELECT` found. -/
def verifyRow (now : Instant) (r : Option InviteCode) : InviteVerifyStatus :=
  match r with
  | none => .notFound
  | some r =>
    if r.usedBy.isSome then .used
    else
      match r.expiresAt with
      | none => .valid
      | some expires => if expires.le (Stamp.ofInstant now) then .expired else .valid

/-- `verify_invite_code` on the fields `HGETALL` found; a hash that is gone has none. -/
def verifyFields (now : Instant) (h : Option InviteHash) : InviteVerifyStatus :=
  match h with
  | none => .valid
  | some h =>
    if h.isUsed then .used
    else
      match h.expiresAt with
      | none => .valid
      | some expires => if now / nanosPerSecond > expires then .expired else .valid

/-- `UPDATE … WHERE code = ? AND used_by IS NULL`; says whether a row was changed. -/
def consumeRow (code : String) (usedBy : Uuid) (codes : InviteCodes) : Bool × InviteCodes :=
  let p : InviteCode → Bool := fun r => r.code == code && r.usedBy.isNone
  (codes.anyRow p, codes.update p (fun r => { r with usedBy := some usedBy.toText }) fun _ => rfl)

/-- `HSET used_by`: a hash that is gone comes back with this field alone. -/
def consumeFields (now : Instant) (code : String) (usedBy : Uuid)
    (hashes : String → Option InviteHash) : String → Option InviteHash :=
  Function.update hashes code <| some <|
    match lookup hashes now code with
    | some h => { h with usedBy := some usedBy.toText }
    | none => ⟨none, none, none, some usedBy.toText, none⟩

/-- A store without codes. -/
def empty : InviteMode → Invites
  | .redis => .redis fun _ => none
  | .sqlite => .sqlite Table.empty

/-- The store shows a record of the code. -/
def present (now : Instant) (code : String) : Invites → Bool
  | .redis hashes => (lookup hashes now code).isSome
  | .sqlite codes => (row codes code).isSome

def isSqlite : Invites → Bool
  | .redis _ => false
  | .sqlite _ => true

/-- The store records a use of the code. -/
def used (now : Instant) (code : String) : Invites → Bool
  | .redis hashes => (lookup hashes now code).any InviteHash.isUsed
  | .sqlite codes => codes.anyRow fun r => r.code == code && r.usedBy.isSome

end Invites

namespace InviteHash

theorem live_iff {now : Instant} {h : InviteHash} :
    h.live now = true ↔ ∀ d, h.deadline = some d → now < d := by
  cases hd : h.deadline with
  | none => simp [live, hd]
  | some d => simp [live, hd]

end InviteHash

namespace Invites

theorem lookup_eq_some {hashes : String → Option InviteHash} {now : Instant} {code : String}
    {h : InviteHash} : lookup hashes now code = some h ↔ hashes code = some h ∧ h.live now = true :=
  Option.filter_eq_some_iff

theorem lookup_update_ne {hashes : String → Option InviteHash} {now : Instant}
    {code code' : String} (h : Option InviteHash) (hne : code' ≠ code) :
    lookup (Function.update hashes code h) now code' = lookup hashes now code' := by
  simp only [lookup, Function.update_of_ne hne]

theorem toText_ne_empty (id : Uuid) : id.toText ≠ "" := by
  intro h
  have hlen := congrArg String.length h
  rw [Uuid.length_toText] at hlen
  exact absurd hlen (by decide)

/-- A consumed code is used. -/
theorem used_consumeFields {now : Instant} {code : String} {usedBy : Uuid}
    {hashes : String → Option InviteHash} :
    used now code (.redis (consumeFields now code usedBy hashes)) = true := by
  have hne := toText_ne_empty usedBy
  simp only [used, Option.any_eq_true]
  cases h : lookup hashes now code with
  | none =>
    refine ⟨⟨none, none, none, some usedBy.toText, none⟩, lookup_eq_some.mpr ⟨?_, rfl⟩, ?_⟩
    · simp [consumeFields, h]
    · simp [InviteHash.isUsed, hne]
  | some hash =>
    refine ⟨{ hash with usedBy := some usedBy.toText }, lookup_eq_some.mpr ⟨?_, ?_⟩, ?_⟩
    · simp [consumeFields, h]
    · exact (lookup_eq_some.mp h).2
    · simp [InviteHash.isUsed, hne]

theorem used_consumeFields_ne {now now' : Instant} {code code' : String} {usedBy : Uuid}
    {hashes : String → Option InviteHash} (hne : code' ≠ code) :
    used now' code' (.redis (consumeFields now code usedBy hashes)) =
      used now' code' (.redis hashes) := by
  simp only [used, consumeFields, lookup_update_ne _ hne]

theorem used_sqlite_iff {now : Instant} {code : String} {codes : InviteCodes} :
    used now code (.sqlite codes) = true ↔
      ∃ r ∈ codes.rows, r.code = code ∧ r.usedBy.isSome = true := by
  simp [used]

/-- A successful `UPDATE` uses the code. -/
theorem used_consumeRow {now : Instant} {code : String} {usedBy : Uuid} {codes : InviteCodes}
    (h : (consumeRow code usedBy codes).1 = true) :
    used now code (.sqlite (consumeRow code usedBy codes).2) = true := by
  obtain ⟨r, hr, hp⟩ := Table.anyRow_iff.mp h
  have hcode : r.code = code := by
    rw [Bool.and_eq_true, beq_iff_eq] at hp
    exact hp.1
  exact used_sqlite_iff.mpr ⟨{ r with usedBy := some usedBy.toText },
    Table.mem_updated_iff.mpr (.inr ⟨r, hr, hp, rfl⟩), hcode, rfl⟩

/-- What was used stays used. -/
theorem used_consumeRow_of_used {now now' : Instant} {code code' : String} {usedBy : Uuid}
    {codes : InviteCodes} (h : used now code' (.sqlite codes) = true) :
    used now' code' (.sqlite (consumeRow code usedBy codes).2) = true := by
  obtain ⟨r, hr, hcode, hused⟩ := used_sqlite_iff.mp h
  refine used_sqlite_iff.mpr ⟨r, ?_, hcode, hused⟩
  refine Table.mem_updated_iff.mpr (.inl ⟨hr, ?_⟩)
  cases hu : r.usedBy with
  | none => simp [hu] at hused
  | some id => simp

/-- Creating a code says nothing about the others. -/
theorem used_create_ne {now now' : Instant} {code code' : String} {createdBy : Uuid} {ttlSecs : ℕ}
    (invites : Invites) (hne : code' ≠ code) :
    (invites.create now code createdBy ttlSecs).used now' code' = invites.used now' code' := by
  cases invites with
  | redis hashes => simp only [create, used, lookup_update_ne _ hne]
  | sqlite codes =>
    simp only [create]
    split
    · rename_i codes' hins
      rw [Bool.eq_iff_iff, used_sqlite_iff, used_sqlite_iff]
      constructor
      · rintro ⟨r, hr, hcode, hused⟩
        rcases (Table.mem_of_insert hins).mp hr with hr | rfl
        · exact ⟨r, hr, hcode, hused⟩
        · exact absurd hcode.symm hne
      · rintro ⟨r, hr, hr'⟩
        exact ⟨r, (Table.mem_of_insert hins).mpr (.inl hr), hr'⟩
    · rfl

theorem row_eq_some {codes : InviteCodes} {code : String} {r : InviteCode}
    (h : row codes code = some r) : r ∈ codes.rows ∧ r.code = code := by
  obtain ⟨hr, hp⟩ := Table.mem_of_select_head? h
  exact ⟨hr, by simpa using hp⟩

/-- A code that is used has a row that says so, and only that row. -/
theorem used_of_row {now : Instant} {codes : InviteCodes} {code : String} {r : InviteCode}
    (h : row codes code = some r) : used now code (.sqlite codes) = r.usedBy.isSome := by
  obtain ⟨hr, hcode⟩ := row_eq_some h
  cases hu : r.usedBy.isSome with
  | true => exact used_sqlite_iff.mpr ⟨r, hr, hcode, hu⟩
  | false =>
    rw [← Bool.not_eq_true, used_sqlite_iff]
    rintro ⟨q, hq, hqc, hqu⟩
    have hqr := codes.eq_of_clash (fun _ _ => Eq.symm) hq hr (hqc.trans hcode.symm)
    rw [hqr, hu] at hqu
    cases hqu

/-- What the store holds agrees with when the codes expire: a hash that came back after its
deadline is used. -/
structure Linked (invites : Invites) (expiry : String → Option Instant) : Prop where
  row : ∀ codes, invites = .sqlite codes → ∀ r ∈ codes.rows, ∃ t, expiry r.code = some t ∧
    r.expiresAt = some (Stamp.ofInstant t)
  hash : ∀ hashes, invites = .redis hashes → ∀ code h, hashes code = some h →
    (∃ t, expiry code = some t ∧ h.deadline = some t) ∨ h.deadline = none ∧ h.isUsed = true

theorem linked_empty (mode : InviteMode) : Linked (empty mode) fun _ => none where
  row codes h r hr := by
    cases mode with
    | redis => cases h
    | sqlite =>
      cases h
      exact absurd hr List.not_mem_nil
  hash hashes h code h' hh := by
    cases mode with
    | redis =>
      cases h
      cases hh
    | sqlite => cases h

namespace Linked

variable {invites : Invites} {expiry : String → Option Instant}

theorem create (h : Linked invites expiry) (now : Instant) {code : String}
    (hfresh : expiry code = none) (createdBy : Uuid) (ttlSecs : ℕ) :
    Linked (invites.create now code createdBy ttlSecs)
      (Function.update expiry code (some (now + ttlSecs * nanosPerSecond))) := by
  cases invites with
  | redis hashes =>
    refine ⟨fun codes he => (nomatch he), fun hashes' he code' hash hh => ?_⟩
    cases he
    by_cases hc : code' = code
    · subst hc
      rw [Function.update_self] at hh
      cases hh
      exact .inl ⟨_, Function.update_self .., rfl⟩
    · rw [Function.update_of_ne hc] at hh
      rw [Function.update_of_ne hc]
      exact h.hash hashes rfl code' hash hh
  | sqlite codes =>
    -- the rows there were belong to other codes
    have hold : ∀ r ∈ codes.rows, ∃ t,
        Function.update expiry code (some (now + ttlSecs * nanosPerSecond)) r.code = some t ∧
        r.expiresAt = some (Stamp.ofInstant t) := by
      intro r hr
      obtain ⟨t, ht, hs⟩ := h.row codes rfl r hr
      have hne : r.code ≠ code := by
        intro heq
        rw [heq, hfresh] at ht
        cases ht
      exact ⟨t, by rwa [Function.update_of_ne hne], hs⟩
    simp only [Invites.create]
    split
    · rename_i codes' hins
      refine ⟨fun codes'' he r hr => ?_, fun hashes he => (nomatch he)⟩
      cases he
      rcases (Table.mem_of_insert hins).mp hr with hr | rfl
      · exact hold r hr
      · exact ⟨_, Function.update_self .., rfl⟩
    · refine ⟨fun codes'' he r hr => ?_, fun hashes he => (nomatch he)⟩
      cases he
      exact hold r hr

theorem consumeRow {codes : InviteCodes} (h : Linked (.sqlite codes) expiry) (code : String)
    (usedBy : Uuid) : Linked (.sqlite (Invites.consumeRow code usedBy codes).2) expiry := by
  refine ⟨fun codes' he r hr => ?_, fun hashes he => (nomatch he)⟩
  cases he
  rcases Table.mem_updated_iff.mp hr with ⟨hr, -⟩ | ⟨q, hq, -, rfl⟩
  · exact h.row codes rfl r hr
  · exact h.row codes rfl q hq

theorem consumeFields {hashes : String → Option InviteHash} (h : Linked (.redis hashes) expiry)
    (now : Instant) (code : String) (usedBy : Uuid) :
    Linked (.redis (Invites.consumeFields now code usedBy hashes)) expiry := by
  have hne := toText_ne_empty usedBy
  refine ⟨fun codes he => (nomatch he), fun hashes' he code' hash hh => ?_⟩
  cases he
  by_cases hc : code' = code
  · subst hc
    simp only [Invites.consumeFields, Function.update_self, Option.some.injEq] at hh
    cases hl : lookup hashes now code' with
    | none =>
      rw [hl] at hh
      subst hh
      exact .inr ⟨rfl, by simp [InviteHash.isUsed, hne]⟩
    | some hash' =>
      rw [hl] at hh
      subst hh
      rcases h.hash hashes rfl code' hash' (lookup_eq_some.mp hl).1 with hd | ⟨hd, -⟩
      · exact .inl hd
      · exact .inr ⟨hd, by simp [InviteHash.isUsed, hne]⟩
  · rw [Invites.consumeFields, Function.update_of_ne hc] at hh
    exact h.hash hashes rfl code' hash hh

/-- A use is on record until the code expires. -/
theorem used_later (h : Linked invites expiry) {now later : Instant} {code : String}
    (hused : invites.used now code = true) :
    invites.used later code = true ∨ ∃ t, expiry code = some t ∧ t ≤ later := by
  cases invites with
  | sqlite codes => exact .inl hused
  | redis hashes =>
    simp only [used, Option.any_eq_true] at hused
    obtain ⟨hash, hl, hu⟩ := hused
    obtain ⟨hh, -⟩ := lookup_eq_some.mp hl
    by_cases hlive : hash.live later = true
    · refine .inl ?_
      simp only [used, Option.any_eq_true]
      exact ⟨hash, lookup_eq_some.mpr ⟨hh, hlive⟩, hu⟩
    · rcases h.hash hashes rfl code hash hh with ⟨t, ht, hd⟩ | ⟨hd, -⟩
      · refine .inr ⟨t, ht, ?_⟩
        simpa [InviteHash.live, hd] using hlive
      · exact absurd (by simp [InviteHash.live, hd]) hlive

/-- A row found valid outside the rest of the minute in which it expired is good. -/
theorem good_of_verifyRow {codes : InviteCodes} (h : Linked (.sqlite codes) expiry)
    {now : Instant} {code : String}
    (htimely : ∀ t ∈ expiry code, t ≤ now → (Stamp.ofInstant t).le (Stamp.ofInstant now) = true)
    (hvalid : verifyRow now (Invites.row codes code) = .valid) :
    ∃ t, expiry code = some t ∧ now < t ∧ used now code (.sqlite codes) = false := by
  cases hr : Invites.row codes code with
  | none =>
    rw [hr] at hvalid
    cases hvalid
  | some r =>
    obtain ⟨hmem, hcode⟩ := row_eq_some hr
    obtain ⟨t, ht, hs⟩ := h.row codes rfl r hmem
    rw [hcode] at ht
    simp only [hr, verifyRow, hs] at hvalid
    cases hu : r.usedBy.isSome with
    | true => simp [hu] at hvalid
    | false =>
      refine ⟨t, ht, ?_, by rw [used_of_row hr, hu]⟩
      by_contra hlate
      rw [hu, htimely t ht (not_lt.mp hlate)] at hvalid
      cases hvalid

/-- Fields found valid while the hash is there are good. -/
theorem good_of_verifyFields {hashes : String → Option InviteHash}
    (h : Linked (.redis hashes) expiry) {now : Instant} {code : String}
    (hpresent : (lookup hashes now code).isSome = true)
    (hvalid : verifyFields now (lookup hashes now code) = .valid) :
    ∃ t, expiry code = some t ∧ now < t ∧ used now code (.redis hashes) = false := by
  obtain ⟨hash, hl⟩ := Option.isSome_iff_exists.mp hpresent
  obtain ⟨hh, hlive⟩ := lookup_eq_some.mp hl
  simp only [hl, verifyFields] at hvalid
  cases hu : hash.isUsed with
  | true => simp [hu] at hvalid
  | false =>
    rcases h.hash hashes rfl code hash hh with ⟨t, ht, hd⟩ | ⟨-, hused⟩
    · exact ⟨t, ht, InviteHash.live_iff.mp hlive t hd, by simp [used, hl, hu]⟩
    · rw [hu] at hused
      cases hused

end Linked

end Invites

end PicHost
