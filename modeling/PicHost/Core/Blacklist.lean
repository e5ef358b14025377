import PicHost.Core.Timestamps
import Mathlib.Logic.Function.Basic

/-!
# The two token blacklists

Instants and durations are nanoseconds.
-/

namespace PicHost

open Timestamps

/-- `bl:{jti}` with its deadline in Redis, or the rows of `token_blacklist`. -/
inductive Blacklist
  | redis (deadlines : String → Option ℕ)
  | sqlite (expiresAt : String → Option (List Char))

/-- `chrono::Duration::from_std(ttl).unwrap_or_default()`: at most `i64::MAX` milliseconds. -/
def fromStd (ttl : ℕ) : ℕ := if ttl ≤ (2 ^ 63 - 1) * 1000000 then ttl else 0

namespace Blacklist

/-- Without entries. -/
def emptyRedis : Blacklist := .redis fun _ => none

def emptySqlite : Blacklist := .sqlite fun _ => none

def isRedis : Blacklist → Bool
  | .redis _ => true
  | .sqlite _ => false

/-- A key of Redis or a row of SQLite. -/
inductive Entry
  | redis (deadline : ℕ)
  | sqlite (expiresAt : List Char)

namespace Entry

/-- The key is still there, or `expires_at > strftime(…)`. -/
def inForce (now : ℕ) : Entry → Bool
  | .redis deadline => now < deadline
  | .sqlite expiresAt => (strftime now).any fun text => decide (text < expiresAt)

/-- It was written to expire before the bound. -/
def Lapses (bound : ℕ) : Entry → Prop
  | .redis deadline => deadline < bound
  | .sqlite expiresAt => ∃ e < bound, expiresAt = chronoFormat e

end Entry

def entry (jti : String) : Blacklist → Option Entry
  | .redis deadlines => (deadlines jti).map .redis
  | .sqlite expiresAt => (expiresAt jti).map .sqlite

def check (now : ℕ) (jti : String) (blacklist : Blacklist) : Bool :=
  (blacklist.entry jti).any (Entry.inForce now)

/-- `none` where Redis refuses the lifetime, which is of whole seconds. -/
def revoke (now : ℕ) (jti : String) (ttl : ℕ) : Blacklist → Option Blacklist
  | .redis deadlines =>
    let secs := ttl / secondNanos
    if 0 < secs ∧ now / 1000000 + secs * 1000 < 2 ^ 63 then
      some (.redis (Function.update deadlines jti (some (now + secs * secondNanos))))
    else none
  | .sqlite expiresAt =>
    some (.sqlite (Function.update expiresAt jti (some (chronoFormat (now + fromStd ttl)))))

/-- What `revoke` writes. -/
def newEntry (now ttl : ℕ) : Blacklist → Entry
  | .redis _ => .redis (now + ttl / secondNanos * secondNanos)
  | .sqlite _ => .sqlite (chronoFormat (now + fromStd ttl))

/-- The token is on the blacklist from its revocation until the lifetime is over. -/
def Sound (blacklist : Blacklist) (jti : String) (now ttl : ℕ) : Prop :=
  ∃ blacklist', blacklist.revoke now jti ttl = some blacklist' ∧
    ∀ t, now ≤ t → (blacklist'.check t jti = true ↔ t < now + ttl)

namespace Entry

/-- Until the year 10000 the row is compared by minutes, and within one by the second of now
and the hundredths of a second of the expiry. -/
theorem inForce_sqlite_iff {t e : ℕ} (he : e < year10000) :
    inForce t (.sqlite (chronoFormat e)) = true ↔ t < year10000 ∧
      (t / minuteNanos < e / minuteNanos ∨
        t / minuteNanos = e / minuteNanos ∧ t / secondNanos % 60 ≤ e % secondNanos / 10 ^ 7) := by
  simp only [inForce]
  cases hnow : strftime t with
  | none =>
    apply iff_of_false Bool.false_ne_true
    intro h
    rw [strftime, if_pos h.1] at hnow
    cases hnow
  | some text =>
    have ht : t < year10000 := by
      by_contra hle
      rw [strftime, if_neg hle] at hnow
      cases hnow
    simp only [Option.any_some, decide_eq_true_eq, ht, true_and,
      strftime_lt_chronoFormat_iff hnow he]

/-- From the year 10000 on the row is never in force. -/
theorem inForce_sqlite_of_late {t e : ℕ} (he : year10000 ≤ e) :
    inForce t (.sqlite (chronoFormat e)) = false := by
  simp only [inForce]
  cases hnow : strftime t with
  | none => rfl
  | some text => exact decide_eq_false (not_strftime_lt_chronoFormat hnow he)

/-- A row is gone a minute after its expiry at the latest. -/
theorem inForce_sqlite_later {t e : ℕ} (ht : e / minuteNanos < t / minuteNanos) :
    inForce t (.sqlite (chronoFormat e)) = false := by
  by_cases he : e < year10000
  · rw [← Bool.not_eq_true, inForce_sqlite_iff he]
    omega
  · exact inForce_sqlite_of_late (Nat.le_of_not_lt he)

/-- A minute after the second in which it expires an entry of either kind is gone. -/
theorem Lapses.inForce {entry : Entry} {sec t : ℕ} (h : entry.Lapses ((sec + 1) * secondNanos))
    (ht : (sec + 60) * secondNanos ≤ t) : entry.inForce t = false := by
  cases entry with
  | redis deadline =>
    simp only [Lapses, secondNanos] at h ht
    exact decide_eq_false (by omega)
  | sqlite expiresAt =>
    obtain ⟨e, he, rfl⟩ := h
    apply inForce_sqlite_later
    simp only [minuteNanos, secondNanos] at he ht ⊢
    omega

end Entry

/-- The entry a revocation leaves for its token. -/
theorem entry_revoke {blacklist blacklist' : Blacklist} {now ttl : ℕ} {jti : String}
    (h : blacklist.revoke now jti ttl = some blacklist') :
    blacklist'.entry jti = some (blacklist.newEntry now ttl) := by
  cases blacklist with
  | redis deadlines =>
    simp only [revoke] at h
    split at h
    · cases h
      simp [entry, newEntry]
    · cases h
  | sqlite expiresAt =>
    cases h
    simp [entry, newEntry]

theorem fromStd_le (ttl : ℕ) : fromStd ttl ≤ ttl := by
  unfold fromStd
  split <;> omega

theorem lapses_newEntry (blacklist : Blacklist) {now ttl bound : ℕ} (h : now + ttl < bound) :
    (blacklist.newEntry now ttl).Lapses bound := by
  cases blacklist with
  | redis deadlines =>
    exact lt_of_le_of_lt (Nat.add_le_add_left (Nat.div_mul_le_self ttl secondNanos) now) h
  | sqlite expiresAt =>
    exact ⟨_, lt_of_le_of_lt (Nat.add_le_add_left (fromStd_le ttl) now) h, rfl⟩

/-- Redis takes no lifetime of zero. -/
theorem pos_of_revoke {blacklist blacklist' : Blacklist} {now ttl : ℕ} {jti : String}
    (hredis : blacklist.isRedis = true) (h : blacklist.revoke now jti ttl = some blacklist') :
    0 < ttl := by
  cases blacklist with
  | redis deadlines =>
    simp only [revoke] at h
    split at h
    · rename_i hsecs
      exact Nat.pos_of_ne_zero fun h0 => absurd hsecs.1 (by simp [h0])
    · cases h
  | sqlite expiresAt => cases hredis

/-- The entries of other tokens are left alone. -/
theorem entry_revoke_ne {blacklist blacklist' : Blacklist} {now ttl : ℕ} {jti jti' : String}
    (h : blacklist.revoke now jti ttl = some blacklist') (hne : jti' ≠ jti) :
    blacklist'.entry jti' = blacklist.entry jti' := by
  cases blacklist with
  | redis deadlines =>
    simp only [revoke] at h
    split at h
    · cases h
      simp [entry, hne]
    · cases h
  | sqlite expiresAt =>
    cases h
    simp [entry, hne]

theorem isRedis_revoke {blacklist blacklist' : Blacklist} {now ttl : ℕ} {jti : String}
    (h : blacklist.revoke now jti ttl = some blacklist') :
    blacklist'.isRedis = blacklist.isRedis := by
  cases blacklist with
  | redis deadlines =>
    simp only [revoke] at h
    split at h
    · cases h
      rfl
    · cases h
  | sqlite expiresAt =>
    cases h
    rfl

theorem check_of_entry {blacklist : Blacklist} {t : ℕ} {jti : String} {e : Entry}
    (h : blacklist.entry jti = some e) : blacklist.check t jti = e.inForce t := by
  rw [check, h, Option.any_some]

/-- An expiry that is over on its own second, when the instant before was not, is on the first
second of a minute. -/
theorem first_second {e : ℕ} (hfirst : e % 1000000000 / 10000000 < e / 1000000000 % 60)
    (hlast : (e - 1) / 60000000000 < e / 60000000000 ∨
      (e - 1) / 1000000000 % 60 ≤ e % 1000000000 / 10000000) : e % 60000000000 = 1000000000 := by
  have hminute : ∀ n : ℕ, n / 60000000000 = n / 1000000000 / 60 := fun n => by omega
  have hsplit : e = 1000000000 * (e / 1000000000) + e % 1000000000 := (Nat.div_add_mod _ _).symm
  rw [hminute, hminute e] at hlast
  by_cases hr : e % 1000000000 = 0
  · -- on a full second the instant before is in the second before
    have hprev : (e - 1) / 1000000000 = e / 1000000000 - 1 := by omega
    rw [hprev] at hlast
    rw [hr] at hfirst hlast
    have hone : e / 1000000000 % 60 = 1 := by omega
    omega
  · have hprev : (e - 1) / 1000000000 = e / 1000000000 := by omega
    rw [hprev] at hlast
    omega

/-- The entry of SQLite lasts as long as it should exactly when it expires on the first second
of a minute, before the year 10000. -/
theorem sqlite_sound_iff (expiresAt : String → Option (List Char)) (jti : String) (now ttl : ℕ)
    (httl : secondNanos ≤ ttl) :
    Sound (.sqlite expiresAt) jti now ttl ↔
      (now + ttl) % minuteNanos = secondNanos ∧ now + ttl < year10000 := by
  have hyear : year10000 = 253402300800000000000 := by decide
  constructor
  · rintro ⟨blacklist', hrevoke, hcheck⟩
    simp only [check_of_entry (entry_revoke hrevoke), newEntry] at hcheck
    have hstd : fromStd ttl = ttl := by
      by_contra hne
      -- the row would expire at once
      have hnow : fromStd ttl = 0 := if_neg fun h => hne (if_pos h)
      have hlong : minuteNanos < ttl := by
        by_contra hle
        exact hne (if_pos ((Nat.le_of_not_lt hle).trans (by decide)))
      have hlater := (hcheck (now + minuteNanos) (Nat.le_add_right _ _)).mpr (by omega)
      rw [Entry.inForce_sqlite_later] at hlater
      · cases hlater
      · rw [hnow, Nat.add_zero, Nat.add_div_right _ (by decide)]
        exact Nat.lt_succ_self _
    rw [hstd] at hcheck
    have hpos : 0 < ttl := lt_of_lt_of_le (by decide) httl
    by_cases he : now + ttl < year10000
    · refine ⟨?_, he⟩
      -- the last instant of the lifetime and the first after it
      have hlast := (hcheck (now + ttl - 1) (by omega)).mpr (by omega)
      have hfirst := mt (hcheck (now + ttl) (Nat.le_add_right _ _)).mp (Nat.lt_irrefl _)
      rw [Entry.inForce_sqlite_iff he] at hlast hfirst
      refine first_second (Nat.lt_of_not_le fun h => hfirst ⟨he, .inr ⟨rfl, h⟩⟩) ?_
      exact hlast.2.imp_right And.right
    · have hfirst := (hcheck now le_rfl).mpr (by omega)
      rw [Entry.inForce_sqlite_of_late (Nat.le_of_not_lt he)] at hfirst
      cases hfirst
  · rintro ⟨hmod, he⟩
    have hstd : fromStd ttl = ttl := if_pos (by omega)
    have hrevoke : revoke now jti ttl (.sqlite expiresAt) = some _ := rfl
    refine ⟨_, hrevoke, fun t ht => ?_⟩
    rw [check_of_entry (entry_revoke hrevoke)]
    simp only [newEntry, hstd, Entry.inForce_sqlite_iff he]
    simp only [minuteNanos, secondNanos] at hmod ⊢
    omega

theorem sqlite_sound_first_second : Sound emptySqlite "a" secondNanos (60 * secondNanos) :=
  (sqlite_sound_iff _ _ _ _ (by decide)).mpr (by decide)

/-- A token revoked at half past the minute for a quarter of an hour is off the blacklist in the
middle of the first half of the last minute. -/
theorem sqlite_not_sound : secondNanos ≤ 900 * secondNanos ∧
    ¬ Sound emptySqlite "a" (30 * secondNanos) (900 * secondNanos) := by
  refine ⟨by decide, ?_⟩
  rintro ⟨blacklist', hrevoke, hcheck⟩
  have hlisted := (hcheck (915 * secondNanos) (by decide)).mpr (by decide)
  rw [check_of_entry (entry_revoke hrevoke)] at hlisted
  have hforce := (Entry.inForce_sqlite_iff (by decide)).mp hlisted
  exact absurd hforce (by decide)

end Blacklist

end PicHost
