import PicHost.Api.InviteStores
import PicHost.Lib.Run

/-!
# Invite stores in lockstep

The same calls at the same instants to both stores.
-/

namespace PicHost.InviteParity

open KeyedTable LabelledRun Timestamps InviteStores

/-- `codes` is history: what a store is meant to know of each code, its expiry and whether it
has been used. -/
structure State where
  now : ℕ
  redis : RedisInviteStore
  sqlite : SqliteInviteStore
  codes : String → Option (ℕ × Bool)

inductive Action
  | tick (d : ℕ)
  | create (code : String) (createdBy : Uuid) (ttlSecs : ℕ)
  | verify (code : String)
  | verifyDetail (code : String)
  | consume (code : String) (usedBy : Uuid)
  | list

/-- A code is used while it is good. -/
def consumed (now : ℕ) : Option (ℕ × Bool) → Option (ℕ × Bool)
  | some (expiry, used) => some (expiry, used || decide (now < expiry))
  | none => none

/-- Codes are distinct: no code is created twice. -/
def step (s : State) : Action → State
  | .tick d => { s with now := s.now + d }
  | .create code createdBy ttlSecs =>
    if s.codes code = none then
      { s with
        redis := (s.redis.create s.now code createdBy ttlSecs).2
        sqlite := (s.sqlite.create s.now code createdBy ttlSecs).2
        codes := Function.update s.codes code (some (s.now + ttlSecs * secondNanos, false)) }
    else s
  | .consume code usedBy =>
    { s with
      redis := (s.redis.consume s.now code usedBy).2
      sqlite := (s.sqlite.consume code usedBy).2
      codes := Function.update s.codes code (consumed s.now (s.codes code)) }
  | .list => { s with redis := (s.redis.list s.now).2 }
  | .verify _ | .verifyDetail _ => s

def start (now : ℕ) : State := ⟨now, ⟨fun _ => none, []⟩, Table.empty, fun _ => none⟩

/-- The code exists, is unused, and now is before its expiry. -/
def Good (s : State) (code : String) : Prop :=
  ∃ expiry, s.codes code = some (expiry, false) ∧ s.now < expiry

/-- Within each store both look-ups find exactly the good codes. -/
structure Sound (s : State) (code : String) : Prop where
  redisVerify : s.redis.verify s.now code = true ↔ Good s code
  redisDetail : s.redis.verifyDetail s.now code = .valid ↔ Good s code
  sqliteVerify : s.sqlite.verify s.now code = true ↔ Good s code
  sqliteDetail : s.sqlite.verifyDetail s.now code = .valid ↔ Good s code

/-- What `list` shows of the codes. -/
def shown (result : Except Unit (List InviteCodeInfo)) :
    Except Unit (List (String × Option ℤ)) :=
  result.map fun codes => codes.map fun info => (info.code, info.expiresAt)

/-- Both stores answer the call alike, and a look-up as it is meant. -/
def Agrees (column : DateTimeColumn) (s : State) : Action → Prop
  | .tick _ => True
  | .create code createdBy ttlSecs => s.codes code = none →
      (s.redis.create s.now code createdBy ttlSecs).1 =
        (s.sqlite.create s.now code createdBy ttlSecs).1
  | .verify code => s.redis.verify s.now code = s.sqlite.verify s.now code ∧ Sound s code
  | .verifyDetail code =>
      s.redis.verifyDetail s.now code = s.sqlite.verifyDetail s.now code ∧ Sound s code
  | .consume code usedBy =>
      (s.redis.consume s.now code usedBy).1 = (s.sqlite.consume code usedBy).1
  | .list => shown (s.redis.list s.now).1 = shown (s.sqlite.list column)

/-- Both comparisons of texts in SQLite tell correctly whether the code has expired. -/
def Sharp (now expiry : ℕ) : Prop :=
  ((strftime now).any (fun text => decide (text < chronoFormat expiry)) = true ↔ now < expiry) ∧
    (chronoFormat expiry ≤ chronoFormat now ↔ expiry ≤ now)

/-- Codes expire within chrono's dates; an unused code is looked up when its expiry is told
correctly, in detail only before, and consumed once and before; an expired one is consumed only
if it has been used; and the codes are listed before there are any. -/
def InStep (s : State) : Action → Prop
  | .tick _ => True
  | .create code _ ttlSecs => s.codes code = none →
      s.now < year10000 ∧ s.now + ttlSecs * secondNanos < chronoEnd
  | .verify code => ∀ expiry, s.codes code = some (expiry, false) → Sharp s.now expiry
  | .verifyDetail code => ∀ expiry used, s.codes code = some (expiry, used) →
      s.now < expiry ∧ (used = false → Sharp s.now expiry)
  | .consume code _ => ∀ expiry used, s.codes code = some (expiry, used) →
      (used = true ↔ expiry ≤ s.now)
  | .list => ∀ code, s.codes code = none

/-- The records of a code in the two stores. -/
structure Recorded (redis : RedisInviteStore) (sqlite : SqliteInviteStore) (code : String)
    (expiry : ℕ) (used : Bool) : Prop where
  hash : ∃ h, redis.hashes code = some h ∧ h.deadline = some ↑expiry ∧
    h.expiresAt = some ↑(expiry / secondNanos) ∧ h.isUsed = used
  row : ∃ r ∈ sqlite.rows, r.code = code ∧ r.expiresAt = some (chronoFormat expiry) ∧
    r.usedBy.isSome = used

/-- The stores have records of exactly the codes there are. -/
structure Linked (s : State) : Prop where
  recorded : ∀ code expiry used, s.codes code = some (expiry, used) →
    Recorded s.redis s.sqlite code expiry used
  hash : ∀ code, s.codes code = none → s.redis.hashes code = none
  row : ∀ r ∈ s.sqlite.rows, s.codes r.code ≠ none
  member : ∀ code ∈ s.redis.members, s.codes code ≠ none

theorem linked_start (now : ℕ) : Linked (start now) where
  recorded _ _ _ h := by cases h
  hash _ _ := rfl
  row _ hr := absurd hr List.not_mem_nil
  member _ hm := absurd hm List.not_mem_nil

namespace Linked

variable {s : State} (h : Linked s)
include h

theorem redisDetail_none {code : String} (hcode : s.codes code = none) :
    s.redis.verifyDetail s.now code = .notFound := by
  simp [RedisInviteStore.verifyDetail, Invites.lookup, h.hash code hcode]

/-- Redis shows the hash of a code until its expiry. -/
theorem lookup_eq {code : String} {expiry : ℕ} {used : Bool}
    (hcode : s.codes code = some (expiry, used)) :
    (Invites.lookup s.redis.hashes s.now code).isSome = decide (s.now < expiry) := by
  obtain ⟨hash, hh, hdeadline, -, -⟩ := (h.recorded code expiry used hcode).hash
  by_cases hlive : s.now < expiry <;>
    simp [Invites.lookup, hh, InviteHash.live, hdeadline, hlive, Option.filter]

theorem redisDetail_some {code : String} {expiry : ℕ} {used : Bool}
    (hcode : s.codes code = some (expiry, used)) :
    s.redis.verifyDetail s.now code =
      if s.now < expiry then (if used then .used else .valid) else .notFound := by
  obtain ⟨hash, hh, hdeadline, hexpires, hused⟩ := (h.recorded code expiry used hcode).hash
  have hshown := h.lookup_eq hcode
  rw [RedisInviteStore.verifyDetail]
  by_cases hlive : s.now < expiry
  · rw [decide_eq_true hlive] at hshown
    obtain ⟨hash', hl⟩ := Option.isSome_iff_exists.mp hshown
    cases hh.symm.trans (Invites.lookup_eq_some.mp hl).1
    -- the seconds of the expiry are not over before the expiry is
    have hsecs : ¬ (s.now : ℤ) / nanosPerSecond > ↑(expiry / secondNanos) := by
      simp only [nanosPerSecond, secondNanos]
      omega
    rw [hl]
    simp only [Invites.verifyFields, hexpires, hused, if_neg hsecs, if_pos hlive]
  · rw [decide_eq_false hlive] at hshown
    rw [Option.isNone_iff_eq_none.mp (Option.isSome_eq_false_iff.mp hshown), if_neg hlive]

theorem sqliteRow_none {code : String} (hcode : s.codes code = none) :
    (s.sqlite.select fun r => r.code == code).head? = none := by
  rw [List.head?_eq_none_iff]
  refine List.filter_eq_nil_iff.mpr fun r hr hrc => h.row r hr ?_
  rw [beq_iff_eq.mp hrc, hcode]

theorem sqliteRow_some {code : String} {expiry : ℕ} {used : Bool}
    (hcode : s.codes code = some (expiry, used)) :
    ∃ r, (s.sqlite.select fun r => r.code == code).head? = some r ∧
      r.expiresAt = some (chronoFormat expiry) ∧ r.usedBy.isSome = used := by
  obtain ⟨r, hr, hrc, hexpires, hused⟩ := (h.recorded code expiry used hcode).row
  refine ⟨r, Table.select_head?_of_unique hr (beq_iff_eq.mpr hrc) fun q hq hqc => ?_, hexpires,
    hused⟩
  exact s.sqlite.eq_of_clash (fun _ _ => Eq.symm) hq hr ((beq_iff_eq.mp hqc).trans hrc.symm)

theorem sqliteDetail_none {code : String} (hcode : s.codes code = none) :
    s.sqlite.verifyDetail s.now code = .notFound := by
  rw [SqliteInviteStore.verifyDetail, h.sqliteRow_none hcode]

theorem sqliteDetail_some {code : String} {expiry : ℕ} {used : Bool}
    (hcode : s.codes code = some (expiry, used)) :
    s.sqlite.verifyDetail s.now code =
      if used then .used
      else if chronoFormat expiry ≤ chronoFormat s.now then .expired else .valid := by
  obtain ⟨r, hr, hexpires, hused⟩ := h.sqliteRow_some hcode
  rw [SqliteInviteStore.verifyDetail, hr]
  simp only [hexpires, hused]

/-- A query for rows of a code that satisfy something asks that of its one row. -/
theorem anyRow_some {code : String} {expiry : ℕ} {used : Bool}
    (hcode : s.codes code = some (expiry, used)) {p : InviteRow → Bool} {b : Bool}
    (hp : ∀ r : InviteRow, r.expiresAt = some (chronoFormat expiry) → r.usedBy.isSome = used →
      p r = b) : (s.sqlite.anyRow fun r => r.code == code && p r) = b := by
  obtain ⟨r, hr, hrc, hexpires, hused⟩ := (h.recorded code expiry used hcode).row
  rw [Bool.eq_iff_iff, Table.anyRow_iff]
  constructor
  · rintro ⟨q, hq, hqp⟩
    rw [Bool.and_eq_true, beq_iff_eq] at hqp
    have hqr := s.sqlite.eq_of_clash (fun _ _ => Eq.symm) hq hr (hqp.1.trans hrc.symm)
    rw [← hp r hexpires hused, ← hqr]
    exact hqp.2
  · rintro rfl
    exact ⟨r, hr, by rw [Bool.and_eq_true]; exact ⟨beq_iff_eq.mpr hrc, hp r hexpires hused⟩⟩

theorem anyRow_none {code : String} (hcode : s.codes code = none) (p : InviteRow → Bool) :
    (s.sqlite.anyRow fun r => r.code == code && p r) = false := by
  apply Table.anyRow_eq_false.mpr
  intro r hr
  have hne : r.code ≠ code := fun hrc => h.row r hr (by rw [hrc, hcode])
  rw [beq_eq_false_iff_ne.mpr hne, Bool.false_and]

theorem sqliteVerify_none {code : String} (hcode : s.codes code = none) :
    s.sqlite.verify s.now code = false := by
  simp only [SqliteInviteStore.verify, Bool.and_assoc]
  exact h.anyRow_none hcode _

theorem sqliteVerify_some {code : String} {expiry : ℕ} {used : Bool}
    (hcode : s.codes code = some (expiry, used)) :
    s.sqlite.verify s.now code =
      (!used && (strftime s.now).any fun text => decide (text < chronoFormat expiry)) := by
  simp only [SqliteInviteStore.verify, Bool.and_assoc]
  apply h.anyRow_some hcode
  intro r hexpires hused
  rw [hexpires, Option.all_some, ← hused, Option.not_isSome]

theorem sound_none {code : String} (hcode : s.codes code = none) : Sound s code := by
  have hgood : ¬ Good s code := by
    rintro ⟨expiry, hg, -⟩
    rw [hcode] at hg
    cases hg
  constructor <;>
    simp [RedisInviteStore.verify, h.redisDetail_none hcode, h.sqliteVerify_none hcode,
      h.sqliteDetail_none hcode, hgood]

theorem sound_used {code : String} {expiry : ℕ} (hcode : s.codes code = some (expiry, true)) :
    Sound s code := by
  have hgood : ¬ Good s code := by
    rintro ⟨expiry', hg, -⟩
    rw [hcode] at hg
    cases hg
  have hredis : s.redis.verifyDetail s.now code ≠ .valid := by
    rw [h.redisDetail_some hcode]
    split
    · exact fun hv => by cases hv
    · exact fun hv => by cases hv
  constructor <;>
    simp [RedisInviteStore.verify, hredis, h.sqliteVerify_some hcode, h.sqliteDetail_some hcode,
      hgood]

/-- Redis tells the good codes by their lifetimes, SQLite by two comparisons of texts. -/
theorem sound_unused_iff {code : String} {expiry : ℕ}
    (hcode : s.codes code = some (expiry, false)) : Sound s code ↔ Sharp s.now expiry := by
  have hgood : Good s code ↔ s.now < expiry := by
    constructor
    · rintro ⟨expiry', hg, hlt⟩
      rw [hcode] at hg
      cases hg
      exact hlt
    · exact fun hlt => ⟨expiry, hcode, hlt⟩
  have hredis : s.redis.verifyDetail s.now code = .valid ↔ s.now < expiry := by
    rw [h.redisDetail_some hcode]
    split <;> simp [*]
  have hverify : s.sqlite.verify s.now code = true ↔
      (strftime s.now).any (fun text => decide (text < chronoFormat expiry)) = true := by
    rw [h.sqliteVerify_some hcode, Bool.not_false, Bool.true_and]
  have hdetail : s.sqlite.verifyDetail s.now code = .valid ↔
      ¬ chronoFormat expiry ≤ chronoFormat s.now := by
    rw [h.sqliteDetail_some hcode]
    by_cases hle : chronoFormat expiry ≤ chronoFormat s.now <;> simp [hle]
  constructor
  · intro hs
    refine ⟨hverify.symm.trans (hs.sqliteVerify.trans hgood), ?_⟩
    rw [← not_iff_not, not_le (b := s.now)]
    exact hdetail.symm.trans (hs.sqliteDetail.trans hgood)
  · intro hsharp
    refine ⟨?_, hredis.trans hgood.symm, hverify.trans (hsharp.1.trans hgood.symm),
      hdetail.trans (?_ : _ ↔ _)⟩
    · rw [RedisInviteStore.verify, decide_eq_true_eq, hredis, hgood]
    · rw [hgood, hsharp.2, Nat.not_le]

theorem verify_iff (column : DateTimeColumn) (code : String) :
    Agrees column s (.verify code) ↔ InStep s (.verify code) := by
  cases hcode : s.codes code with
  | none =>
    refine iff_of_true ⟨?_, h.sound_none hcode⟩ fun expiry he => ?_
    · simp [RedisInviteStore.verify, h.redisDetail_none hcode, h.sqliteVerify_none hcode]
    · rw [hcode] at he
      cases he
  | some record =>
    obtain ⟨expiry, used⟩ := record
    cases used with
    | true =>
      have hs := h.sound_used hcode
      refine iff_of_true ⟨?_, hs⟩ fun expiry he => ?_
      · rw [Bool.eq_iff_iff, hs.redisVerify, hs.sqliteVerify]
      · rw [hcode] at he
        cases he
    | false =>
      constructor
      · rintro ⟨-, hs⟩ expiry' he
        cases hcode.symm.trans he
        exact (h.sound_unused_iff hcode).mp hs
      · intro hsharp
        have hs := (h.sound_unused_iff hcode).mpr (hsharp expiry hcode)
        exact ⟨by rw [Bool.eq_iff_iff, hs.redisVerify, hs.sqliteVerify], hs⟩

theorem verifyDetail_iff (column : DateTimeColumn) (code : String) :
    Agrees column s (.verifyDetail code) ↔ InStep s (.verifyDetail code) := by
  cases hcode : s.codes code with
  | none =>
    refine iff_of_true ⟨?_, h.sound_none hcode⟩ fun expiry used he => ?_
    · rw [h.redisDetail_none hcode, h.sqliteDetail_none hcode]
    · rw [hcode] at he
      cases he
  | some record =>
    obtain ⟨expiry, used⟩ := record
    have hred := h.redisDetail_some hcode
    have hsql := h.sqliteDetail_some hcode
    constructor
    · rintro ⟨heq, hs⟩ expiry' used' he
      cases hcode.symm.trans he
      refine ⟨?_, ?_⟩
      · by_contra hlate
        rw [hred, if_neg hlate, hsql] at heq
        repeat' split at heq
        all_goals cases heq
      · rintro rfl
        exact (h.sound_unused_iff hcode).mp hs
    · intro hg
      obtain ⟨hlive, hsharp⟩ := hg expiry used hcode
      cases used with
      | true =>
        refine ⟨?_, h.sound_used hcode⟩
        rw [hred, hsql, if_pos hlive, if_pos rfl, if_pos rfl]
      | false =>
        have hs := (h.sound_unused_iff hcode).mpr (hsharp rfl)
        have hgood : Good s code := ⟨expiry, hcode, hlive⟩
        exact ⟨(hs.redisDetail.mpr hgood).trans (hs.sqliteDetail.mpr hgood).symm, hs⟩

theorem consume_iff (column : DateTimeColumn) (code : String) (usedBy : Uuid) :
    Agrees column s (.consume code usedBy) ↔ InStep s (.consume code usedBy) := by
  have hsql : (s.sqlite.consume code usedBy).1 =
      if s.sqlite.anyRow (fun r => r.code == code && r.usedBy.isNone) then .ok else .err := by
    rw [SqliteInviteStore.consume]
    split <;> rfl
  have hred : (s.redis.consume s.now code usedBy).1 =
      if (Invites.lookup s.redis.hashes s.now code).isSome then .ok else .err := by
    rw [RedisInviteStore.consume]
    split <;> rfl
  rw [Agrees, hsql, hred]
  cases hcode : s.codes code with
  | none =>
    refine iff_of_true ?_ fun expiry used he => ?_
    · rw [h.anyRow_none hcode, Invites.lookup, h.hash code hcode]
      rfl
    · rw [hcode] at he
      cases he
  | some record =>
    obtain ⟨expiry, used⟩ := record
    have hany : (s.sqlite.anyRow fun r => r.code == code && r.usedBy.isNone) = !used :=
      h.anyRow_some hcode fun r _ hused => by rw [← hused, Option.not_isSome]
    rw [hany, h.lookup_eq hcode]
    have hin : InStep s (.consume code usedBy) ↔ (used = true ↔ expiry ≤ s.now) := by
      constructor
      · exact fun hg => hg expiry used hcode
      · intro hg expiry' used' he
        cases hcode.symm.trans he
        exact hg
    rw [hin, ← not_lt]
    by_cases hlive : s.now < expiry <;> cases used <;> simp [hlive]

/-- What SQLite stores for a new code. -/
theorem sqlite_create {code : String} (hcode : s.codes code = none) (createdBy : Uuid)
    {ttlSecs : ℕ} (hnow : s.now < year10000)
    (hend : s.now + ttlSecs * secondNanos < chronoEnd) :
    ∃ row sqlite, s.sqlite.create s.now code createdBy ttlSecs = (.ok, sqlite) ∧
      s.sqlite.insert row = some sqlite ∧ row.code = code ∧
      row.expiresAt = some (chronoFormat (s.now + ttlSecs * secondNanos)) ∧ row.usedBy = none := by
  obtain ⟨text, htext⟩ : ∃ text, strftime s.now = some text := ⟨_, if_pos hnow⟩
  rw [SqliteInviteStore.create, if_pos hend, htext]
  dsimp only
  cases hins : s.sqlite.insert
      { code, createdBy := some createdBy.toText, createdAt := text,
        expiresAt := some (chronoFormat (s.now + ttlSecs * secondNanos)), usedBy := none } with
  | some sqlite => exact ⟨_, sqlite, rfl, hins, rfl, rfl, rfl⟩
  | none =>
    obtain ⟨r, hr, hrc⟩ := Table.insert_eq_none.mp hins
    exact absurd hcode (by rw [← show r.code = code from hrc]; exact h.row r hr)

theorem create_iff (column : DateTimeColumn) (code : String) (createdBy : Uuid) (ttlSecs : ℕ) :
    Agrees column s (.create code createdBy ttlSecs) ↔
      InStep s (.create code createdBy ttlSecs) := by
  have hchrono : chronoEnd = 8210266876800000000000 := by decide
  apply forall_congr'
  intro hcode
  constructor
  · intro hagree
    have hend : s.now + ttlSecs * secondNanos < chronoEnd := by
      by_contra hlate
      rw [SqliteInviteStore.create, if_neg hlate, RedisInviteStore.create] at hagree
      split at hagree <;> cases hagree
    refine ⟨?_, hend⟩
    by_contra hlate
    rw [SqliteInviteStore.create, if_pos hend, strftime, if_neg hlate, RedisInviteStore.create,
      if_pos (by simp only [hchrono, secondNanos] at hend; omega)] at hagree
    cases hagree
  · rintro ⟨hnow, hend⟩
    obtain ⟨row, sqlite, hsql, -⟩ := h.sqlite_create hcode createdBy hnow hend
    rw [hsql, RedisInviteStore.create,
      if_pos (by simp only [hchrono, secondNanos] at hend; omega)]

/-- A row whose expiry does not decode fails the whole list. -/
theorem list_iff (column : DateTimeColumn) :
    Agrees column s .list ↔ InStep s .list := by
  constructor
  · intro hagree code
    by_contra hcode
    obtain ⟨⟨expiry, used⟩, hcode⟩ := Option.ne_none_iff_exists'.mp hcode
    obtain ⟨r, hr, -, hexpires, -⟩ := (h.recorded code expiry used hcode).row
    have herr : s.sqlite.list column = .error () :=
      mapM_decodeRow column (List.mem_mergeSort.mpr hr) (decodeRow_of_expiresAt column hexpires)
    rw [Agrees, herr] at hagree
    cases hagree
  · intro hnone
    have hrows : s.sqlite.rows = [] :=
      List.eq_nil_iff_forall_not_mem.mpr fun r hr => h.row r hr (hnone r.code)
    have hmembers : s.redis.members = [] :=
      List.eq_nil_iff_forall_not_mem.mpr fun code hm => h.member code hm (hnone code)
    simp only [Agrees, RedisInviteStore.list, SqliteInviteStore.list, hrows, hmembers,
      List.filterMap_nil, List.mergeSort_nil]
    rfl

/-- A record is written, and those of other codes are left alone. -/
theorem set {code : String} {expiry : ℕ} {used : Bool} {redis : RedisInviteStore}
    {sqlite : SqliteInviteStore} (hnew : Recorded redis sqlite code expiry used)
    (hhash : ∀ c, c ≠ code → redis.hashes c = s.redis.hashes c)
    (hrow : ∀ r : InviteRow, r.code ≠ code → (r ∈ sqlite.rows ↔ r ∈ s.sqlite.rows))
    (hmember : ∀ c ∈ redis.members, c ≠ code → c ∈ s.redis.members) :
    Linked { s with
      redis, sqlite, codes := Function.update s.codes code (some (expiry, used)) } := by
  have hkept : ∀ c, (c ≠ code → s.codes c ≠ none) →
      Function.update s.codes code (some (expiry, used)) c ≠ none := by
    intro c hc
    by_cases hne : c = code
    · rw [hne, Function.update_self]
      exact Option.some_ne_none _
    · rw [Function.update_of_ne hne]
      exact hc hne
  refine ⟨fun c e u he => ?_, fun c he => ?_, fun r hr => ?_, fun c hc => ?_⟩
  · by_cases hne : c = code
    · subst hne
      cases (Function.update_self c (some (expiry, used)) s.codes).symm.trans he
      exact hnew
    · have hold := h.recorded c e u ((Function.update_of_ne hne ..).symm.trans he)
      obtain ⟨r, hr, hrc, hr'⟩ := hold.row
      exact ⟨by rw [hhash c hne]; exact hold.hash,
        r, (hrow r (by rw [hrc]; exact hne)).mpr hr, hrc, hr'⟩
  · by_cases hne : c = code
    · exact absurd he (hkept c fun hc => absurd hne hc)
    · exact (hhash c hne).trans (h.hash c ((Function.update_of_ne hne ..).symm.trans he))
  · exact hkept r.code fun hne => h.row r ((hrow r hne).mp hr)
  · exact hkept c fun hne => h.member c (hmember c hc hne)

theorem create {code : String} (hcode : s.codes code = none) (createdBy : Uuid) {ttlSecs : ℕ}
    (hnow : s.now < year10000) (hend : s.now + ttlSecs * secondNanos < chronoEnd) :
    Linked (step s (.create code createdBy ttlSecs)) := by
  have hchrono : chronoEnd = 8210266876800000000000 := by decide
  obtain ⟨row, sqlite, hsql, hins, hrow, hexpires, hunused⟩ :=
    h.sqlite_create hcode createdBy hnow hend
  have htaken : s.now / 1000000 + ttlSecs * 1000 < 2 ^ 63 := by
    simp only [hchrono, secondNanos] at hend
    omega
  have hsecs : (s.now + ttlSecs * secondNanos) / secondNanos = s.now / secondNanos + ttlSecs :=
    Nat.add_mul_div_right _ _ (by decide)
  simp only [step, if_pos hcode, hsql, RedisInviteStore.create, if_pos htaken]
  refine h.set ⟨⟨_, Function.update_self .., rfl, congrArg some (by rw [hsecs]), rfl⟩,
      row, (Table.mem_of_insert hins).mpr (.inr rfl), hrow, hexpires, by rw [hunused]; rfl⟩
    (fun c hc => Function.update_of_ne hc ..) (fun r hr => ?_) fun c hc hne => ?_
  · rw [Table.mem_of_insert hins]
    exact or_iff_left fun heq => hr (by rw [heq, hrow])
  · dsimp only at hc
    split at hc
    · exact hc
    · exact (List.mem_append.mp hc).resolve_right fun hc => hne (List.mem_singleton.mp hc)

/-- A call that both stores refuse. -/
theorem consume_refused {code : String} (usedBy : Uuid)
    (hlookup : (Invites.lookup s.redis.hashes s.now code).isSome = false)
    (hany : (s.sqlite.anyRow fun r => r.code == code && r.usedBy.isNone) = false)
    (hcodes : consumed s.now (s.codes code) = s.codes code) :
    Linked (step s (.consume code usedBy)) := by
  simpa only [step, RedisInviteStore.consume, hlookup, SqliteInviteStore.consume, hany, hcodes,
    Function.update_eq_self, Bool.false_eq_true, if_false] using h

theorem consume_taken {code : String} {expiry : ℕ} (hcode : s.codes code = some (expiry, false))
    (hlive : s.now < expiry) (usedBy : Uuid) : Linked (step s (.consume code usedBy)) := by
  obtain ⟨⟨hash, hh, hdeadline, hexpires, -⟩, r, hr, hrc, hrexpires, hunused⟩ :=
    h.recorded code expiry false hcode
  have hshown := (h.lookup_eq hcode).trans (decide_eq_true hlive)
  have hany : (s.sqlite.anyRow fun r => r.code == code && r.usedBy.isNone) = true :=
    h.anyRow_some hcode fun r _ hr => by rw [← Option.not_isSome, hr]; rfl
  have hcodes : consumed s.now (s.codes code) = some (expiry, true) := by
    rw [hcode, consumed, decide_eq_true hlive]
    rfl
  obtain ⟨hash', hl⟩ := Option.isSome_iff_exists.mp hshown
  cases hh.symm.trans (Invites.lookup_eq_some.mp hl).1
  simp only [step, RedisInviteStore.consume, if_pos hshown, SqliteInviteStore.consume, if_pos hany,
    hcodes]
  refine h.set ⟨⟨{ hash with usedBy := some usedBy.toText }, ?_, hdeadline, hexpires, ?_⟩,
    { r with usedBy := some usedBy.toText }, Table.mem_update_iff.mpr (.inr ⟨r, hr, ?_, rfl⟩), hrc,
      hrexpires, rfl⟩ (fun c hc => Function.update_of_ne hc ..) (fun q hq => ?_) fun c hc _ =>
    (List.mem_filter.mp hc).1
  · simp [Invites.consumeFields, hl]
  · simp [InviteHash.isUsed, Invites.toText_ne_empty]
  · rw [beq_iff_eq.mpr hrc, ← Option.not_isSome, hunused]
    rfl
  · rw [Table.mem_update_iff]
    constructor
    · rintro (⟨hmem, -⟩ | ⟨r', -, hp, rfl⟩)
      · exact hmem
      · rw [Bool.and_eq_true, beq_iff_eq] at hp
        exact absurd hp.1 hq
    · exact fun hmem => .inl ⟨hmem, by rw [beq_eq_false_iff_ne.mpr hq, Bool.false_and]⟩

theorem consume {code : String} {usedBy : Uuid} (hg : InStep s (.consume code usedBy)) :
    Linked (step s (.consume code usedBy)) := by
  cases hcode : s.codes code with
  | none =>
    refine h.consume_refused usedBy ?_ (h.anyRow_none hcode _) (by rw [hcode]; rfl)
    rw [Invites.lookup, h.hash code hcode]
    rfl
  | some record =>
    obtain ⟨expiry, used⟩ := record
    have hused := hg expiry used hcode
    cases used with
    | true =>
      refine h.consume_refused usedBy ?_ ?_ (by rw [hcode]; rfl)
      · rw [h.lookup_eq hcode, decide_eq_false (Nat.not_lt.mpr (hused.mp rfl))]
      · exact h.anyRow_some hcode fun r _ hr => by rw [← Option.not_isSome, hr]; rfl
    | false =>
      exact h.consume_taken hcode (Nat.lt_of_not_le fun hle => Bool.false_ne_true (hused.mpr hle))
        usedBy

theorem step {a : Action} (hg : InStep s a) : Linked (step s a) := by
  cases a with
  | tick d => exact ⟨h.recorded, h.hash, h.row, h.member⟩
  | create code createdBy ttlSecs =>
    by_cases hcode : s.codes code = none
    · exact h.create hcode createdBy (hg hcode).1 (hg hcode).2
    · simpa only [InviteParity.step, if_neg hcode] using h
  | verify code => exact h
  | verifyDetail code => exact h
  | consume code usedBy => exact h.consume hg
  | list =>
    exact ⟨fun c e u he => ⟨(h.recorded c e u he).hash, (h.recorded c e u he).row⟩, h.hash,
      h.row, fun code hm => h.member code (List.mem_filter.mp hm).1⟩

theorem agrees_iff (column : DateTimeColumn) (a : Action) : Agrees column s a ↔ InStep s a := by
  cases a with
  | tick d => exact Iff.rfl
  | create code createdBy ttlSecs => exact h.create_iff column code createdBy ttlSecs
  | verify code => exact h.verify_iff column code
  | verifyDetail code => exact h.verifyDetail_iff column code
  | consume code usedBy => exact h.consume_iff column code usedBy
  | list => exact h.list_iff column

end Linked

/-- The stores give the same answers, and the right ones, in exactly the runs whose calls all
keep them in step. -/
theorem invite_stores_agree_iff (column : DateTimeColumn) (now : ℕ) (as : List Action) :
    AllSteps step (Agrees column) (start now) as ↔ AllSteps step InStep (start now) as :=
  allSteps_congr_of_guarded (fun _ _ hs hg => hs.step hg) (fun _ a hs => hs.agrees_iff column a)
    (linked_start now) as

/-- Texts of chrono before the year 10000 are in the order of the minutes, and within one
minute in that of the fractions of the second. -/
theorem chronoFormat_lt_iff {t u : ℕ} (ht : t < year10000) (hu : u < year10000) :
    chronoFormat t < chronoFormat u ↔ t / minuteNanos < u / minuteNanos ∨
      t / minuteNanos = u / minuteNanos ∧ t % secondNanos < u % secondNanos := by
  have hfraction : ∀ n, n % secondNanos < 10 ^ 9 := fun n => Nat.mod_lt _ (by decide)
  have hend : ¬ ['Z'] < ['Z'] := List.lt_irrefl _
  rw [chronoFormat, chronoFormat, minuteText_append_lt
      (lt_of_le_of_lt (Nat.div_mul_le_self _ _) ht) (lt_of_le_of_lt (Nat.div_mul_le_self _ _) hu),
    Radix.decimal.encode_append_lt (hfraction t) (hfraction u)]
  simp only [hend, and_false, or_false]

/-- Before the year 10000 an expiry is told wrongly in its own minute only: by the second of now
against its hundredths of a second, and by the two fractions of a second. -/
theorem sharp_iff {now expiry : ℕ} (hnow : now < year10000) (hexpiry : expiry < year10000) :
    Sharp now expiry ↔ (now / minuteNanos = expiry / minuteNanos →
      (now / secondNanos % 60 ≤ expiry % secondNanos / 10 ^ 7 ↔ now < expiry) ∧
        (expiry % secondNanos ≤ now % secondNanos ↔ expiry ≤ now)) := by
  obtain ⟨text, htext⟩ : ∃ text, strftime now = some text := ⟨_, if_pos hnow⟩
  have hbefore : now / minuteNanos < expiry / minuteNanos → now < expiry :=
    Nat.lt_of_div_lt_div
  have hafter : expiry / minuteNanos < now / minuteNanos → expiry < now :=
    Nat.lt_of_div_lt_div
  rw [Sharp, htext, Option.any_some, decide_eq_true_eq, strftime_lt_chronoFormat_iff htext hexpiry,
    ← not_lt (a := chronoFormat now), chronoFormat_lt_iff hnow hexpiry]
  generalize now / minuteNanos = m at *
  generalize expiry / minuteNanos = m' at *
  generalize expiry % secondNanos / 10 ^ 7 = h'
  generalize now / secondNanos % 60 = sec
  generalize now % secondNanos = f
  generalize expiry % secondNanos = f'
  omega

/-- The comparison of chrono's texts is the one of their stamps. -/
theorem chronoFormat_le_iff_stamp {now expiry : ℕ} (hnow : now < year10000)
    (hexpiry : expiry < year10000) : chronoFormat expiry ≤ chronoFormat now ↔
      (Stamp.ofInstant expiry).le (Stamp.ofInstant now) = true := by
  have hminute : ∀ t : ℕ, (t : ℤ) / (60 * nanosPerSecond) = ↑(t / minuteNanos) := fun t => by
    simp [nanosPerSecond, minuteNanos, secondNanos]
  have hfraction : ∀ t : ℕ, (t : ℤ) % nanosPerSecond = ↑(t % secondNanos) := fun t => by
    simp [nanosPerSecond, secondNanos]
  rw [← not_lt, chronoFormat_lt_iff hnow hexpiry]
  simp only [Stamp.le, Stamp.ofInstant, hminute, hfraction, Bool.or_eq_true, Bool.and_eq_true,
    decide_eq_true_eq, beq_iff_eq, Nat.cast_lt, Nat.cast_inj, Nat.cast_le]
  omega

/-! ## The store of the registration -/

/-- A row with the texts of its columns, and the one with a stamp in their place. -/
structure Shows (c : InviteCode) (r : InviteRow) : Prop where
  code : c.code = r.code
  usedBy : c.usedBy = r.usedBy
  expiry : ∃ t < year10000, c.expiresAt = some (Stamp.ofInstant t) ∧
    r.expiresAt = some (chronoFormat t)

/-- The two models of SQLite's store have the same rows. -/
def SameRows (codes : InviteCodes) (s : SqliteInviteStore) : Prop :=
  List.Forall₂ Shows codes.rows s.rows

section Registration

variable {codes : InviteCodes} {s : SqliteInviteStore} (h : SameRows codes s)

include h

theorem SameRows.anyRow {p : InviteCode → Bool} {q : InviteRow → Bool}
    (hpq : ∀ c r, Shows c r → p c = q r) : codes.anyRow p = s.anyRow q := by
  have hany : ∀ l l', List.Forall₂ Shows l l' → l.any p = l'.any q := by
    intro l l' hrows
    induction hrows with
    | nil => rfl
    | cons hrow _ ih => rw [List.any_cons, List.any_cons, hpq _ _ hrow, ih]
  exact hany _ _ h

theorem SameRows.verifyDetail {now : ℕ} (hnow : now < year10000) (code : String) :
    s.verifyDetail now code = Invites.verifyRow now (Invites.row codes code) := by
  have hfound : List.Forall₂ Shows (codes.rows.filter fun c => c.code == code)
      (s.rows.filter fun r => r.code == code) :=
    List.rel_filter (fun c r hrow => by simp only [hrow.code]) h
  rw [SqliteInviteStore.verifyDetail, Invites.row, Table.select, Table.select]
  generalize codes.rows.filter (fun c => c.code == code) = found at hfound
  generalize s.rows.filter (fun r => r.code == code) = found' at hfound
  cases hfound with
  | nil => rfl
  | cons hrow _ =>
    obtain ⟨t, ht, hstamp, htext⟩ := hrow.expiry
    simp only [List.head?_cons, Invites.verifyRow, hrow.usedBy, hstamp, htext,
      chronoFormat_le_iff_stamp hnow ht]

theorem SameRows.consume (code : String) (usedBy : Uuid) :
    ((s.consume code usedBy).1 = .ok ↔ (Invites.consumeRow code usedBy codes).1 = true) ∧
      SameRows (Invites.consumeRow code usedBy codes).2 (s.consume code usedBy).2 := by
  have hfree : ∀ c r, Shows c r →
      (c.code == code && c.usedBy.isNone) = (r.code == code && r.usedBy.isNone) :=
    fun c r hrow => by rw [hrow.code, hrow.usedBy]
  have hafter : List.Forall₂ Shows
      (codes.rows.map fun c => if c.code == code && c.usedBy.isNone then
        { c with usedBy := some usedBy.toText } else c)
      (s.rows.map fun r => if r.code == code && r.usedBy.isNone then
        { r with usedBy := some usedBy.toText } else r) := by
    refine List.rel_map (fun c r hrow => ?_) h
    rw [hfree c r hrow]
    split
    · exact ⟨hrow.code, rfl, hrow.expiry⟩
    · exact hrow
  rw [SqliteInviteStore.consume, Invites.consumeRow]
  dsimp only
  rw [h.anyRow hfree]
  split
  · rename_i hany
    exact ⟨iff_of_true rfl hany, hafter⟩
  · rename_i hnone
    refine ⟨iff_of_false (fun hok => by cases hok) hnone, ?_⟩
    -- No row of the texts is changed, and so none of the stamps.
    have hsame : (s.rows.map fun r => if r.code == code && r.usedBy.isNone then
        { r with usedBy := some usedBy.toText } else r) = s.rows := by
      refine (List.map_congr_left fun r hr => if_neg fun hp => ?_).trans (List.map_id _)
      exact hnone (Table.anyRow_iff.mpr ⟨r, hr, hp⟩)
    rw [hsame] at hafter
    exact hafter

/-- A new code is refused in both or stored in both. -/
theorem SameRows.insert {c : InviteCode} {r : InviteRow} (hrow : Shows c r) :
    codes.insert c = none ∧ s.insert r = none ∨
      ∃ codes' s', codes.insert c = some codes' ∧ s.insert r = some s' ∧ SameRows codes' s' := by
  have htaken : (codes.anyRow fun b => b.code == c.code) = s.anyRow fun b => b.code == r.code :=
    h.anyRow fun b b' hb => by rw [hb.code, hrow.code]
  rw [Bool.eq_iff_iff, Table.anyRow_iff, Table.anyRow_iff] at htaken
  simp only [beq_iff_eq] at htaken
  rw [← Table.insert_eq_none, ← Table.insert_eq_none] at htaken
  cases hc : codes.insert c with
  | none => exact .inl ⟨rfl, htaken.mp hc⟩
  | some codes' =>
    cases hr : s.insert r with
    | none =>
      rw [htaken.mpr hr] at hc
      cases hc
    | some s' =>
      refine .inr ⟨codes', s', rfl, rfl, ?_⟩
      rw [SameRows, Table.rows_of_insert hc, Table.rows_of_insert hr]
      exact List.rel_append h (.cons hrow .nil)

theorem SameRows.create {now ttlSecs : ℕ} (hexpiry : now + ttlSecs * secondNanos < year10000)
    (code : String) (createdBy : Uuid) :
    ∃ codes', Invites.create now code createdBy ttlSecs (.sqlite codes) = .sqlite codes' ∧
      SameRows codes' (s.create now code createdBy ttlSecs).2 := by
  have hend : now + ttlSecs * secondNanos < chronoEnd := hexpiry.trans (by decide)
  obtain ⟨createdAt, hcreatedAt⟩ : ∃ text, strftime now = some text :=
    ⟨_, if_pos (lt_of_le_of_lt (Nat.le_add_right ..) hexpiry)⟩
  have hrow : Shows
      { code
        createdBy := createdBy.toText
        expiresAt := some (Stamp.ofInstant (now + ttlSecs * nanosPerSecond))
        usedBy := none }
      { code
        createdBy := some createdBy.toText
        createdAt
        expiresAt := some (chronoFormat (now + ttlSecs * secondNanos))
        usedBy := none } :=
    ⟨rfl, rfl, now + ttlSecs * secondNanos, hexpiry, by simp [nanosPerSecond, secondNanos], rfl⟩
  simp only [SqliteInviteStore.create, if_pos hend, hcreatedAt, Invites.create]
  rcases h.insert hrow with ⟨hc, hr⟩ | ⟨codes', s', hc, hr, hsame⟩
  · rw [hc, hr]
    exact ⟨codes, rfl, h⟩
  · rw [hc, hr]
    exact ⟨codes', rfl, hsame⟩

end Registration

/-- Redis' store has the same hashes in both, unless it refuses the lifetime. -/
theorem hashes_create {now ttlSecs : ℕ} (htaken : now / 1000000 + ttlSecs * 1000 < 2 ^ 63)
    (code : String) (createdBy : Uuid) (s : RedisInviteStore) :
    Invites.create now code createdBy ttlSecs (.redis s.hashes) =
      .redis (s.create now code createdBy ttlSecs).2.hashes := by
  simp only [Invites.create, RedisInviteStore.create, if_pos htaken]
  simp [nanosPerSecond, secondNanos]

/-- Reads the text of the epoch. -/
def epochColumn : DateTimeColumn where
  decode text := if text = "1970-01-01T00:00:00.000Z".toList then some 0 else none
  rejects pre n := if_neg fun h => by
    have hlength : pre.length = ("1970-01-01T00".toList).length := by
      have hlen := congrArg List.length h
      simp at hlen ⊢
      omega
    obtain ⟨-, htail⟩ := List.append_inj
      (h.trans (by decide : _ = "1970-01-01T00".toList ++ ":00:00.000Z".toList)) hlength
    have hdigits := List.append_inj_left' (List.tail_eq_of_cons_eq htail
      |>.trans (by decide : _ = "00:00.000".toList ++ ['Z'])) rfl
    rw [Radix.decimal.encode_add 5 4] at hdigits
    obtain ⟨-, hpoint⟩ := List.append_inj
      (hdigits.trans (by decide : _ = "00:00".toList ++ ".000".toList)) (by simp)
    have hlt := Radix.decimal.cons_lt_encode_append (c := '.') (by decide) 3 n "000".toList []
    rw [List.append_nil, hpoint] at hlt
    exact absurd hlt (List.lt_irrefl _)

/-- A code is looked up at its expiry. -/
def expiredRun : List Action := [.create "a" 1 60, .tick (60 * secondNanos)]

/-- A code is looked up a quarter of a minute before its expiry. -/
def lastMinuteRun : List Action := [.create "a" 1 90, .tick (75 * secondNanos)]

theorem invite_stores_disagree :
    ¬ AllSteps step (Agrees epochColumn) (start 0) (expiredRun ++ [.verifyDetail "a"]) ∧
    ¬ AllSteps step (Agrees epochColumn) (start 0) (lastMinuteRun ++ [.verify "a"]) ∧
    ¬ AllSteps step (Agrees epochColumn) (start 0) [.create "a" 1 60, .list] := by
  have hcreated : ∀ ttlSecs, (step (start 0) (.create "a" 1 ttlSecs)).codes "a" =
      some (0 + ttlSecs * secondNanos, false) := fun ttlSecs => by
    simp [step, start]
  have hlinked : ∀ ttlSecs < 100, Linked (step (start 0) (.create "a" 1 ttlSecs)) := by
    intro ttlSecs httl
    have hend : 100 * secondNanos < chronoEnd := by decide
    refine (linked_start 0).step fun _ => ⟨by decide, lt_of_le_of_lt ?_ hend⟩
    rw [show (start 0).now = 0 from rfl, Nat.zero_add]
    exact Nat.mul_le_mul_right _ httl.le
  refine ⟨fun h => ?_, fun h => ?_, fun h => ?_⟩
  · have hs := (hlinked 60 (by decide)).step (a := .tick (60 * secondNanos)) trivial
    have hlive := ((hs.agrees_iff epochColumn _).mp h.last _ _ (hcreated 60)).1
    exact absurd hlive (by decide)
  · have hs := (hlinked 90 (by decide)).step (a := .tick (75 * secondNanos)) trivial
    have hsharp := (hs.agrees_iff epochColumn _).mp h.last _ (hcreated 90)
    exact absurd ((sharp_iff (by decide) (by decide)).mp hsharp) (by decide)
  · have hnone := ((hlinked 60 (by decide)).agrees_iff epochColumn .list).mp h.2.1 "a"
    rw [hcreated] at hnone
    cases hnone

end PicHost.InviteParity
