import PicHost.Api.Invites
import PicHost.Core.Timestamps

/-!
# The invite stores as services

All five operations of the two stores, SQLite's with the texts of its columns. Instants are
nanoseconds since the epoch.
-/

namespace PicHost.InviteStores

open KeyedTable Timestamps

/-- How `create` or `consume` ends. -/
inductive Outcome
  | ok
  | err
  | panicked
deriving DecidableEq

/-- An entry of `list`. -/
structure InviteCodeInfo where
  code : String
  createdBy : Option Uuid
  createdAt : ℤ
  expiresAt : Option ℤ
  usedBy : Option Uuid
deriving DecidableEq

/-- The instant after the last one chrono has. -/
def chronoEnd : ℕ := (daysBeforeYear 262143 - epochDay) * (1440 * minuteNanos)

/-- `DateTime::from_timestamp(secs, 0)`. -/
def fromTimestamp (secs : ℤ) : Option ℤ :=
  if -8334601228800 ≤ secs ∧ secs * secondNanos < chronoEnd then some (secs * secondNanos)
  else none

/-- The hashes, and the set `pichost:invites`. -/
structure RedisInviteStore where
  hashes : String → Option InviteHash
  members : List String

namespace RedisInviteStore

/-- A pipeline of `HSET`, `EXPIRE` and `SADD`: the others are executed although `EXPIRE` refuses
the lifetime. -/
def create (now : ℕ) (code : String) (createdBy : Uuid) (ttlSecs : ℕ) (s : RedisInviteStore) :
    Outcome × RedisInviteStore :=
  let taken := now / 1000000 + ttlSecs * 1000 < 2 ^ 63
  let hash : InviteHash :=
    { createdBy := some createdBy.toText
      createdAt := some ↑(now / secondNanos)
      expiresAt := some ↑(now / secondNanos + ttlSecs)
      usedBy := some ""
      -- a code whose lifetime is refused stays for good, although `create` answers with an error
      deadline := if taken then some ↑(now + ttlSecs * secondNanos) else none }
  (if taken then .ok else .err,
    { hashes := Function.update s.hashes code (some hash)
      members := if code ∈ s.members then s.members else s.members ++ [code] })

/-- `verify_invite_code`. -/
def verifyDetail (now : ℕ) (code : String) (s : RedisInviteStore) : InviteVerifyStatus :=
  match Invites.lookup s.hashes now code with
  | none => .notFound
  | some h => Invites.verifyFields now (some h)

def verify (now : ℕ) (code : String) (s : RedisInviteStore) : Bool :=
  s.verifyDetail now code = .valid

def consume (now : ℕ) (code : String) (usedBy : Uuid) (s : RedisInviteStore) :
    Outcome × RedisInviteStore :=
  if (Invites.lookup s.hashes now code).isSome then
    (.ok,
      { hashes := Invites.consumeFields now code usedBy s.hashes
        members := s.members.filter (· ≠ code) })
  else (.err, s)

/-- `InviteCodeInfo` of the cache, with timestamps of seconds. -/
structure CachedInvite where
  code : String
  createdBy : Uuid
  expiresAt : ℤ
  usedBy : Option Uuid
  createdAt : ℤ

/-- `parse_invite_fields`; a hash that is gone has no fields. -/
def parseInviteFields (code : String) (fields : Option InviteHash) (now : ℤ) :
    Option CachedInvite :=
  fields.bind fun h =>
    let usedBy := h.usedBy.bind fun v => if v = "" then none else Uuid.parseStr v
    let expiresAt := h.expiresAt.getD 0
    if now > expiresAt ∨ usedBy.isSome then none
    else some
      { code
        createdBy := (h.createdBy.bind Uuid.parseStr).getD 0
        expiresAt
        usedBy
        createdAt := h.createdAt.getD 0 }

/-- `to_core_invite_info`. -/
def toCoreInviteInfo (info : CachedInvite) : InviteCodeInfo where
  code := info.code
  createdBy := if info.createdBy ≠ 0 then some info.createdBy else none
  createdAt := (fromTimestamp info.createdAt).getD 0
  expiresAt := (fromTimestamp info.expiresAt).filter fun _ => 0 < info.expiresAt
  usedBy := info.usedBy

/-- Codes without an entry are taken out of the set. -/
def list (now : ℕ) (s : RedisInviteStore) :
    Except Unit (List InviteCodeInfo) × RedisInviteStore :=
  let parse code :=
    parseInviteFields code (Invites.lookup s.hashes now code) ↑(now / secondNanos)
  let codes := (s.members.filterMap parse).mergeSort fun a b => b.createdAt ≤ a.createdAt
  (.ok (codes.map toCoreInviteInfo),
    { s with members := s.members.filter fun code => (parse code).isSome })

end RedisInviteStore

/-- A row of `invite_codes`. -/
structure InviteRow where
  code : String
  createdBy : Option String
  createdAt : List Char
  expiresAt : Option (List Char)
  usedBy : Option String
deriving DecidableEq

abbrev SqliteInviteStore := Table (α := InviteRow) InviteRow.code Eq

/-- `sqlx` reading a text column as `DateTime<Utc>`. In each format it tries two digits at most
follow the last colon before a point or an offset. -/
structure DateTimeColumn where
  decode : List Char → Option ℕ
  rejects : ∀ pre n, decode (pre ++ ':' :: (Radix.decimal.encode 9 n ++ ['Z'])) = none

namespace SqliteInviteStore

/-- `created_at` gets its default. -/
def create (now : ℕ) (code : String) (createdBy : Uuid) (ttlSecs : ℕ) (s : SqliteInviteStore) :
    Outcome × SqliteInviteStore :=
  let expires := now + ttlSecs * secondNanos
  -- `Utc::now() + ttl` panics beyond the end of chrono's calendar
  if expires < chronoEnd then
    match strftime now with
    | none => (.err, s)
    | some createdAt =>
      match s.insert
        { code
          createdBy := some createdBy.toText
          createdAt
          expiresAt := some (chronoFormat expires)
          usedBy := none } with
      | some s' => (.ok, s')
      | none => (.err, s)
  else (.panicked, s)

def verify (now : ℕ) (code : String) (s : SqliteInviteStore) : Bool :=
  s.anyRow fun r => r.code == code && r.usedBy.isNone &&
    r.expiresAt.all fun expires => (strftime now).any fun text => decide (text < expires)

def verifyDetail (now : ℕ) (code : String) (s : SqliteInviteStore) : InviteVerifyStatus :=
  match (s.select fun r => r.code == code).head? with
  | none => .notFound
  | some r =>
    if r.usedBy.isSome then .used
    else
      match r.expiresAt with
      | none => .valid
      | some expires => if expires ≤ chronoFormat now then .expired else .valid

def consume (code : String) (usedBy : Uuid) (s : SqliteInviteStore) :
    Outcome × SqliteInviteStore :=
  let p : InviteRow → Bool := fun r => r.code == code && r.usedBy.isNone
  if s.anyRow p then
    (.ok, s.update p (fun r => { r with usedBy := some usedBy.toText }) fun _ => rfl)
  else (.err, s)

/-- `query_as` on a row: the error is that of a column that does not decode. -/
def decodeRow (column : DateTimeColumn) (r : InviteRow) : Except Unit InviteCodeInfo :=
  match column.decode r.createdAt, r.expiresAt.mapM column.decode with
  | some createdAt, some expiresAt => .ok
    { code := r.code
      createdBy := (r.createdBy.bind Uuid.parseStr).filter (· ≠ 0)
      createdAt := createdAt
      expiresAt := expiresAt.map (↑)
      usedBy := r.usedBy.bind Uuid.parseStr }
  | _, _ => .error ()

def list (column : DateTimeColumn) (s : SqliteInviteStore) : Except Unit (List InviteCodeInfo) :=
  (s.rows.mergeSort fun a b => b.createdAt ≤ a.createdAt).mapM (decodeRow column)

end SqliteInviteStore

/-- `chronoFormat` ends with nine digits after a colon. -/
theorem decode_chronoFormat (column : DateTimeColumn) (t : ℕ) :
    column.decode (chronoFormat t) = none := by
  have h := column.rejects (dateText (t / minuteNanos / 1440 + epochDay) ++
    'T' :: clockText (t / minuteNanos % 1440)) (t % secondNanos)
  simpa only [chronoFormat, minuteText, List.append_assoc, List.cons_append, List.nil_append]
    using h

theorem decodeRow_of_expiresAt (column : DateTimeColumn) {r : InviteRow} {t : ℕ}
    (h : r.expiresAt = some (chronoFormat t)) :
    SqliteInviteStore.decodeRow column r = .error () := by
  have hexpires : r.expiresAt.mapM column.decode = none := by
    rw [h, Option.mapM_some, decode_chronoFormat]
    rfl
  rw [SqliteInviteStore.decodeRow, hexpires]
  cases column.decode r.createdAt <;> rfl

/-- One row that does not decode fails them all. -/
theorem mapM_decodeRow (column : DateTimeColumn) {rows : List InviteRow} {r : InviteRow}
    (hr : r ∈ rows) (h : SqliteInviteStore.decodeRow column r = .error ()) :
    rows.mapM (SqliteInviteStore.decodeRow column) = .error () := by
  induction rows with
  | nil => cases hr
  | cons q rows ih =>
    rw [List.mapM_cons]
    rcases List.mem_cons.mp hr with rfl | hr
    · rw [h]
      rfl
    · rw [ih hr]
      cases SqliteInviteStore.decodeRow column q <;> rfl

end PicHost.InviteStores
