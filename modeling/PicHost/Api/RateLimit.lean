import PicHost.Core.Timestamps
import Mathlib.Logic.Function.Basic
import PicHost.Lib.LapsingCounter
import PicHost.Lib.Run

/-!
# The rate limiter on Redis

Instants and durations are nanoseconds of the clock of Redis. A check is a client that sends its
commands one at a time: the pipeline of `INCR` and `EXPIRE`, `GET`, and `TTL` if it is denied.
-/

namespace PicHost.RateLimit

open Timestamps

structure RateLimitConfig where
  authMax : ℕ := 5
  uploadMax : ℕ := 30
  generalMax : ℕ := 60
  publicMax : ℕ := 200

inductive Policy
  | auth
  | upload
  | general
  | publicAccess
deriving DecidableEq

namespace Policy

def text : Policy → String
  | .auth => "auth"
  | .upload => "upload"
  | .general => "general"
  | .publicAccess => "public"

def max (config : RateLimitConfig) : Policy → ℕ
  | .auth => config.authMax
  | .upload => config.uploadMax
  | .general => config.generalMax
  | .publicAccess => config.publicMax

end Policy

/-- `RATE_LIMIT_WINDOW_SECS`. -/
def rateLimitWindow : ℕ := 60 * secondNanos

def rlKey (policy suffix : String) : String := "rl:" ++ policy ++ ":" ++ suffix

/-- A policy with the address or the user that it is applied to. -/
structure Client where
  policy : Policy
  key : String
deriving DecidableEq

def Client.redisKey (c : Client) : String := rlKey c.policy.text c.key

structure RateLimitResult where
  allowed : Bool
  retryAfter : ℕ
deriving DecidableEq

inductive RateLimiterError
  | other

/-! ## The commands -/

structure RedisCounter where
  count : ℕ
  deadline : Option ℕ
deriving DecidableEq

abbrev Redis := String → Option RedisCounter

namespace Redis

def lookup (redis : Redis) (now : ℕ) (key : String) : Option RedisCounter :=
  (redis key).filter fun c => c.deadline.all (now < ·)

/-- `INCR`. -/
def incr (now : ℕ) (key : String) (redis : Redis) : Redis :=
  Function.update redis key
    (some ((redis.lookup now key).elim ⟨1, none⟩ fun c => { c with count := c.count + 1 }))

/-- `EXPIRE`. -/
def expire (now : ℕ) (key : String) (secs : ℕ) (redis : Redis) : Redis :=
  Function.update redis key
    ((redis.lookup now key).map fun c => { c with deadline := some (now + secs * secondNanos) })

/-- `GET`. -/
def get (now : ℕ) (key : String) (redis : Redis) : Option ℕ :=
  (redis.lookup now key).map RedisCounter.count

/-- `TTL`, rounded to seconds; `-2` without the key and `-1` without a deadline. -/
def ttl (now : ℕ) (key : String) (redis : Redis) : ℤ :=
  (redis.lookup now key).elim (-2) fun c =>
    c.deadline.elim (-1) fun deadline => ↑((deadline - now + secondNanos / 2) / secondNanos)

/-- What `Cache::incr` sends first. -/
def pipeline (now : ℕ) (key : String) (ttl : ℕ) (redis : Redis) : Redis :=
  (redis.incr now key).expire now key ttl

end Redis

/-! ## A check -/

/-- The rest of `Cache::incr`: no number is read where the key is gone. -/
def readCount (now : ℕ) (key : String) (redis : Redis) : Except RateLimiterError ℕ :=
  (redis.get now key).elim (.error .other) .ok

/-- A negative reply is no `u64`. -/
def ttlOrWindow (now : ℕ) (key : String) (windowSecs : ℕ) (redis : Redis) : ℕ :=
  let ttl := redis.ttl now key
  if 0 ≤ ttl then ttl.toNat else windowSecs

/-- The end of `limiter_check`. -/
def limiterCheck : Except RateLimiterError RateLimitResult → RateLimitResult
  | .ok result => result
  | .error _ => ⟨true, 0⟩

/-- Where a check is after its pipeline: the command that comes next, or its answer with the
instant of it and the number of requests that had come by then. -/
inductive Stage
  | get
  | ttl
  | answered (now seen : ℕ) (result : RateLimitResult)
deriving DecidableEq

/-- The next command of `RedisRateLimiter::check`. -/
def Stage.next (limit window : ℕ) (key : String) (redis : Redis) (now seen : ℕ) : Stage → Stage
  | .get =>
    match readCount now key redis with
    | .error e => .answered now seen (limiterCheck (.error e))
    | .ok count =>
      if count ≤ limit then .answered now seen (limiterCheck (.ok ⟨true, 0⟩)) else .ttl
  | .ttl =>
    .answered now seen
      (limiterCheck (.ok ⟨false, ttlOrWindow now key (window / secondNanos) redis⟩))
  | stage => stage

/-- What is known of the answer; a check that asks for the lifetime is denied. -/
def Stage.verdict : Stage → Option Bool
  | .get => none
  | .ttl => some false
  | .answered _ _ result => some result.allowed

/-! ## Runs -/

/-- A request whose pipeline was executed at `now`. -/
structure Arrival where
  client : Client
  now : ℕ
deriving DecidableEq

def hitsOf (client : Client) (arrivals : List Arrival) : List ℕ :=
  (arrivals.filter fun a => a.client = client).map Arrival.now

/-- `stage i` is where the check of the `i`-th request is. -/
structure World where
  now : ℕ
  redis : Redis
  arrivals : List Arrival
  stage : ℕ → Stage

namespace World

/-- No key of the limiter is there yet. -/
def start (now : ℕ) : World := ⟨now, fun _ => none, [], fun _ => .get⟩

end World

/-- A request comes, or a check sends its next command, `wait` after the last command. -/
inductive Action
  | request (wait : ℕ) (client : Client)
  | command (wait i : ℕ)

def step (config : RateLimitConfig) (window : ℕ) (w : World) : Action → World
  | .request wait client =>
    let now := w.now + wait
    { now
      redis := w.redis.pipeline now client.redisKey (window / secondNanos)
      arrivals := w.arrivals ++ [⟨client, now⟩]
      stage := Function.update w.stage w.arrivals.length .get }
  | .command wait i =>
    let now := w.now + wait
    match w.arrivals[i]? with
    | none => { w with now }
    | some a =>
      { w with
        now
        stage := Function.update w.stage i ((w.stage i).next (a.client.policy.max config) window
          a.client.redisKey w.redis now w.arrivals.length) }

/-! ## What a key counts -/

theorem Client.redisKey_injective : Function.Injective Client.redisKey := by
  rintro ⟨policy, key⟩ ⟨policy', key'⟩ h
  have hl := congrArg String.toList h
  simp only [Client.redisKey, rlKey, String.toList_append, List.append_assoc,
    List.append_cancel_left_eq] at hl
  have hpolicy : policy = policy' := by
    cases policy <;> cases policy' <;> first | rfl | simp [Policy.text] at hl
  subst hpolicy
  rw [List.append_cancel_left_eq, List.append_cancel_left_eq, String.toList_inj] at hl
  rw [hl]

/-- The counter of a key as Redis has it. -/
def redisCounter (c : LapsingCounter.Counter) : RedisCounter := ⟨c.count, some c.deadline⟩

section Key

variable {redis : Redis} {key : String} {c : Option LapsingCounter.Counter} (now : ℕ)

theorem lookup_eq (h : redis key = c.map redisCounter) :
    redis.lookup now key = (LapsingCounter.live now c).map redisCounter := by
  rw [Redis.lookup, h, Option.filter_map]
  rfl

theorem pipeline_self (h : redis key = c.map redisCounter) (secs : ℕ) :
    redis.pipeline now key secs key =
      some (redisCounter (LapsingCounter.hit true (secs * secondNanos) now c)) := by
  rw [Redis.pipeline, Redis.expire, Function.update_self, Redis.lookup, Redis.incr,
    Function.update_self, lookup_eq now h, LapsingCounter.hit]
  cases hlive : LapsingCounter.live now c with
  | none => rfl
  | some d =>
    -- the key is still there when `EXPIRE` comes
    have hnow : now < d.deadline := (LapsingCounter.live_eq_some.mp hlive).2
    simp only [Option.map_some, Option.elim_some, redisCounter, Option.filter_some, Option.all_some,
      decide_eq_true hnow, if_true]

theorem pipeline_of_ne {key' : String} (hne : key' ≠ key) (secs : ℕ) :
    redis.pipeline now key secs key' = redis key' := by
  rw [Redis.pipeline, Redis.expire, Function.update_of_ne hne, Redis.incr,
    Function.update_of_ne hne]

/-- `GET` lets a check through exactly if at most `limit` hits are read. -/
theorem verdict_next_get (h : redis key = c.map redisCounter) (limit window seen : ℕ) :
    (Stage.get.next limit window key redis now seen).verdict =
      some (decide (LapsingCounter.read now c ≤ limit)) := by
  rw [Stage.next, readCount, Redis.get, lookup_eq now h, LapsingCounter.read]
  cases LapsingCounter.live now c with
  | none => exact congrArg some (decide_eq_true (Nat.zero_le limit)).symm
  | some c =>
    show Stage.verdict (if c.count ≤ limit then _ else _) = some (decide (c.count ≤ limit))
    by_cases hle : c.count ≤ limit
    · rw [if_pos hle, decide_eq_true hle]
      rfl
    · rw [if_neg hle, decide_eq_false hle]
      rfl

/-- A check is told the rest of the lifetime, or the window once it is over. -/
theorem ttlOrWindow_eq (h : redis key = c.map redisCounter) (secs : ℕ) :
    ttlOrWindow now key secs redis = (LapsingCounter.live now c).elim secs fun c =>
      (c.deadline - now + secondNanos / 2) / secondNanos := by
  have hlookup := lookup_eq now h
  cases hlive : LapsingCounter.live now c with
  | none =>
    rw [hlive, Option.map_none] at hlookup
    have httl : redis.ttl now key = -2 := by rw [Redis.ttl, hlookup, Option.elim_none]
    rw [ttlOrWindow, httl, if_neg (by decide), Option.elim_none]
  | some d =>
    rw [hlive, Option.map_some] at hlookup
    have httl : redis.ttl now key =
        ↑((d.deadline - now + secondNanos / 2) / secondNanos) := by
      rw [Redis.ttl, hlookup, Option.elim_some, redisCounter, Option.elim_some]
    rw [ttlOrWindow, httl, if_pos (Int.natCast_nonneg _), Int.toNat_natCast, Option.elim_some]

/-- A key whose window is shorter than a second is gone at once. -/
theorem next_get_of_subsecond {window : ℕ} (hc : ∀ d, c = some d → d.deadline ≤ now)
    (h : redis key = c.map redisCounter) (limit seen : ℕ) :
    Stage.get.next limit window key redis now seen ≠ .ttl := by
  have hnone : LapsingCounter.live now c = none := by
    rw [Option.eq_none_iff_forall_ne_some]
    intro d hd
    obtain ⟨hcd, hnow⟩ := LapsingCounter.live_eq_some.mp hd
    have := hc d hcd
    omega
  rw [Stage.next, readCount, Redis.get, lookup_eq now h, hnone]
  exact Stage.noConfusion

end Key

theorem verdict_next {stage : Stage} (h : stage ≠ .get) (limit window : ℕ) (key : String)
    (redis : Redis) (now seen : ℕ) :
    (stage.next limit window key redis now seen).verdict = stage.verdict := by
  cases stage with
  | get => exact (h rfl).elim
  | ttl => rfl
  | answered => rfl

/-- After `GET` a check is answered or asks for the lifetime. -/
theorem next_get (limit window : ℕ) (key : String) (redis : Redis) (now seen : ℕ) :
    Stage.get.next limit window key redis now seen = .ttl ∨
      ∃ result, Stage.get.next limit window key redis now seen = .answered now seen result := by
  rw [Stage.next]
  split
  · exact .inr ⟨_, rfl⟩
  · split
    · exact .inr ⟨_, rfl⟩
    · exact .inl rfl

/-- No client is denied before the lifetime has been asked for. -/
theorem next_get_ne_denied (limit window : ℕ) (key : String) (redis : Redis)
    (now seen now' seen' retryAfter : ℕ) :
    Stage.get.next limit window key redis now seen ≠ .answered now' seen' ⟨false, retryAfter⟩ := by
  rw [Stage.next]
  split
  · simp [limiterCheck]
  · split
    · simp [limiterCheck]
    · exact Stage.noConfusion

/-- A check is answered by its second command at the latest. -/
theorem answered_next_next (stage : Stage) (limit window : ℕ) (key : String)
    (redis redis' : Redis) (now now' seen seen' : ℕ) :
    ∃ t n result, (stage.next limit window key redis now seen).next limit window key redis' now'
      seen' = .answered t n result := by
  cases stage with
  | get =>
    rcases next_get limit window key redis now seen with h | ⟨result, h⟩ <;> rw [h] <;>
      exact ⟨_, _, _, rfl⟩
  | ttl => exact ⟨_, _, _, rfl⟩
  | answered => exact ⟨_, _, _, rfl⟩

end PicHost.RateLimit
