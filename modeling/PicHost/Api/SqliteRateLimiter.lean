import PicHost.Api.RateLimit

/-!
# The rate limiter on SQLite

Instants are nanoseconds of the clock. A check reads the clock and later executes one statement;
one whose statement fails leaves nothing behind, as if it stayed before it.
-/

namespace PicHost.SqliteRateLimiter

open LabelledRun Timestamps
open RateLimit (RateLimitResult RateLimiterError limiterCheck)

/-- A `Duration` of whole seconds. -/
structure Window where
  secs : ℕ
  pos : 1 ≤ secs
  lt : secs < 2 ^ 64

/-- `as i64` of a `u64`. -/
def asI64 (n : ℕ) : ℤ := if n < 2 ^ 63 then n else n - 2 ^ 64

def timestamp (now : ℕ) : ℕ := now / secondNanos

def windowStart (window : Window) (now : ℕ) : ℤ := (timestamp now : ℤ).tdiv (asI64 window.secs)

structure Client where
  policy : String
  key : String
deriving DecidableEq

/-- The primary key of `rate_limits`. -/
structure RowKey where
  client : Client
  windowStart : ℤ
deriving DecidableEq

/-- The counts. -/
abbrev RateLimits := RowKey → Option ℕ

/-- `INSERT … ON CONFLICT … DO UPDATE … RETURNING count`. -/
def insertReturning (row : RowKey) (rows : RateLimits) : ℕ × RateLimits :=
  let count := (rows row).elim 1 (· + 1)
  (count, Function.update rows row (some count))

/-- What is made of the count. SQLite goes on counting in reals, which are not read as `i64`. -/
def answer (limit : UInt32) (window : Window) (count : ℕ) :
    Except RateLimiterError RateLimitResult :=
  if count < 2 ^ 63 then
    if count ≤ limit.toNat then .ok ⟨true, 0⟩ else .ok ⟨false, window.secs⟩
  else .error .other

structure Call where
  client : Client
  limit : UInt32
deriving DecidableEq

/-- A check that has read the clock. -/
structure Started where
  call : Call
  now : ℕ
  windowStart : ℤ
deriving DecidableEq

def Started.row (s : Started) : RowKey := ⟨s.call.client, s.windowStart⟩

/-- A check whose statement was executed at `now`, when `seen` checks had started. -/
structure Executed where
  started : Started
  now : ℕ
  seen : ℕ
  result : RateLimitResult
deriving DecidableEq

/-- `started` and `executed` are histories, in the order of the clock and of the statements. -/
structure World where
  now : ℕ
  rows : RateLimits
  pending : List Started
  started : List Started
  executed : List Executed

inductive Action
  | start (wait : ℕ) (call : Call)
  | statement (wait i : ℕ)

section Runs

variable (windows : String → Window)

/-- The statement of a check, up to the end of `limiter_check`. -/
def execute (s : Started) (rows : RateLimits) : RateLimitResult × RateLimits :=
  let (count, rows) := insertReturning s.row rows
  (limiterCheck (answer s.call.limit (windows s.call.client.policy) count), rows)

def step (w : World) : Action → World
  | .start wait call =>
    let now := w.now + wait
    let s := ⟨call, now, windowStart (windows call.client.policy) now⟩
    { w with now, pending := w.pending ++ [s], started := w.started ++ [s] }
  | .statement wait i =>
    let now := w.now + wait
    match w.pending[i]? with
    | none => { w with now }
    | some s =>
      let (result, rows) := execute windows s w.rows
      { w with
        now
        rows
        pending := w.pending.eraseIdx i
        executed := w.executed ++ [⟨s, now, w.started.length, result⟩] }

def World.init (now : ℕ) : World := ⟨now, fun _ => none, [], [], []⟩

/-- The checks one after the other. -/
def executeAll : RateLimits → List Started → List RateLimitResult
  | _, [] => []
  | rows, s :: rest =>
    let (result, rows) := execute windows s rows
    result :: executeAll rows rest

/-- The clock shows one window of the policy for both, counted from the epoch. -/
def Started.SameWindow (s s' : Started) : Prop :=
  s.call.client = s'.call.client ∧
    timestamp s.now / (windows s.call.client.policy).secs =
      timestamp s'.now / (windows s'.call.client.policy).secs

instance (s s' : Started) : Decidable (s.SameWindow windows s') :=
  inferInstanceAs (Decidable (_ ∧ _))

structure WindowLaw (w : World) : Prop where
  /-- Exactly the first checks of a window are allowed. -/
  first : ∀ n e, w.executed[n]? = some e → (e.result.allowed = true ↔
    (w.executed.take n).countP (fun d => d.started.SameWindow windows e.started) <
      e.started.call.limit.toNat)
  /-- A client gets the answers that it would get alone. -/
  alone : ∀ client, ((w.executed.filter fun e => e.started.call.client = client).map
      Executed.result) = executeAll windows (fun _ => none)
    ((w.executed.filter fun e => e.started.call.client = client).map Executed.started)
  /-- A client that was denied and has waited finds none of its checks in the window. -/
  waited : ∀ e ∈ w.executed, e.result.allowed = false → ∀ s ∈ w.started,
    s.call.client = e.started.call.client → e.now + e.result.retryAfter * secondNanos ≤ s.now →
    ∀ c ∈ w.started.take e.seen, ¬ c.SameWindow windows s

/-- The seconds of the window are an `i64`, or the clock has not come to where their negative
value matters; and the count is less than the greatest `i64`. -/
def Fits (w : World) : Action → Prop
  | .start wait call =>
    (windows call.client.policy).secs < 2 ^ 63 ∨
      timestamp (w.now + wait) < 2 ^ 64 - (windows call.client.policy).secs
  | .statement _ i => ∀ s ∈ w.pending[i]?, (w.rows s.row).getD 0 + 1 < 2 ^ 63

instance (w : World) : DecidablePred (Fits windows w)
  | .start _ _ => inferInstanceAs (Decidable (_ ∨ _))
  | .statement _ _ => inferInstanceAs (Decidable (∀ s ∈ _, _))

end Runs

/-! ## The index of a window -/

theorem windowStart_eq {window : Window} {now : ℕ}
    (h : window.secs < 2 ^ 63 ∨ timestamp now < 2 ^ 64 - window.secs) :
    windowStart window now = ((timestamp now / window.secs : ℕ) : ℤ) := by
  by_cases hlt : window.secs < 2 ^ 63
  · rw [windowStart, asI64, if_pos hlt, Int.ofNat_tdiv]
  · -- The divisor is negative, and greater in size than what it divides.
    have hnow := h.resolve_left hlt
    have hsecs := window.lt
    have hnegative : (window.secs : ℤ) - 2 ^ 64 = -((2 ^ 64 - window.secs : ℕ) : ℤ) := by omega
    rw [windowStart, asI64, if_neg hlt, hnegative, Int.tdiv_neg, ← Int.ofNat_tdiv,
      Nat.div_eq_of_lt hnow, Nat.div_eq_of_lt (by omega)]
    rfl

/-! ## What the rows count -/

section Counts

variable {windows : String → Window}

theorem execute_eq (s : Started) (rows : RateLimits) : execute windows s rows =
    (limiterCheck (answer s.call.limit (windows s.call.client.policy)
        ((rows s.row).getD 0 + 1)),
      Function.update rows s.row (some ((rows s.row).getD 0 + 1))) := by
  rw [execute, insertReturning]
  cases rows s.row <;> rfl

/-- The rows that so many checks leave. -/
def rowsAfter (windows : String → Window) (checks : List Started) : RateLimits :=
  checks.foldl (fun rows s => (execute windows s rows).2) fun _ => none

theorem rowsAfter_append (checks : List Started) (s : Started) :
    rowsAfter windows (checks ++ [s]) = (execute windows s (rowsAfter windows checks)).2 := by
  rw [rowsAfter, List.foldl_append]
  rfl

theorem getD_rowsAfter (checks : List Started) (row : RowKey) :
    (rowsAfter windows checks row).getD 0 = checks.countP fun s => s.row = row := by
  induction checks using List.reverseRecOn with
  | nil => rfl
  | append_singleton checks s ih =>
    rw [rowsAfter_append, execute_eq, List.countP_append, List.countP_singleton, ← ih]
    -- The statement counts in its own row only.
    by_cases hrow : s.row = row
    · subst hrow
      simp
    · simp [hrow, Ne.symm hrow]

theorem executeAll_cons (rows : RateLimits) (s : Started) (rest : List Started) :
    executeAll windows rows (s :: rest) =
      (execute windows s rows).1 :: executeAll windows (execute windows s rows).2 rest := rfl

theorem executeAll_append (rows : RateLimits) (checks : List Started) (s : Started) :
    executeAll windows rows (checks ++ [s]) = executeAll windows rows checks ++
      [(execute windows s (checks.foldl (fun rows s => (execute windows s rows).2) rows)).1] := by
  induction checks generalizing rows with
  | nil => rfl
  | cons c checks ih =>
    rw [List.cons_append, executeAll_cons, ih, executeAll_cons, List.foldl_cons, List.cons_append]

/-- What the `n`-th executed check is counted as. -/
def place (executed : List Executed) (n : ℕ) (e : Executed) : ℕ :=
  ((executed.take n).countP fun d => d.started.row = e.started.row) + 1

/-- Every check has got the answer for the checks of its row that came before it. -/
def Answered (windows : String → Window) (executed : List Executed) : Prop :=
  ∀ n e, executed[n]? = some e → e.result =
    limiterCheck (answer e.started.call.limit (windows e.started.call.client.policy)
      (place executed n e))

theorem place_append {executed : List Executed} {n : ℕ} (hn : n ≤ executed.length)
    (d e : Executed) :
    place (executed ++ [d]) n e = place executed n e := by
  rw [place, place, List.take_append_of_le_length hn]

theorem Answered.append {executed : List Executed} {e : Executed} (h : Answered windows executed)
    (he : e.result = limiterCheck (answer e.started.call.limit
      (windows e.started.call.client.policy) (place executed executed.length e))) :
    Answered windows (executed ++ [e]) := by
  intro n d hd
  rcases LabelledRun.getElem?_append_singleton.mp hd with hd | ⟨rfl, rfl⟩
  · have hn := (List.getElem?_eq_some_iff.mp hd).1
    rw [place_append hn.le]
    exact h n d hd
  · rw [place_append le_rfl]
    exact he

theorem Answered.init {executed : List Executed} {e : Executed}
    (h : Answered windows (executed ++ [e])) : Answered windows executed ∧
      e.result = limiterCheck (answer e.started.call.limit
        (windows e.started.call.client.policy) (place executed executed.length e)) := by
  refine ⟨fun n d hd => ?_, ?_⟩
  · have hn := (List.getElem?_eq_some_iff.mp hd).1
    rw [← place_append hn.le e]
    exact h n d (LabelledRun.getElem?_append_singleton.mpr (.inl hd))
  · rw [← place_append le_rfl e]
    exact h _ e (LabelledRun.getElem?_append_singleton.mpr (.inr ⟨rfl, rfl⟩))

/-- A client gets the answers that it would get alone. -/
theorem Answered.alone {executed : List Executed} (h : Answered windows executed)
    (client : Client) :
    (executed.filter fun e => e.started.call.client = client).map Executed.result =
      executeAll windows (fun _ => none)
        ((executed.filter fun e => e.started.call.client = client).map Executed.started) := by
  induction executed using List.reverseRecOn with
  | nil => rfl
  | append_singleton executed e ih =>
    obtain ⟨hinit, he⟩ := h.init
    rw [List.filter_append]
    by_cases hclient : e.started.call.client = client
    · -- The rows of the check are rows of its client.
      have hcount : (((executed.filter fun e => e.started.call.client = client).map
          Executed.started).countP fun s => s.row = e.started.row) =
          executed.countP fun d => d.started.row = e.started.row := by
        rw [List.countP_map, List.countP_filter]
        apply List.countP_congr
        intro d _
        simp only [Function.comp_apply, Bool.and_eq_true, decide_eq_true_eq]
        exact ⟨fun hd => hd.1, fun hd => ⟨hd, (congrArg RowKey.client hd).trans hclient⟩⟩
      rw [List.filter_singleton, decide_eq_true hclient, cond_true, List.map_append,
        List.map_append, List.map_singleton, List.map_singleton, executeAll_append, ← ih hinit, he,
        execute_eq, ← rowsAfter, getD_rowsAfter, hcount, place, List.take_length]
    · rw [List.filter_singleton, decide_eq_false hclient, cond_false, List.append_nil]
      exact ih hinit

end Counts

/-! ## Runs -/

section Invariant

variable {windows : String → Window} {w : World}

/-- A check stands where the clock was when it was read. -/
def Aligned (windows : String → Window) (s : Started) : Prop :=
  s.windowStart = ((timestamp s.now / (windows s.call.client.policy).secs : ℕ) : ℤ)

/-- The check is one of those that had started, all of them before its statement. -/
structure Placed (started : List Started) (e : Executed) : Prop where
  mem : e.started ∈ started
  seen : e.seen ≤ started.length
  before : ∀ c ∈ started.take e.seen, c.now ≤ e.now

structure Tracked (windows : String → Window) (w : World) : Prop where
  aligned : ∀ s ∈ w.started, Aligned windows s
  clock : ∀ s ∈ w.started, s.now ≤ w.now
  pending : ∀ s ∈ w.pending, s ∈ w.started
  placed : ∀ e ∈ w.executed, Placed w.started e
  rows : w.rows = rowsAfter windows (w.executed.map Executed.started)
  answered : Answered windows w.executed
  counted : ∀ n e, w.executed[n]? = some e → place w.executed n e < 2 ^ 63

theorem Placed.append {started : List Started} {e : Executed} (h : Placed started e)
    (s : Started) : Placed (started ++ [s]) e := by
  refine ⟨List.mem_append_left _ h.mem, ?_, ?_⟩
  · have hseen := h.seen
    rw [List.length_append]
    omega
  · rw [List.take_append_of_le_length h.seen]
    exact h.before

theorem Tracked.wait (h : Tracked windows w) (wait : ℕ) :
    Tracked windows { w with now := w.now + wait } :=
  { h with clock := fun s hs => (h.clock s hs).trans (Nat.le_add_right _ _) }

theorem Tracked.start (h : Tracked windows w) {wait : ℕ} {call : Call}
    (hfit : Fits windows w (.start wait call)) :
    Tracked windows (step windows w (.start wait call)) := by
  have haligned : Aligned windows
      ⟨call, w.now + wait, windowStart (windows call.client.policy) (w.now + wait)⟩ :=
    windowStart_eq hfit
  refine { h with aligned := ?_, clock := ?_, pending := ?_, placed := ?_ }
  · intro s hs
    rcases List.mem_append.mp hs with hs | hs
    · exact h.aligned s hs
    · rwa [List.mem_singleton.mp hs]
  · intro s hs
    rcases List.mem_append.mp hs with hs | hs
    · exact (h.wait wait).clock s hs
    · rw [List.mem_singleton.mp hs]
      exact le_rfl
  · intro s hs
    rcases List.mem_append.mp hs with hs | hs
    · exact List.mem_append_left _ (h.pending s hs)
    · exact List.mem_append_right _ hs
  · exact fun e he => (h.placed e he).append _

theorem Tracked.statement (h : Tracked windows w) {wait i : ℕ}
    (hfit : Fits windows w (.statement wait i)) :
    Tracked windows (step windows w (.statement wait i)) := by
  cases hs : w.pending[i]? with
  | none =>
    rw [step, hs]
    exact h.wait wait
  | some s =>
    have hmem := h.pending s (List.mem_of_getElem? hs)
    have hcount : (w.rows s.row).getD 0 =
        w.executed.countP fun d => d.started.row = s.row := by
      rw [h.rows, getD_rowsAfter, List.countP_map]
      rfl
    rw [step, hs]
    dsimp only
    rw [execute_eq]
    refine ⟨h.aligned, (h.wait wait).clock, ?_, ?_, ?_, ?_, ?_⟩
    · exact fun s hs => h.pending s (List.mem_of_mem_eraseIdx hs)
    · intro e he
      rcases List.mem_append.mp he with he | he
      · exact h.placed e he
      · rw [List.mem_singleton.mp he]
        exact ⟨hmem, le_rfl, fun c hc => (h.wait wait).clock c (List.mem_of_mem_take hc)⟩
    · rw [List.map_append, List.map_singleton, rowsAfter_append, ← h.rows, execute_eq]
    · apply h.answered.append
      dsimp only
      rw [hcount, place, List.take_length]
    · intro n e he
      rcases LabelledRun.getElem?_append_singleton.mp he with he | ⟨rfl, rfl⟩
      · rw [place_append (List.getElem?_eq_some_iff.mp he).1.le]
        exact h.counted n e he
      · rw [place_append le_rfl, place, List.take_length]
        dsimp only
        rw [← hcount]
        exact hfit s hs

theorem tracked_step (h : Tracked windows w) (a : Action) (hfit : Fits windows w a) :
    Tracked windows (step windows w a) := by
  cases a with
  | start wait call => exact h.start hfit
  | statement wait i => exact h.statement hfit

theorem tracked_init (windows : String → Window) (now : ℕ) :
    Tracked windows (World.init now) where
  aligned _ hs := by cases hs
  clock _ hs := by cases hs
  pending _ hs := by cases hs
  placed _ he := by cases he
  rows := rfl
  answered _ _ he := by cases he
  counted _ _ he := by cases he

/-! ## The law -/

theorem row_eq_iff {s s' : Started} (hs : Aligned windows s) (hs' : Aligned windows s') :
    s.row = s'.row ↔ s.SameWindow windows s' := by
  rw [Started.row, Started.row, RowKey.mk.injEq, hs, hs', Nat.cast_inj]
  rfl

/-- The count is within `i64`, so it is compared with the limit. -/
theorem Tracked.result_eq (h : Tracked windows w) {n : ℕ} {e : Executed}
    (he : w.executed[n]? = some e) : e.result =
      if place w.executed n e ≤ e.started.call.limit.toNat then ⟨true, 0⟩
      else ⟨false, (windows e.started.call.client.policy).secs⟩ := by
  rw [h.answered n e he, answer, if_pos (h.counted n e he)]
  split <;> rfl

theorem Tracked.first (h : Tracked windows w) {n : ℕ} {e : Executed}
    (he : w.executed[n]? = some e) : e.result.allowed = true ↔
      (w.executed.take n).countP (fun d => d.started.SameWindow windows e.started) <
        e.started.call.limit.toNat := by
  have haligned (d : Executed) (hd : d ∈ w.executed) : Aligned windows d.started :=
    h.aligned _ (h.placed d hd).mem
  have hcount : (w.executed.take n).countP (fun d => d.started.row = e.started.row) =
      (w.executed.take n).countP (fun d => d.started.SameWindow windows e.started) := by
    apply List.countP_congr
    intro d hd
    rw [decide_eq_true_eq, decide_eq_true_eq]
    exact row_eq_iff (haligned d (List.mem_of_mem_take hd)) (haligned e (List.mem_of_getElem? he))
  rw [h.result_eq he, place, hcount]
  split
  · rename_i hle
    exact iff_of_true rfl hle
  · rename_i hgt
    exact iff_of_false Bool.false_ne_true hgt

/-- A whole window lies between a check and one after a denial and the wait. -/
theorem Tracked.waited (h : Tracked windows w) {e : Executed} (he : e ∈ w.executed)
    (hdenied : e.result.allowed = false) {s : Started}
    (hclient : s.call.client = e.started.call.client)
    (hwait : e.now + e.result.retryAfter * secondNanos ≤ s.now) {c : Started}
    (hc : c ∈ w.started.take e.seen) : ¬ c.SameWindow windows s := by
  rintro ⟨hsame, hindex⟩
  obtain ⟨n, hn⟩ := List.getElem?_of_mem he
  have hresult := h.result_eq hn
  have hretry : e.result.retryAfter = (windows s.call.client.policy).secs := by
    rw [hresult, if_neg, hclient]
    intro hle
    rw [hresult, if_pos hle] at hdenied
    cases hdenied
  -- The check had started when the denial came, so the wait is at least a window.
  have hbefore := (h.placed e he).before c hc
  rw [hsame] at hindex
  rw [hretry] at hwait
  have hpos := (windows s.call.client.policy).pos
  have hlater : timestamp c.now + (windows s.call.client.policy).secs ≤ timestamp s.now := by
    have hnanos : 0 < secondNanos := by decide
    rw [timestamp, timestamp, ← Nat.add_mul_div_right _ _ hnanos]
    exact Nat.div_le_div_right (by omega)
  have hnext := Nat.div_le_div_right (c := (windows s.call.client.policy).secs) hlater
  rw [Nat.add_div_right _ hpos] at hnext
  omega

theorem windowLaw_of_tracked (h : Tracked windows w) : WindowLaw windows w where
  first _ _ he := h.first he
  alone client := h.answered.alone client
  waited _ he hdenied _ _ hclient hwait _ hc := h.waited he hdenied hclient hwait hc

/-- Every run keeps the law whose numbers stay within `i64`. -/
theorem windowLaw_of_fits (windows : String → Window) (now : ℕ) {as : List Action}
    (hfits : AllSteps (step windows) (Fits windows) (World.init now) as) :
    AllStates (step windows) (WindowLaw windows) (World.init now) as := by
  have htracked : AllStates (step windows) (Tracked windows) (World.init now) as :=
    allStates_of_guarded (J := Tracked windows) (fun _ a h hfit => tracked_step h a hfit)
      (tracked_init windows now) hfits
  exact htracked.mono fun _ h => windowLaw_of_tracked h

end Invariant

def minute (_ : String) : Window := ⟨60, by decide, by decide⟩

def forever (_ : String) : Window := ⟨2 ^ 64 - 1, by decide, by decide⟩

def login : Call := ⟨⟨"auth", "10.0.0.1"⟩, 1⟩

/-- Two checks a second apart, of which the first is not executed before the clock is read for the
second. -/
def twoLogins : List Action :=
  [.start secondNanos login, .start secondNanos login, .statement 0 0, .statement 0 0]

theorem windowLaw_twoLogins :
    AllStates (step minute) (WindowLaw minute) (World.init 0) twoLogins :=
  windowLaw_of_fits minute 0 (by decide +kernel)

/-- With the longest window of a `Duration` every second is a window. -/
theorem second_login : ¬ ∀ (windows : String → Window) (now : ℕ) (as : List Action),
    AllStates (step windows) (WindowLaw windows) (World.init now) as := by
  intro h
  have hlaw := (h forever 0 twoLogins).last
  have hfirst := hlaw.first 1 ⟨⟨login, 2 * secondNanos, -2⟩, 2 * secondNanos, 2, ⟨true, 0⟩⟩
    (by decide +kernel)
  exact absurd (hfirst.mp rfl) (by decide +kernel)

end PicHost.SqliteRateLimiter
