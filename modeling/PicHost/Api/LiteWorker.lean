import PicHost.Core.SqliteQueue
import PicHost.Lib.Run
import Mathlib.Logic.Function.Basic

/-!
# The embedded worker of lite mode

Dequeued tasks are handled one by one, in any order relative to new uploads. The ledger
is history: it counts, for each accepted task, how often it was handed out and refused.
-/

namespace PicHost.LiteWorker

open SqliteQueue KeyedTable Serialised LabelledRun

/-- What happened to a task since it was accepted. -/
structure Ledger where
  payload : TaskPayload
  handed : ℕ
  nacks : ℕ
  lastNack : Option NackAction
deriving DecidableEq

structure State (J : Type) where
  tasks : PendingTasks J
  held : List TaskPayload
  ledger : String → Option Ledger

inductive Action
  | enqueue (up : Bool) (now : Instant) (p : TaskPayload)
  | dequeue (up : Bool) (now : Instant) (pick : ℕ)
  | finish (i : ℕ) (failed up : Bool) (now : Instant)

variable {J : Type} (json : Codec TaskPayload J)

/-- `handle_task`, with the outcome of `process_task` given; returns what `nack` returned. -/
def handleTask (failed up : Bool) (now : Instant) (payload : TaskPayload) (t : PendingTasks J) :
    Option (Except QueueError NackAction) × PendingTasks J :=
  if failed then
    let (reply, t') := nack up now payload.taskId payload.retryCount payload.maxRetries t
    (some reply, t')
  else (none, (SqliteQueue.ack up payload.taskId t).2)

namespace Ledger

def start (p : TaskPayload) : Ledger := ⟨p, 0, 0, none⟩

def hand (l : Ledger) : Ledger := { l with handed := l.handed + 1 }

def nack (action : NackAction) (l : Ledger) : Ledger :=
  { l with nacks := l.nacks + 1, lastNack := some action }

end Ledger

namespace State

def init : State J := ⟨Table.empty, [], fun _ => none⟩

/-- The ledger with one entry rewritten. -/
def note (s : State J) (taskId : String) (f : Ledger → Ledger) : String → Option Ledger :=
  Function.update s.ledger taskId ((s.ledger taskId).map f)

end State

def step (s : State J) : Action → State J
  | .enqueue up now p =>
    match SqliteQueue.enqueue json up now p s.tasks with
    | (.ok (), t) =>
      { s with
        tasks := t
        ledger := Function.update s.ledger p.taskId.toText (some (Ledger.start p)) }
    | (.error _, t) => { s with tasks := t }
  | .dequeue up now pick =>
    match SqliteQueue.dequeue json up now pick s.tasks with
    | (.ok (some p), t) =>
      { tasks := t, held := s.held ++ [p], ledger := s.note p.taskId.toText Ledger.hand }
    | (_, t) => { s with tasks := t }
  | .finish i failed up now =>
    match s.held[i]? with
    | none => s
    | some p =>
      match handleTask failed up now p s.tasks with
      | (some (.ok action), t) =>
        { tasks := t
          held := s.held.eraseIdx i
          ledger := s.note p.taskId.toText (Ledger.nack action) }
      | (_, t) => { s with tasks := t, held := s.held.eraseIdx i }

/-- The row of a task is dead. -/
def DeadRow (t : PendingTasks J) (taskId : String) : Prop :=
  ∃ r ∈ t.rows, r.taskId = taskId ∧ r.status = .dead

/-- At most `max_retries + 1` hand-outs; the `max_retries + 1`-th refusal is final. -/
def WithinBound (t : PendingTasks J) (taskId : String) (l : Ledger) : Prop :=
  l.handed ≤ (l.payload.maxRetries + 1).toNat ∧
  (0 < l.nacks → l.payload.maxRetries + 1 ≤ l.nacks →
    l.lastNack = some .deadLetter ∧ DeadRow t taskId)

def Bounded (s : State J) : Prop :=
  ∀ taskId l, s.ledger taskId = some l → WithinBound s.tasks taskId l

/-- Refused tasks either came in with no retry left or have been refused fewer than
`max_retries` times; tasks handed out have no negative bound. -/
def WithinRetries (s : State J) : Action → Prop
  | .enqueue _ _ _ => True
  | .dequeue up _ pick => up = true → ∀ r, nextPending pick s.tasks = some r →
      ∀ p, json.decode r.payloadJson = some p → 0 ≤ p.maxRetries
  | .finish i failed up _ => failed = true → up = true → ∀ p, s.held[i]? = some p →
      p.maxRetries ≤ p.retryCount ∨
        ∀ l, s.ledger p.taskId.toText = some l → (l.nacks : ℤ) < p.maxRetries

/-- A row and the ledger entry of its task. -/
def Agrees (r : PendingTask J) (l : Ledger) : Prop :=
  r.payloadJson = json.encode l.payload ∧ l.payload.taskId.toText = r.taskId ∧
  (r.status = .pending → l.handed = l.nacks) ∧ (r.status = .processing → l.handed = l.nacks + 1)

structure Linked (s : State J) : Prop where
  row : ∀ r ∈ s.tasks.rows, ∃ l, s.ledger r.taskId = some l ∧ Agrees json r l
  heldRow : ∀ p ∈ s.held, ∃ r ∈ s.tasks.rows,
    r.taskId = p.taskId.toText ∧ r.status = .processing ∧ r.payloadJson = json.encode p
  heldOnce : s.held.Pairwise fun p q => p.taskId.toText ≠ q.taskId.toText

/-- Two tables that differ at most in the row of one task. -/
def SameBut (k : String) (t t' : PendingTasks J) : Prop :=
  ∀ r : PendingTask J, r.taskId ≠ k → (r ∈ t'.rows ↔ r ∈ t.rows)

variable {json}

theorem sameBut_update (k : String) (t : PendingTasks J) (f : PendingTask J → PendingTask J)
    (hf : ∀ r, (f r).taskId = r.taskId) :
    SameBut k t (t.update (fun r => r.taskId == k) f hf) := by
  intro r hr
  rw [Table.mem_update_iff]
  constructor
  · rintro (⟨h, -⟩ | ⟨q, -, hq, rfl⟩)
    · exact h
    · exact absurd ((hf q).trans (beq_iff_eq.mp hq)) hr
  · exact fun h => .inl ⟨h, beq_eq_false_iff_ne.mpr hr⟩

theorem mem_update_self (t : PendingTasks J) (f : PendingTask J → PendingTask J)
    (hf : ∀ r, (f r).taskId = r.taskId) {k : String} {r : PendingTask J} (hr : r.taskId = k) :
    r ∈ (t.update (fun r => r.taskId == k) f hf).rows ↔
      ∃ q ∈ t.rows, q.taskId = k ∧ f q = r := by
  rw [Table.mem_update_iff]
  constructor
  · rintro (⟨-, h⟩ | ⟨q, hq, hk, rfl⟩)
    · exact absurd hr (beq_eq_false_iff_ne.mp h)
    · exact ⟨q, hq, beq_iff_eq.mp hk, rfl⟩
  · rintro ⟨q, hq, hk, rfl⟩
    exact .inr ⟨q, hq, beq_iff_eq.mpr hk, rfl⟩

theorem sameBut_delete (k : String) (t : PendingTasks J) :
    SameBut k t (t.delete fun r => r.taskId == k) := by
  intro r hr
  rw [Table.mem_delete]
  exact ⟨fun h => h.1, fun h => ⟨h, beq_eq_false_iff_ne.mpr hr⟩⟩

theorem sameBut_append {k : String} {t t' : PendingTasks J} {q : PendingTask J}
    (hq : q.taskId = k) (h : t'.rows = t.rows ++ [q]) : SameBut k t t' := by
  intro r hr
  rw [h, List.mem_append, List.mem_singleton]
  constructor
  · rintro (h | rfl)
    · exact h
    · exact absurd hq hr
  · exact .inl

/-- In a list without repeated keys no other entry has the key of one that is removed. -/
theorem mem_eraseIdx_of_pairwise {α β : Type} (key : α → β) {l : List α}
    (hl : l.Pairwise fun a b => key a ≠ key b) {i : ℕ} {a b : α} (ha : l[i]? = some a)
    (hb : b ∈ l.eraseIdx i) : b ∈ l ∧ key b ≠ key a := by
  obtain ⟨j, hji, hj⟩ := List.mem_eraseIdx_iff_getElem?.mp hb
  refine ⟨List.mem_of_getElem? hj, ?_⟩
  obtain ⟨hi', hai⟩ := List.getElem?_eq_some_iff.mp ha
  obtain ⟨hj', hbj⟩ := List.getElem?_eq_some_iff.mp hj
  rcases Nat.lt_or_gt_of_ne hji with hlt | hgt
  · have hne := List.pairwise_iff_getElem.mp hl j i hj' hi' hlt
    rwa [hbj, hai] at hne
  · have hne := List.pairwise_iff_getElem.mp hl i j hi' hj' hgt
    rw [hbj, hai] at hne
    exact hne.symm

theorem DeadRow.of_sameBut {k id : String} {t t' : PendingTasks J} (h : SameBut k t t')
    (hid : id ≠ k) : DeadRow t id → DeadRow t' id := by
  rintro ⟨r, hr, rfl, hs⟩
  exact ⟨r, (h r hid).mpr hr, rfl, hs⟩

theorem note_self (s : State J) (k : String) (f : Ledger → Ledger) :
    s.note k f k = (s.ledger k).map f := Function.update_self ..

theorem note_of_entry {s : State J} {k : String} {l : Ledger} (f : Ledger → Ledger)
    (h : s.ledger k = some l) : s.note k f k = some (f l) := by
  rw [note_self, h, Option.map_some]

theorem note_ne (s : State J) {k id : String} (f : Ledger → Ledger) (h : id ≠ k) :
    s.note k f id = s.ledger id := Function.update_of_ne h ..

/-- A step about one task keeps the bound of all others. -/
theorem bounded_iff_of_frame {s s' : State J} {k : String} (hb : Bounded s)
    (hl : ∀ id, id ≠ k → s'.ledger id = s.ledger id) (ht : SameBut k s.tasks s'.tasks) :
    Bounded s' ↔ ∀ l, s'.ledger k = some l → WithinBound s'.tasks k l := by
  refine ⟨fun h l hk => h k l hk, fun h id l hid => ?_⟩
  by_cases hk : id = k
  · subst hk
    exact h l hid
  · rw [hl id hk] at hid
    obtain ⟨hh, hn⟩ := hb id l hid
    exact ⟨hh, fun h0 h1 => ⟨(hn h0 h1).1, (hn h0 h1).2.of_sameBut ht hk⟩⟩

theorem linked_of_frame {s s' : State J} {k : String} (h : Linked json s)
    (hl : ∀ id, id ≠ k → s'.ledger id = s.ledger id) (ht : SameBut k s.tasks s'.tasks)
    (hrow : ∀ r ∈ s'.tasks.rows, r.taskId = k → ∃ l, s'.ledger k = some l ∧ Agrees json r l)
    (hold : ∀ p ∈ s'.held, p.taskId.toText ≠ k → p ∈ s.held)
    (hnew : ∀ p ∈ s'.held, p.taskId.toText = k → ∃ r ∈ s'.tasks.rows,
      r.taskId = p.taskId.toText ∧ r.status = .processing ∧ r.payloadJson = json.encode p)
    (honce : s'.held.Pairwise fun p q => p.taskId.toText ≠ q.taskId.toText) :
    Linked json s' where
  row r hr := by
    by_cases hk : r.taskId = k
    · rw [hk]
      exact hrow r hr hk
    · rw [hl _ hk]
      exact h.row r ((ht r hk).mp hr)
  heldRow p hp := by
    by_cases hk : p.taskId.toText = k
    · exact hnew p hp hk
    · obtain ⟨r, hr, hid, hs⟩ := h.heldRow p (hold p hp hk)
      exact ⟨r, (ht r (hid ▸ hk)).mpr hr, hid, hs⟩
  heldOnce := honce

theorem linked_init : Linked json (State.init : State J) :=
  ⟨fun _ h => absurd h List.not_mem_nil, fun _ h => absurd h List.not_mem_nil, List.Pairwise.nil⟩

theorem bounded_init : Bounded (State.init : State J) := fun _ _ h => nomatch h

/-- Finishing a held task with the database up deletes its row, releases it for another
try or kills it; otherwise the row stays as it is. -/
theorem finish_cases (json : Codec TaskPayload J) {s : State J} {i : ℕ} {p : TaskPayload}
    (hp : s.held[i]? = some p) (failed up : Bool)
    (now : Instant) :
    (up = false ∧ step json s (.finish i failed up now) = { s with held := s.held.eraseIdx i }) ∨
    (up = true ∧ failed = false ∧ step json s (.finish i failed up now) =
      { s with
        tasks := s.tasks.delete fun r => r.taskId == p.taskId.toText
        held := s.held.eraseIdx i }) ∨
    ∃ (f : PendingTask J → PendingTask J) (hf : ∀ r, (f r).taskId = r.taskId)
      (action : NackAction), up = true ∧ failed = true ∧ (∀ r, (f r).payloadJson = r.payloadJson) ∧
      ((p.retryCount < p.maxRetries ∧ action = .retry ∧ ∀ r, (f r).status = .pending) ∨
        (p.maxRetries ≤ p.retryCount ∧ action = .deadLetter ∧ ∀ r, (f r).status = .dead)) ∧
      step json s (.finish i failed up now) =
        { tasks := s.tasks.update (fun r => r.taskId == p.taskId.toText) f hf
          held := s.held.eraseIdx i
          ledger := s.note p.taskId.toText (Ledger.nack action) } := by
  cases up with
  | false =>
    refine .inl ⟨rfl, ?_⟩
    cases failed with
    | false => simp [step, hp, handleTask, SqliteQueue.ack]
    | true => simp [step, hp, handleTask, nack]
  | true =>
    refine .inr ?_
    cases failed with
    | false => exact .inl ⟨rfl, rfl, by simp [step, hp, handleTask, SqliteQueue.ack]⟩
    | true =>
      refine .inr ?_
      by_cases hlt : p.retryCount < p.maxRetries
      · exact ⟨PendingTask.release now p.retryCount, fun _ => rfl, .retry, rfl, rfl,
          fun _ => rfl, .inl ⟨hlt, rfl, fun _ => rfl⟩,
          by simp [step, hp, handleTask, nack, hlt]⟩
      · exact ⟨PendingTask.kill now, fun _ => rfl, .deadLetter, rfl, rfl, fun _ => rfl,
          .inr ⟨not_lt.mp hlt, rfl, fun _ => rfl⟩,
          by simp [step, hp, handleTask, nack, hlt]⟩

namespace Linked

variable {s : State J} (h : Linked json s)
include h

theorem decodes : ∀ r ∈ s.tasks.rows, (json.decode r.payloadJson).isSome := by
  intro r hr
  obtain ⟨l, -, hl, -⟩ := h.row r hr
  rw [hl, json.decode_encode]
  rfl

/-- A held task's entry records one hand-out more than refusals. -/
theorem held_entry {p : TaskPayload} (hp : p ∈ s.held) :
    ∃ l, s.ledger p.taskId.toText = some l ∧ l.payload = p ∧ l.handed = l.nacks + 1 := by
  obtain ⟨r, hr, hid, hs, hj⟩ := h.heldRow p hp
  obtain ⟨l, hl, hlj, -, -, hproc⟩ := h.row r hr
  rw [hid] at hl
  exact ⟨l, hl, json.encode_injective (hlj.symm.trans hj), hproc hs⟩

/-- The row of a held task is not dead. -/
theorem held_not_dead {p : TaskPayload} (hp : p ∈ s.held) :
    ¬ DeadRow s.tasks p.taskId.toText := by
  obtain ⟨r, hr, hid, hs, -⟩ := h.heldRow p hp
  rintro ⟨q, hq, hqid, hqs⟩
  have hrq := row_unique hr hq (hid.trans hqid.symm)
  rw [← hrq, hs] at hqs
  cases hqs

theorem enqueue (up : Bool) (now : Instant) (p : TaskPayload) :
    Linked json (step json s (.enqueue up now p)) := by
  rcases enqueue_cases json up now p s.tasks with he | ⟨t, he, hfree, hrows⟩
  · simp only [step, he]
    exact ⟨h.row, h.heldRow, h.heldOnce⟩
  · have hnone : ∀ q ∈ s.held, q.taskId.toText ≠ p.taskId.toText := by
      intro q hq hk
      obtain ⟨r, hr, hid, -⟩ := h.heldRow q hq
      exact hfree r hr (hid.trans hk)
    simp only [step, he]
    refine linked_of_frame h (fun id hid => Function.update_of_ne hid ..)
      (sameBut_append (newTask_taskId ..) hrows) ?_ (fun q hq _ => hq)
      (fun q hq hk => absurd hk (hnone q hq)) h.heldOnce
    intro r hr hk
    rw [hrows, List.mem_append, List.mem_singleton] at hr
    rcases hr with hr | rfl
    · exact absurd hk (hfree r hr)
    · exact ⟨Ledger.start p, Function.update_self .., rfl, (newTask_taskId ..).symm, fun _ => rfl,
        fun hs => by cases hs⟩

/-- A `dequeue` changes nothing or hands out the payload of a pending task. -/
theorem dequeue_cases (up : Bool) (now : Instant) (pick : ℕ) :
    (step json s (.dequeue up now pick) = s ∧ (up = true → nextPending pick s.tasks = none)) ∨
    ∃ r l, up = true ∧ nextPending pick s.tasks = some r ∧ r ∈ s.tasks.rows ∧
      r.status = .pending ∧ s.ledger r.taskId = some l ∧ Agrees json r l ∧
      step json s (.dequeue up now pick) =
        { tasks := s.tasks.update (fun q => q.taskId == r.taskId) (PendingTask.claim now)
            fun _ => rfl
          held := s.held ++ [l.payload]
          ledger := s.note r.taskId Ledger.hand } := by
  rcases SqliteQueue.dequeue_cases json up now pick h.decodes with ⟨reply, hd, hreply, hnone⟩ |
    ⟨r, p, hup, hnext, hp, hd⟩
  · refine .inl ⟨?_, hnone⟩
    simp only [step, hd]
  · obtain ⟨hr, hs⟩ := nextPending_mem hnext
    obtain ⟨l, hl, hagree⟩ := h.row r hr
    rw [hagree.1, json.decode_encode] at hp
    cases hp
    refine .inr ⟨r, l, hup, hnext, hr, hs, hl, hagree, ?_⟩
    simp only [step, hd, hagree.2.1]

theorem dequeue (up : Bool) (now : Instant) (pick : ℕ) :
    Linked json (step json s (.dequeue up now pick)) := by
  rcases h.dequeue_cases up now pick with ⟨hstep, -⟩ |
    ⟨r, l, -, -, hr, hs, hl, ⟨hj, hid, hpend, -⟩, hstep⟩
  · rwa [hstep]
  · have hfree : ∀ q ∈ s.held, q.taskId.toText ≠ r.taskId := by
      intro q hq hk
      obtain ⟨r', hr', hid', hs', -⟩ := h.heldRow q hq
      rw [row_unique hr' hr (hid'.trans hk), hs] at hs'
      cases hs'
    have hclaimed : PendingTask.claim now r ∈ (s.tasks.update (fun q => q.taskId == r.taskId)
        (PendingTask.claim now) fun _ => rfl).rows :=
      (mem_update_self _ (PendingTask.claim now) (fun _ => rfl) rfl).mpr ⟨r, hr, rfl, rfl⟩
    rw [hstep]
    have hsame := sameBut_update r.taskId s.tasks (PendingTask.claim now) fun _ => rfl
    refine linked_of_frame h (fun id hne => note_ne s _ hne) hsame ?_ ?_ ?_ ?_
    · intro q hq hk
      obtain ⟨r', hr', hk', rfl⟩ :=
        (mem_update_self _ (PendingTask.claim now) (fun _ => rfl) hk).mp hq
      cases row_unique hr' hr hk'
      refine ⟨l.hand, note_of_entry _ hl, hj, hid, (fun hp => nomatch hp), fun _ => ?_⟩
      exact congrArg (· + 1) (hpend hs)
    · intro q hq hk
      rcases List.mem_append.mp hq with hq | hq
      · exact hq
      · exact absurd (List.mem_singleton.mp hq ▸ hid) hk
    · intro q hq hk
      rcases List.mem_append.mp hq with hq | hq
      · exact absurd hk (hfree q hq)
      · rw [List.mem_singleton.mp hq]
        exact ⟨_, hclaimed, hid.symm, rfl, hj⟩
    · refine List.pairwise_append.mpr ⟨h.heldOnce, List.pairwise_singleton _ _, ?_⟩
      intro q hq p hp
      rw [List.mem_singleton.mp hp, hid]
      exact hfree q hq

/-- Once a held task is finished no other held task has its identifier. -/
theorem mem_eraseIdx {i : ℕ} {p q : TaskPayload} (hp : s.held[i]? = some p)
    (hq : q ∈ s.held.eraseIdx i) : q ∈ s.held ∧ q.taskId.toText ≠ p.taskId.toText :=
  mem_eraseIdx_of_pairwise (fun p : TaskPayload => p.taskId.toText) h.heldOnce hp hq

theorem finish (i : ℕ) (failed up : Bool) (now : Instant) :
    Linked json (step json s (.finish i failed up now)) := by
  cases hp : s.held[i]? with
  | none => simpa [step, hp] using h
  | some p =>
    have hsub : (s.held.eraseIdx i).Sublist s.held := List.eraseIdx_sublist ..
    rcases finish_cases json hp failed up now with ⟨-, hstep⟩ | ⟨-, -, hstep⟩ |
      ⟨f, hf, action, -, -, hjson, hact, hstep⟩
    · rw [hstep]
      exact ⟨h.row, fun q hq => h.heldRow q (hsub.subset hq), h.heldOnce.sublist hsub⟩
    · rw [hstep]
      refine linked_of_frame h (fun _ _ => rfl) (sameBut_delete p.taskId.toText _) ?_
        (fun q hq _ => hsub.subset hq) (fun q hq hk => absurd hk (h.mem_eraseIdx hp hq).2)
        (h.heldOnce.sublist hsub)
      intro r hr hk
      exact absurd hk (beq_eq_false_iff_ne.mp (Table.mem_delete.mp hr).2)
    · rw [hstep]
      refine linked_of_frame h (fun id hne => note_ne s _ hne) (sameBut_update _ _ f hf) ?_
        (fun q hq _ => hsub.subset hq) (fun q hq hk => absurd hk (h.mem_eraseIdx hp hq).2)
        (h.heldOnce.sublist hsub)
      intro r hr hk
      obtain ⟨q, hq, hqk, rfl⟩ := (mem_update_self _ f hf hk).mp hr
      obtain ⟨l, hl, hlp, hlh⟩ := h.held_entry (List.mem_of_getElem? hp)
      obtain ⟨l', hl', hj, hid, -⟩ := h.row q hq
      rw [hqk, hl] at hl'
      cases hl'
      refine ⟨l.nack action, note_of_entry _ hl, (hjson q).trans hj,
        hid.trans (hf q).symm, fun _ => hlh, fun hs => ?_⟩
      rcases hact with ⟨-, -, hst⟩ | ⟨-, -, hst⟩ <;> rw [hst] at hs <;> cases hs

theorem step (a : Action) : Linked json (LiteWorker.step json s a) := by
  cases a with
  | enqueue up now p => exact h.enqueue up now p
  | dequeue up now pick => exact h.dequeue up now pick
  | finish i failed up now => exact h.finish i failed up now

variable (hb : Bounded s)
include hb

omit h in
theorem enqueue_bounded (up : Bool) (now : Instant) (p : TaskPayload) :
    Bounded (LiteWorker.step json s (.enqueue up now p)) := by
  rcases enqueue_cases json up now p s.tasks with he | ⟨t, he, -, hrows⟩
  · simpa only [LiteWorker.step, he] using hb
  · simp only [LiteWorker.step, he]
    refine (bounded_iff_of_frame hb (fun id hid => Function.update_of_ne hid ..)
      (sameBut_append (newTask_taskId ..) hrows)).mpr ?_
    intro l hl
    simp only [Function.update_self, Option.some.injEq] at hl
    subst hl
    exact ⟨Nat.zero_le _, fun h0 => absurd h0 (lt_irrefl 0)⟩

theorem dequeue_bounded_iff (up : Bool) (now : Instant) (pick : ℕ) :
    Bounded (LiteWorker.step json s (.dequeue up now pick)) ↔
      WithinRetries json s (.dequeue up now pick) := by
  rcases h.dequeue_cases up now pick with ⟨hstep, hnone⟩ |
    ⟨r, l, hup, hnext, hr, hs, hl, ⟨hj, hid, hpend, -⟩, hstep⟩
  · rw [hstep]
    apply iff_of_true hb
    intro hup r hr
    rw [hnone hup] at hr
    cases hr
  · have hguard : WithinRetries json s (.dequeue up now pick) ↔ 0 ≤ l.payload.maxRetries := by
      simp only [WithinRetries, hup, hnext, Option.some.injEq, forall_eq', hj,
        json.decode_encode, true_implies]
    rw [hguard, hstep, bounded_iff_of_frame hb (fun id hne => note_ne s _ hne)
      (sameBut_update r.taskId _ (PendingTask.claim now) fun _ => rfl)]
    simp only [note_self, hl, Option.map_some, Option.some.injEq, forall_eq']
    obtain ⟨-, hn⟩ := hb _ l hl
    -- a pending row is not dead, so the refusals so far stay below the bound
    have hlow : 0 < l.nacks → (l.nacks : ℤ) ≤ l.payload.maxRetries := by
      intro h0
      by_contra hgt
      obtain ⟨-, q, hq, hqid, hqs⟩ := hn h0 (by omega)
      rw [row_unique hq hr hqid, hs] at hqs
      cases hqs
    have hhand := hpend hs
    constructor
    · rintro ⟨hle, -⟩
      simp only [Ledger.hand] at hle
      omega
    · intro h0
      refine ⟨?_, fun hpos hmax => ?_⟩
      · simp only [Ledger.hand]
        omega
      · simp only [Ledger.hand] at hpos hmax
        have := hlow hpos
        omega

theorem finish_bounded_iff (i : ℕ) (failed up : Bool) (now : Instant) :
    Bounded (LiteWorker.step json s (.finish i failed up now)) ↔
      WithinRetries json s (.finish i failed up now) := by
  cases hp : s.held[i]? with
  | none =>
    apply iff_of_true (by simpa [LiteWorker.step, hp] using hb)
    intro _ _ q hq
    rw [hp] at hq
    cases hq
  | some p =>
    have hmem := List.mem_of_getElem? hp
    obtain ⟨l, hl, rfl, hlh⟩ := h.held_entry hmem
    have hdead := h.held_not_dead hmem
    obtain ⟨hle, hn⟩ := hb _ l hl
    rcases finish_cases json hp failed up now with ⟨hup, hstep⟩ | ⟨hup, hf, hstep⟩ |
      ⟨f, hf, action, hup, hfail, -, hact, hstep⟩
    · rw [hstep]
      exact iff_of_true hb fun _ hup' => absurd hup' (by simp [hup])
    · rw [hstep]
      refine iff_of_true ?_ fun hf' => absurd hf' (by simp [hf])
      refine Iff.mpr (bounded_iff_of_frame hb (fun _ _ => rfl)
        (sameBut_delete l.payload.taskId.toText s.tasks)) fun l' hl' => ?_
      rw [hl] at hl'
      cases hl'
      exact ⟨hle, fun h0 h1 => absurd (hn h0 h1).2 hdead⟩
    · have hguard : WithinRetries json s (.finish i failed up now) ↔
          l.payload.maxRetries ≤ l.payload.retryCount ∨ (l.nacks : ℤ) < l.payload.maxRetries := by
        simp only [WithinRetries, hup, hfail, hp, hl, Option.some.injEq, forall_eq', true_implies]
      rw [hguard, hstep, bounded_iff_of_frame hb (fun id hne => note_ne s _ hne)
        (sameBut_update _ _ f hf)]
      simp only [note_self, hl, Option.map_some, Option.some.injEq, forall_eq', WithinBound,
        Ledger.nack]
      have hrow : ∀ st, (∀ r, (f r).status = st) → ∀ q ∈ (s.tasks.update
          (fun r => r.taskId == l.payload.taskId.toText) f hf).rows,
          q.taskId = l.payload.taskId.toText → q.status = st := by
        intro st hst q hq hqk
        obtain ⟨r, -, -, rfl⟩ := (mem_update_self _ f hf hqk).mp hq
        exact hst r
      rcases hact with ⟨hlt, rfl, hst⟩ | ⟨hge, rfl, hst⟩
      · constructor
        · rintro ⟨-, hbad⟩
          refine .inr (lt_of_not_ge fun hge => ?_)
          have := (hbad (Nat.succ_pos _) (by push_cast; omega)).1
          cases this
        · rintro (hge | hlow)
          · exact absurd hlt (not_lt.mpr hge)
          · exact ⟨hle, fun _ hmax => by push_cast at hmax; omega⟩
      · refine iff_of_true ⟨hle, fun _ _ => ⟨rfl, ?_⟩⟩ (.inl hge)
        obtain ⟨r, hr, hid, -⟩ := h.heldRow _ hmem
        exact ⟨f r, (mem_update_self _ f hf ((hf r).trans hid)).mpr ⟨r, hr, hid, rfl⟩,
          (hf r).trans hid, hst r⟩

theorem bounded_iff (a : Action) :
    Bounded (LiteWorker.step json s a) ↔ WithinRetries json s a := by
  cases a with
  | enqueue up now p => exact iff_of_true (enqueue_bounded hb up now p) trivial
  | dequeue up now pick => exact h.dequeue_bounded_iff hb up now pick
  | finish i failed up now => exact h.finish_bounded_iff hb i failed up now

end Linked

variable (json) in
/-- A run keeps every task within its bound exactly when no task that came in with a retry
left is refused more than `max_retries` times: the count in the stored payload never moves. -/
theorem lite_run_bounded_iff (as : List Action) :
    AllStates (step json) Bounded State.init as ↔
      AllSteps (step json) (WithinRetries json) State.init as :=
  allStates_iff_allSteps (fun _ a hs => hs.step a) (fun _ a hs hb => hs.bounded_iff hb a)
    linked_init bounded_init as

/-- A task as the upload enqueues it. -/
def poison : TaskPayload where
  taskId := 1
  imageId := 2
  userId := 3
  storageBackend := "local"
  storageConfigId := none
  storageBackendName := "local"
  sourceKey := "00000000-0000-0000-0000-000000000003/abc123"
  sourceMime := "image/png"
  retryCount := 0
  maxRetries := 3

def poisonRun : List Action :=
  .enqueue true 0 poison ::
    (List.replicate 5 [Action.dequeue true 1 0, .finish 0 true true 1]).flatten

/-- A task that always fails is handed out a fifth time. -/
theorem lite_run_not_bounded : ¬ ∀ as, AllStates (step Codec.self) Bounded State.init as := by
  intro h
  have hentry : (poisonRun.foldl (step Codec.self) State.init).ledger poison.taskId.toText =
      some ⟨poison, 5, 5, some .retry⟩ := by decide +kernel
  have hle := ((h poisonRun).last _ _ hentry).1
  exact absurd hle (by decide)

end PicHost.LiteWorker
