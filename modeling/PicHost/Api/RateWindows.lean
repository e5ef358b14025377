import PicHost.Api.RateLimit

/-!
# Which requests of a window are let through

Windows start at the first request after the one before them and are as long as the limiter was
told. What the key counts are the requests since the last pause of that length.
-/

namespace PicHost.RateLimit

open LabelledRun LapsingCounter Timestamps

namespace World

/-- The place of the `i`-th request in its window. -/
def place (w : World) (window i : ℕ) (client : Client) : ℕ :=
  LapsingCounter.place window (hitsOf client (w.arrivals.take (i + 1)))

def Answered (w : World) (i : ℕ) (a : Arrival) (now seen : ℕ) (result : RateLimitResult) : Prop :=
  w.arrivals[i]? = some a ∧ w.stage i = .answered now seen result

/-- The request waited for the seconds that a denied one had been told, and no other of its
client came in between. -/
def Waited (w : World) (i : ℕ) (a : Arrival) : Prop :=
  ∃ j b now seen retryAfter, w.Answered j b now seen ⟨false, retryAfter⟩ ∧ b.client = a.client ∧
    seen ≤ i ∧ now + retryAfter * secondNanos ≤ a.now ∧
    ∀ l c, seen ≤ l → l < i → w.arrivals[l]? = some c → c.client ≠ a.client

end World

structure WindowLaw (config : RateLimitConfig) (window : ℕ) (w : World) : Prop where
  /-- Exactly the first requests of a window are allowed. -/
  first : ∀ i a allowed, w.arrivals[i]? = some a → (w.stage i).verdict = some allowed →
    (allowed = true ↔ w.place window i a.client ≤ a.client.policy.max config)
  /-- A client with sparse requests is never denied. -/
  sparse : ∀ client, Sparse (client.policy.max config) window (hitsOf client w.arrivals) →
    ∀ i a, w.arrivals[i]? = some a → a.client = client → (w.stage i).verdict ≠ some false
  /-- A client that waited as told is allowed. -/
  waited : ∀ i a allowed, w.arrivals[i]? = some a → w.Waited i a →
    (w.stage i).verdict = some allowed → allowed = true

/-- When the counter is read, the requests since the last pause are at most the limit exactly if
the request is one of the first of its window. -/
def ReadsWindow (config : RateLimitConfig) (window : ℕ) (w : World) : Action → Prop
  | .request _ _ => True
  | .command wait i => ∀ a, w.arrivals[i]? = some a → w.stage i = .get →
      (sincePause (window / secondNanos * secondNanos) (w.now + wait) (hitsOf a.client w.arrivals) ≤
          a.client.policy.max config ↔
        w.place window i a.client ≤ a.client.policy.max config)

/-- When a denied check asks for the lifetime before it is over, the seconds to which the rest of
it rounds reach the end of the window. The lifetime ends one window after the last request. -/
def ReachesEnd (window : ℕ) (w : World) : Action → Prop
  | .request _ _ => True
  | .command wait i => ∀ a, w.arrivals[i]? = some a → w.stage i = .ttl →
      ∀ last ∈ (hitsOf a.client w.arrivals).getLast?,
        let rest := last + window / secondNanos * secondNanos - (w.now + wait)
        0 < rest → windowEnd window (hitsOf a.client w.arrivals) ≤
          w.now + wait + (rest + secondNanos / 2) / secondNanos * secondNanos

section Invariant

variable {config : RateLimitConfig} {window : ℕ} {w : World}

/-- Every key counts the requests since the last pause, and requests are in the order of their
instants. -/
structure Tracked (window : ℕ) (w : World) : Prop where
  counted : ∀ client : Client, w.redis client.redisKey =
    (after true (window / secondNanos * secondNanos) (hitsOf client w.arrivals)).map redisCounter
  sorted : (w.arrivals.map Arrival.now).Pairwise (· ≤ ·)
  past : ∀ a ∈ w.arrivals, a.now ≤ w.now

theorem hitsOf_append (client : Client) (arrivals : List Arrival) (a : Arrival) :
    hitsOf client (arrivals ++ [a]) =
      hitsOf client arrivals ++ if a.client = client then [a.now] else [] := by
  rw [hitsOf, List.filter_append, List.map_append, List.filter_singleton]
  by_cases h : a.client = client
  · rw [if_pos h, decide_eq_true h]
    rfl
  · rw [if_neg h, decide_eq_false h]
    rfl

theorem tracked_start (now : ℕ) : Tracked window (World.start now) :=
  ⟨fun _ => rfl, List.Pairwise.nil, fun _ ha => (List.not_mem_nil ha).elim⟩

theorem Tracked.sorted_hits (h : Tracked window w) (client : Client) :
    (hitsOf client w.arrivals).Pairwise (· ≤ ·) :=
  h.sorted.sublist (List.filter_sublist.map _)

/-- A lifetime of no length is over. -/
theorem Tracked.deadline_le (h : Tracked window w) {client : Client} {c : Counter}
    (hc : after true (0 * secondNanos) (hitsOf client w.arrivals) = some c) :
    c.deadline ≤ w.now := by
  cases hlast : (hitsOf client w.arrivals).getLast? with
  | none =>
    rw [List.getLast?_eq_none_iff.mp hlast] at hc
    cases hc
  | some last =>
    obtain ⟨n, hafter⟩ := deadline_renewed (w := 0 * secondNanos) hlast
    obtain rfl := Option.some.inj (hafter.symm.trans hc)
    obtain ⟨a, ha, rfl⟩ := List.mem_map.mp (List.mem_of_getLast? hlast)
    have := h.past a (List.mem_filter.mp ha).1
    show a.now + 0 * secondNanos ≤ w.now
    omega

theorem command_none {wait i : ℕ} (h : w.arrivals[i]? = none) :
    step config window w (.command wait i) = { w with now := w.now + wait } := by
  simp only [step, h]

theorem command_some {wait i : ℕ} {a : Arrival} (h : w.arrivals[i]? = some a) :
    step config window w (.command wait i) =
      { w with
        now := w.now + wait
        stage := Function.update w.stage i ((w.stage i).next (a.client.policy.max config) window
          a.client.redisKey w.redis (w.now + wait) w.arrivals.length) } := by
  simp only [step, h]

theorem Tracked.step (h : Tracked window w) (act : Action) :
    Tracked window (step config window w act) := by
  cases act with
  | request wait client =>
    refine ⟨fun client' => ?_, ?_, fun a ha => ?_⟩
    · show w.redis.pipeline _ _ _ client'.redisKey = (after _ _ (hitsOf _ (_ ++ [_]))).map _
      rw [hitsOf_append]
      by_cases hclient : client = client'
      · subst hclient
        rw [if_pos rfl, after_append, pipeline_self _ (h.counted client)]
        rfl
      · rw [if_neg hclient, List.append_nil, pipeline_of_ne _
          (fun hkey => hclient (Client.redisKey_injective hkey).symm), h.counted client']
    · show ((w.arrivals ++ [_]).map _).Pairwise _
      rw [List.map_append, List.pairwise_append]
      refine ⟨h.sorted, List.pairwise_singleton _ _, fun t ht t' ht' => ?_⟩
      obtain ⟨a, ha, rfl⟩ := List.mem_map.mp ht
      obtain rfl := List.mem_singleton.mp ht'
      exact (h.past a ha).trans (Nat.le_add_right _ _)
    · rcases List.mem_append.mp ha with ha | ha
      · exact (h.past a ha).trans (Nat.le_add_right _ _)
      · rw [List.mem_singleton.mp ha]
        exact Nat.le_refl _
  | command wait i =>
    have hpast : ∀ a ∈ w.arrivals, a.now ≤ w.now + wait := fun a ha =>
      (h.past a ha).trans (Nat.le_add_right _ _)
    cases ha : w.arrivals[i]? with
    | none =>
      rw [command_none ha]
      exact ⟨h.counted, h.sorted, hpast⟩
    | some a =>
      rw [command_some ha]
      exact ⟨h.counted, h.sorted, hpast⟩

/-! ## What a step leaves as it is -/

theorem arrivals_command (wait i : ℕ) :
    (step config window w (.command wait i)).arrivals = w.arrivals := by
  cases ha : w.arrivals[i]? with
  | none => rw [command_none ha]
  | some a => rw [command_some ha]

theorem stage_command {wait i : ℕ} {a : Arrival} (ha : w.arrivals[i]? = some a) :
    (step config window w (.command wait i)).stage =
      Function.update w.stage i ((w.stage i).next (a.client.policy.max config) window
        a.client.redisKey w.redis (w.now + wait) w.arrivals.length) := by
  rw [command_some ha]

variable (config window w) in
theorem arrivals_step (act : Action) :
    ∃ later, (step config window w act).arrivals = w.arrivals ++ later := by
  cases act with
  | request wait client => exact ⟨_, rfl⟩
  | command wait i => exact ⟨[], by rw [arrivals_command, List.append_nil]⟩

theorem place_step (act : Action) {i : ℕ} (hi : i < w.arrivals.length) (client : Client) :
    (step config window w act).place window i client = w.place window i client := by
  obtain ⟨later, h⟩ := arrivals_step config window w act
  rw [World.place, h, List.take_append_of_le_length hi, World.place]

/-- An answer that was not there is given now, with all requests seen. -/
theorem answered_next {limit seen seen' : ℕ} {key : String} {redis : Redis} {now now' : ℕ}
    {stage : Stage} {result : RateLimitResult}
    (h : stage.next limit window key redis now' seen' = .answered now seen result) :
    stage = .answered now seen result ∨ now = now' ∧ seen = seen' := by
  cases stage with
  | get =>
    rcases next_get limit window key redis now' seen' with hget | ⟨result', hget⟩
    · rw [hget] at h
      cases h
    · rw [hget] at h
      cases h
      exact .inr ⟨rfl, rfl⟩
  | ttl =>
    cases h
    exact .inr ⟨rfl, rfl⟩
  | answered => exact .inl h

/-- What is known of an answer stays as it was: a new one has seen all requests. -/
theorem answered_step (act : Action) {j : ℕ} {b : Arrival} {now seen : ℕ}
    {result : RateLimitResult}
    (h : (step config window w act).Answered j b now seen result) :
    w.Answered j b now seen result ∨
      ∃ wait, act = .command wait j ∧ now = w.now + wait ∧ seen = w.arrivals.length ∧
        w.arrivals[j]? = some b ∧
        (w.stage j).next (b.client.policy.max config) window b.client.redisKey w.redis now seen =
          .answered now seen result := by
  cases act with
  | request wait client =>
    obtain ⟨hb, hstage⟩ := h
    simp only [step] at hb hstage
    rcases getElem?_append_singleton.mp hb with hb | ⟨rfl, -⟩
    · have hj : j < w.arrivals.length := (List.getElem?_eq_some_iff.mp hb).1
      rw [Function.update_of_ne (Nat.ne_of_lt hj)] at hstage
      exact .inl ⟨hb, hstage⟩
    · -- the new request has no answer yet
      rw [Function.update_self] at hstage
      cases hstage
  | command wait i =>
    cases ha : w.arrivals[i]? with
    | none =>
      rw [command_none ha] at h
      exact .inl h
    | some a =>
      rw [command_some ha] at h
      obtain ⟨hb, hstage⟩ := h
      by_cases hj : j = i
      · subst hj
        obtain rfl : a = b := Option.some.inj (ha.symm.trans hb)
        change Function.update _ _ _ _ = _ at hstage
        rw [Function.update_self] at hstage
        rcases answered_next hstage with hold | ⟨rfl, rfl⟩
        · exact .inl ⟨hb, hold⟩
        · exact .inr ⟨wait, rfl, rfl, rfl, hb, hstage⟩
      · change Function.update _ _ _ _ = _ at hstage
        rw [Function.update_of_ne hj] at hstage
        exact .inl ⟨hb, hstage⟩

/-! ## Which requests of a window are allowed -/

def Right (config : RateLimitConfig) (window : ℕ) (w : World) (i : ℕ) (a : Arrival) : Prop :=
  ∀ allowed, (w.stage i).verdict = some allowed →
    (allowed = true ↔ w.place window i a.client ≤ a.client.policy.max config)

/-- Exactly the first requests of every window are allowed. -/
def FirstOfWindow (config : RateLimitConfig) (window : ℕ) (w : World) : Prop :=
  ∀ i a, w.arrivals[i]? = some a → Right config window w i a

/-- A client with sparse requests is then never denied. -/
theorem FirstOfWindow.sparse (hn : ∀ policy : Policy, 1 ≤ policy.max config)
    (h : FirstOfWindow config window w) (htracked : Tracked window w) {client : Client}
    (hsparse : Sparse (client.policy.max config) window (hitsOf client w.arrivals)) {i : ℕ}
    {a : Arrival} (ha : w.arrivals[i]? = some a) (hclient : a.client = client) :
    (w.stage i).verdict ≠ some false := by
  subst hclient
  intro hverdict
  have hsub : (hitsOf a.client (w.arrivals.take (i + 1))).Sublist (hitsOf a.client w.arrivals) :=
    ((List.take_sublist _ _).filter _).map _
  have hplace : w.place window i a.client ≤ a.client.policy.max config :=
    (hsparse.of_sublist hsub).place_le (hn _) ((htracked.sorted_hits a.client).sublist hsub)
  exact Bool.false_ne_true ((h i a ha false hverdict).mpr hplace)

theorem right_step {act : Action} {i : ℕ} (hi : i < w.arrivals.length) (a : Arrival)
    (hverdict : ((step config window w act).stage i).verdict = (w.stage i).verdict) :
    Right config window (step config window w act) i a ↔ Right config window w i a := by
  unfold Right
  rw [hverdict, place_step act hi]

theorem right_read (h : Tracked window w) {wait i : ℕ} {a : Arrival}
    (ha : w.arrivals[i]? = some a) (hget : w.stage i = .get) :
    Right config window (step config window w (.command wait i)) i a ↔
      (sincePause (window / secondNanos * secondNanos) (w.now + wait)
          (hitsOf a.client w.arrivals) ≤ a.client.policy.max config ↔
        w.place window i a.client ≤ a.client.policy.max config) := by
  have hi : i < w.arrivals.length := (List.getElem?_eq_some_iff.mp ha).1
  have hverdict : ((step config window w (.command wait i)).stage i).verdict =
      some (decide (sincePause (window / secondNanos * secondNanos) (w.now + wait)
        (hitsOf a.client w.arrivals) ≤ a.client.policy.max config)) := by
    rw [stage_command ha, Function.update_self, hget, verdict_next_get _ (h.counted a.client)]
    rfl
  unfold Right
  rw [hverdict, place_step _ hi]
  simp only [Option.some.injEq, forall_eq', decide_eq_true_eq]

theorem first_step_iff (act : Action) (h : Tracked window w)
    (hfirst : FirstOfWindow config window w) :
    FirstOfWindow config window (step config window w act) ↔ ReadsWindow config window w act := by
  cases act with
  | request wait client =>
    refine iff_of_true (fun i a ha => ?_) trivial
    rcases getElem?_append_singleton.mp ha with hold | ⟨rfl, -⟩
    · have hi : i < w.arrivals.length := (List.getElem?_eq_some_iff.mp hold).1
      have hstage : (step config window w (.request wait client)).stage i = w.stage i :=
        Function.update_of_ne (Nat.ne_of_lt hi) _ _
      exact (right_step hi a (congrArg _ hstage)).mpr (hfirst i a hold)
    · intro allowed hverdict
      rw [show (step config window w (.request wait client)).stage w.arrivals.length = .get from
        Function.update_self _ _ _] at hverdict
      cases hverdict
  | command wait j =>
    cases hj : w.arrivals[j]? with
    | none =>
      rw [command_none hj]
      exact iff_of_true hfirst fun a ha => by rw [hj] at ha; cases ha
    | some b =>
      by_cases hget : w.stage j = .get
      · constructor
        · intro hstep a ha _
          exact (right_read h ha hget).mp (hstep j a (by rwa [arrivals_command]))
        · intro hreads i a ha
          rw [arrivals_command] at ha
          by_cases hij : i = j
          · subst hij
            exact (right_read h ha hget).mpr (hreads a ha hget)
          · have hi : i < w.arrivals.length := (List.getElem?_eq_some_iff.mp ha).1
            refine (right_step hi a ?_).mpr (hfirst i a ha)
            rw [stage_command hj, Function.update_of_ne hij]
      · refine iff_of_true (fun i a ha => ?_) fun a _ hget' => (hget hget').elim
        rw [arrivals_command] at ha
        have hi : i < w.arrivals.length := (List.getElem?_eq_some_iff.mp ha).1
        refine (right_step hi a ?_).mpr (hfirst i a ha)
        rw [stage_command hj]
        by_cases hij : i = j
        · subst hij
          rw [Function.update_self, verdict_next hget]
        · rw [Function.update_of_ne hij]

/-! ## How long a denied client is told to wait -/

/-- A check asks for a lifetime only if there is one, and the seconds a denied client is told
reach the end of the window it was denied in. -/
structure Told (window : ℕ) (w : World) : Prop where
  asking : ∀ i, w.stage i = .ttl → 0 < window / secondNanos
  enough : ∀ j b now seen retryAfter, w.Answered j b now seen ⟨false, retryAfter⟩ →
    seen ≤ w.arrivals.length ∧
      windowEnd window (hitsOf b.client (w.arrivals.take seen)) ≤ now + retryAfter * secondNanos

/-- The lifetime that is read, in seconds, reaches the end of the window. -/
theorem windowEnd_le_ttlOrWindow (h : Tracked window w) {i : ℕ} {a : Arrival}
    (ha : w.arrivals[i]? = some a) (hstage : w.stage i = .ttl) (hpos : 0 < window / secondNanos)
    {wait : ℕ} (hends : ReachesEnd window w (.command wait i)) :
    windowEnd window (hitsOf a.client w.arrivals) ≤ w.now + wait +
      ttlOrWindow (w.now + wait) a.client.redisKey (window / secondNanos) w.redis *
        secondNanos := by
  have hmem : a.now ∈ hitsOf a.client w.arrivals :=
    List.mem_map.mpr ⟨a, List.mem_filter.mpr ⟨List.mem_of_getElem? ha, by simp⟩, rfl⟩
  obtain ⟨last, hlast⟩ := Option.ne_none_iff_exists'.mp
    (mt List.getLast?_eq_none_iff.mp (List.ne_nil_of_mem hmem))
  obtain ⟨n, hafter⟩ := deadline_renewed (w := window / secondNanos * secondNanos) hlast
  rw [ttlOrWindow_eq _ (h.counted a.client), hafter]
  cases hlive : live (w.now + wait) (some ⟨n, last + window / secondNanos * secondNanos⟩) with
  | none =>
    -- the key is gone, and the client is told the whole window
    have hgone : ¬ w.now + wait < last + window / secondNanos * secondNanos := fun hlt =>
      Option.some_ne_none _ ((live_eq_some.mpr ⟨rfl, hlt⟩).symm.trans hlive)
    have hend := windowEnd_le (w := window) (h.sorted_hits a.client) hlast
    have hwindow := Nat.div_add_mod window secondNanos
    have hrest := Nat.mod_lt window (show 0 < secondNanos by decide)
    have hsecond : secondNanos ≤ window / secondNanos * secondNanos :=
      Nat.le_mul_of_pos_left _ hpos
    rw [Nat.mul_comm] at hwindow
    rw [Option.elim_none]
    omega
  | some c =>
    obtain ⟨hc, hnow⟩ := live_eq_some.mp hlive
    obtain rfl := Option.some.inj hc
    rw [Option.elim_some]
    exact hends a ha hstage last hlast (Nat.sub_pos_of_lt hnow)

theorem Told.asking_step (act : Action) (htracked : Tracked window w) (h : Told window w) {i : ℕ}
    (hstage : (step config window w act).stage i = .ttl) : 0 < window / secondNanos := by
  cases act with
  | request wait client =>
    by_cases hi : i = w.arrivals.length
    · subst hi
      rw [show (RateLimit.step config window w (.request wait client)).stage w.arrivals.length =
        .get from Function.update_self _ _ _] at hstage
      cases hstage
    · exact h.asking i ((Function.update_of_ne hi _ _).symm.trans hstage)
  | command wait l =>
    cases hl : w.arrivals[l]? with
    | none =>
      rw [command_none hl] at hstage
      exact h.asking i hstage
    | some a =>
      rw [stage_command hl] at hstage
      by_cases hi : i = l
      · subst hi
        rw [Function.update_self] at hstage
        by_contra hzero
        have hzero : window / secondNanos = 0 := Nat.eq_zero_of_not_pos hzero
        cases hget : w.stage i with
        | get =>
          rw [hget] at hstage
          -- without a lifetime the counter is gone when it is read
          refine next_get_of_subsecond _ (fun d hd => ?_) (htracked.counted a.client) _ _ hstage
          rw [hzero] at hd
          exact (htracked.deadline_le hd).trans (Nat.le_add_right _ _)
        | ttl => exact absurd (h.asking i hget) (by omega)
        | answered =>
          rw [hget] at hstage
          cases hstage
      · rw [Function.update_of_ne hi] at hstage
        exact h.asking i hstage

theorem Told.enough_step (act : Action) (htracked : Tracked window w) (h : Told window w)
    (hends : ReachesEnd window w act) {j : ℕ} {b : Arrival} {now seen retryAfter : ℕ}
    (hanswered : (step config window w act).Answered j b now seen ⟨false, retryAfter⟩) :
    seen ≤ (step config window w act).arrivals.length ∧
      windowEnd window (hitsOf b.client ((step config window w act).arrivals.take seen)) ≤
        now + retryAfter * secondNanos := by
  obtain ⟨later, hlater⟩ := arrivals_step config window w act
  rcases answered_step act hanswered with hold | ⟨wait, rfl, rfl, rfl, hb, hnext⟩
  · obtain ⟨hseen, hends'⟩ := h.enough j b now seen retryAfter hold
    rw [hlater, List.take_append_of_le_length hseen, List.length_append]
    exact ⟨hseen.trans (Nat.le_add_right _ _), hends'⟩
  · rw [arrivals_command, List.take_length]
    refine ⟨le_rfl, ?_⟩
    cases hstage : w.stage j with
    | get =>
      rw [hstage] at hnext
      exact absurd hnext (next_get_ne_denied _ _ _ _ _ _ _ _ _)
    | ttl =>
      rw [hstage] at hnext
      cases hnext
      exact windowEnd_le_ttlOrWindow htracked hb hstage (h.asking j hstage) hends
    | answered now' seen' result =>
      rw [hstage] at hnext
      cases hnext
      have hold := h.enough j b _ _ retryAfter ⟨hb, hstage⟩
      rw [List.take_length] at hold
      exact hold.2

theorem Told.step (act : Action) (htracked : Tracked window w) (h : Told window w)
    (hends : ReachesEnd window w act) : Told window (step config window w act) where
  asking _ hstage := h.asking_step act htracked hstage
  enough _ _ _ _ _ hanswered := h.enough_step act htracked hends hanswered

/-- Requests of others do not show in the requests of a client. -/
theorem hitsOf_take_succ {i seen : ℕ} {a : Arrival} (ha : w.arrivals[i]? = some a)
    (hseen : seen ≤ i) (hothers : ∀ l c, seen ≤ l → l < i → w.arrivals[l]? = some c →
      c.client ≠ a.client) :
    hitsOf a.client (w.arrivals.take (i + 1)) =
      hitsOf a.client (w.arrivals.take seen) ++ [a.now] := by
  have hi : i < w.arrivals.length := (List.getElem?_eq_some_iff.mp ha).1
  have hbetween : ∀ c ∈ (w.arrivals.take i).drop seen, c.client ≠ a.client := by
    intro c hc
    obtain ⟨l, hl⟩ := List.mem_iff_getElem?.mp hc
    rw [List.getElem?_drop, List.getElem?_take] at hl
    split at hl
    · exact hothers (seen + l) c (Nat.le_add_right _ _) ‹_› hl
    · cases hl
  have hsplit : w.arrivals.take i = w.arrivals.take seen ++ (w.arrivals.take i).drop seen := by
    have h := List.take_append_drop seen (w.arrivals.take i)
    rw [List.take_take, Nat.min_eq_left hseen] at h
    exact h.symm
  have hnone : hitsOf a.client ((w.arrivals.take i).drop seen) = [] := by
    rw [hitsOf, List.map_eq_nil_iff, List.filter_eq_nil_iff]
    intro c hc
    rw [decide_eq_true_eq]
    exact hbetween c hc
  rw [List.take_add_one, ha, Option.toList_some, hitsOf_append, if_pos rfl, hsplit, hitsOf,
    List.filter_append, List.map_append, ← hitsOf, ← hitsOf, hnone, List.append_nil]

/-- A request that waited as told opens a window. -/
theorem Told.place_of_waited (h : Told window w) {i : ℕ} {a : Arrival}
    (ha : w.arrivals[i]? = some a) (hwaited : w.Waited i a) :
    w.place window i a.client = 1 := by
  obtain ⟨j, b, now, seen, retryAfter, hanswered, hclient, hseen, hwait, hothers⟩ := hwaited
  have hend := (h.enough j b now seen retryAfter hanswered).2
  rw [hclient] at hend
  rw [World.place, hitsOf_take_succ ha hseen hothers]
  exact place_of_windowEnd_le (hend.trans hwait)

end Invariant

/-- Exactly the first requests of every window are allowed if and only if every read is of a
count that keeps to the windows. -/
theorem firstOfWindow_iff (config : RateLimitConfig) (window now : ℕ) (as : List Action) :
    AllStates (step config window) (FirstOfWindow config window) (World.start now) as ↔
      AllSteps (step config window) (ReadsWindow config window) (World.start now) as :=
  allStates_iff_allSteps (J := Tracked window) (fun _ act h => h.step act)
    (fun _ act h hw => first_step_iff act h hw) (tracked_start now)
    (fun _ _ ha => by cases ha) as

/-- The limiter keeps to its windows if every read is of a count that keeps to them and every
lifetime read reaches the end of the window. -/
theorem first_of_window_allowed (config : RateLimitConfig)
    (hn : ∀ policy : Policy, 1 ≤ policy.max config) (window now : ℕ) {as : List Action}
    (hreads : AllSteps (step config window) (ReadsWindow config window) (World.start now) as)
    (hends : AllSteps (step config window) (ReachesEnd window) (World.start now) as) :
    AllStates (step config window) (WindowLaw config window) (World.start now) as := by
  have htold : AllStates (step config window) (fun w => Tracked window w ∧ Told window w)
      (World.start now) as :=
    allStates_of_guarded (fun _ act h hend => ⟨h.1.step act, h.2.step act h.1 hend⟩)
      ⟨tracked_start now, ⟨fun _ h => (by cases h), fun _ _ _ _ _ h => (by cases h.1)⟩⟩ hends
  refine (((firstOfWindow_iff config window now as).mpr hreads).and htold).mono ?_
  rintro w ⟨hfirst, htracked, htold⟩
  refine ⟨fun i a allowed ha => hfirst i a ha allowed,
    fun client hsparse i a ha hclient => hfirst.sparse hn htracked hsparse ha hclient,
    fun i a allowed ha hwaited hverdict => ?_⟩
  have hplace := htold.place_of_waited ha hwaited
  exact (hfirst i a ha allowed hverdict).mpr (hplace.le.trans (hn _))

def login : Client := ⟨.auth, "203.0.113.7"⟩

/-- The second login is denied and told to wait; the third comes when it was told to. -/
def waitingLogins : List Action :=
  [.request 0 login, .command 1 0, .request secondNanos login, .command 1 1, .command 1 1,
    .request (60 * secondNanos) login, .command 1 2]

theorem first_of_window_allowed_waiting :
    AllStates (step { authMax := 1 } rateLimitWindow)
      (WindowLaw { authMax := 1 } rateLimitWindow) (World.start 0) waitingLogins := by
  refine first_of_window_allowed { authMax := 1 } (fun policy => ?_) rateLimitWindow 0
    ⟨trivial, fun a ha _ => ?_, trivial, fun a ha _ => ?_, fun a ha _ => ?_, trivial,
      fun a ha _ => ?_, trivial⟩
    ⟨trivial, fun a ha _ => ?_, trivial, fun a ha _ => ?_, fun a ha _ => ?_, trivial,
      fun a ha _ => ?_, trivial⟩
  · cases policy <;> decide
  all_goals
    obtain rfl := Option.some.inj ha
    decide +kernel

/-- A login every fifty seconds. -/
def steadyLogins : List Action :=
  (List.range 6).flatMap fun i => [.request (50 * secondNanos) login, .command 0 i]

/-- The sixth is denied, although it is the second of its window. -/
theorem steady_login_denied :
    ¬ AllStates (step {} rateLimitWindow) (WindowLaw {} rateLimitWindow) (World.start 0)
      steadyLogins := by
  intro h
  have hdenied := (h.last.first 5 ⟨login, 300 * secondNanos⟩ false (by decide +kernel)
    (by decide +kernel)).mpr (by decide +kernel)
  cases hdenied

end PicHost.RateLimit
