import PicHost.Api.Sessions

/-! # How long a revocation lasts -/

namespace PicHost.Sessions

open LabelledRun Timestamps
open Auth (Jwt AuthConfig User TokenPair TokenKind leeway)

/-- A request that revokes tokens of the `i`-th pair. -/
inductive Revocation
  | logout (i : ℕ)
  | refresh (i : ℕ) (accessJti refreshJti : Uuid)

namespace Revocation

def index : Revocation → ℕ
  | .logout i | .refresh i _ _ => i

def action : Revocation → Action
  | .logout i => .logout i
  | .refresh i accessJti refreshJti => .refresh i accessJti refreshJti

/-- A logout is about the access token, an exchange about both. -/
def revokes : Revocation → TokenKind → Bool
  | .logout _, .access => true
  | .logout _, .refresh => false
  | .refresh _ _ _, _ => true

/-- The answer is `Ok`. -/
def Succeeds (jwt : Jwt) (config : AuthConfig) (op : Revocation) (s : State) : Prop :=
  ∃ pair, s.issued[op.index]? = some pair ∧
    match op with
    | .logout _ => ∃ reply, (Sessions.logout jwt (bearer pair.access) s).1 = .ok reply
    | .refresh _ accessJti refreshJti => s.fresh accessJti refreshJti = true ∧
        ∃ reply, (Sessions.refresh jwt config pair.refresh accessJti refreshJti s).1 = .ok reply

end Revocation

/-- The verifier refuses what expired at `exp`. -/
def Dead (s : State) (exp : ℕ) : Prop := exp + leeway < s.seconds

instance (s : State) (exp : ℕ) : Decidable (Dead s exp) := inferInstanceAs (Decidable (_ < _))

/-- A row of SQLite that expires at once stays in force to the end of the minute: here up to the
last second in which the verifier accepts what expired at `exp`, if the hundredths of a second of
now are not below that second. -/
def Outlasts (s : State) (exp : ℕ) : Prop :=
  s.blacklist.isRedis = false ∧ s.now / minuteNanos = (exp + leeway) / 60 ∧
    (exp + leeway) % 60 ≤ s.now % secondNanos / 10 ^ 7 ∧
    (exp + leeway) * secondNanos < year10000

variable {jwt : Jwt} {config : AuthConfig}

theorem seconds_mono {s s' : State} (h : s.now ≤ s'.now) : s.seconds ≤ s'.seconds :=
  Nat.div_le_div_right h

/-- A token past its expiry and the leeway is out. -/
theorem out_of_dead {s : State} {pair : TokenPair} (hpair : Generated jwt config pair)
    {kind : TokenKind} (hdead : Dead s (pair.exp kind)) : Out jwt config s (pair.text kind) := by
  intro as
  refine (refused_iff hpair kind _).mpr (.inl (lt_of_lt_of_le hdead ?_))
  have hlater : s.now ≤ (as.foldl (step jwt config) s).now :=
    invariant (step jwt config) (J := fun s' => s.now ≤ s'.now)
      (fun s' a hs => hs.trans (frame_step s' a).now) le_rfl as
  exact seconds_mono hlater

/-- A token is not out if its entry lets it pass in the last second the verifier does. -/
theorem not_out {s : State} {pair : TokenPair} (hpair : Generated jwt config pair)
    {kind : TokenKind} (halive : ¬ Dead s (pair.exp kind))
    (hcheck : ∀ t, s.now ≤ t → (pair.exp kind + leeway) * secondNanos ≤ t →
      t / secondNanos = pair.exp kind + leeway →
      s.blacklist.check t (pair.jti kind) = false) :
    ¬ Out jwt config s (pair.text kind) := by
  intro hout
  have hnow : s.now < (pair.exp kind + leeway + 1) * secondNanos := by
    simp only [Dead, State.seconds, secondNanos] at halive ⊢
    omega
  -- the later of now and the beginning of that second
  obtain ⟨d, hd, hd'⟩ : ∃ d, (pair.exp kind + leeway) * secondNanos ≤ s.now + d ∧
      (s.now + d) / secondNanos = pair.exp kind + leeway := by
    refine ⟨(pair.exp kind + leeway) * secondNanos - s.now, by omega, ?_⟩
    simp only [secondNanos] at hnow ⊢
    omega
  have hrefused := (refused_iff hpair kind _).mp (hout [.tick d])
  rcases hrefused with hdead | hcheck'
  · exact absurd hd' (Nat.ne_of_gt hdead)
  · have hgone := hcheck (s.now + d) (Nat.le_add_right _ _) hd hd'
    exact Bool.false_ne_true (hgone.symm.trans hcheck')

/-- A row that outlasts the verifier is in force until then. -/
theorem inForce_of_outlasts {s : State} {exp t : ℕ} (h : Outlasts s exp) (hlater : s.now ≤ t)
    (ht : ¬ exp + leeway < t / secondNanos) :
    Blacklist.Entry.inForce t (.sqlite (chronoFormat s.now)) = true := by
  obtain ⟨-, hminute, hcenti, hyear⟩ := h
  have hyear' : year10000 = 253402300800 * secondNanos := by decide
  simp only [hyear', minuteNanos, secondNanos] at hminute hcenti hyear ht
  rw [Blacklist.Entry.inForce_sqlite_iff]
  · simp only [hyear', minuteNanos, secondNanos]
    omega
  · simp only [hyear', secondNanos]
    omega

/-- An entry that lapses with its token does not outlast the verifier. -/
theorem check_of_lapses {s : State} {jti : String} {exp t : ℕ}
    (h : ∀ e ∈ s.blacklist.entry jti, e.Lapses ((exp + 1) * secondNanos))
    (ht : (exp + leeway) * secondNanos ≤ t) : s.blacklist.check t jti = false := by
  rw [Blacklist.check]
  cases he : s.blacklist.entry jti with
  | none => rfl
  | some e => exact (h e he).inForce ht

variable (jwt config) in
theorem step_action_now (s : State) (op : Revocation) :
    (step jwt config s op.action).now = s.now := by
  cases op with
  | logout i =>
    simp only [Revocation.action, step]
    split
    · exact logout_now _ s
    · rfl
  | refresh i a r =>
    simp only [Revocation.action, step]
    split
    · split
      · exact refresh_now _ a r s
      · rfl
    · rfl

/-- The row of an exchanged refresh token in SQLite. -/
theorem entry_of_refresh {s : State} (h : WellFormed jwt config s) {i : ℕ} {a r : Uuid}
    {pair : TokenPair} (hpair : s.issued[i]? = some pair)
    (hok : (Revocation.refresh i a r).Succeeds jwt config s)
    (hsqlite : s.blacklist.isRedis = false) :
    (step jwt config s (.refresh i a r)).blacklist.entry (pair.jti .refresh) =
      some (.sqlite (chronoFormat
        (s.now + fromStd ((pair.exp .refresh - s.seconds) * secondNanos)))) := by
  obtain ⟨pair', hpair', hfresh, reply, hreply⟩ := hok
  cases hpair.symm.trans hpair'
  have hmem : pair ∈ s.issued := List.mem_of_getElem? hpair
  have hgen := h.generated pair hmem
  simp only [step, hpair, hfresh, if_true]
  rcases refresh_of_generated hgen a r s with ⟨e, he⟩ | ⟨-, -, user, he⟩
  · rw [he] at hreply
    cases hreply
  · rw [he]
    have hne : pair.jti .refresh ≠ pair.jti .access := fun hjti => by
      cases (h.unique pair hmem pair hmem _ _ hjti).2
    rw [entry_revokeOldTokens_refresh hgen hne]
    exact State.entry_revoke_sqlite (s := s.issue _) hsqlite _ _

/-- If the row is in force in the last second of the verifier, it outlasts it. -/
theorem outlasts_of_inForce {s : State} (hsqlite : s.blacklist.isRedis = false) {exp t : ℕ}
    (hlater : s.now ≤ t) (ht : (exp + leeway) * secondNanos ≤ t)
    (hsecond : t / secondNanos = exp + leeway)
    (hforce : Blacklist.Entry.inForce t (.sqlite (chronoFormat
      (s.now + fromStd ((exp - s.seconds) * secondNanos)))) = true) : Outlasts s exp := by
  have hclock : s.now < (s.seconds + 1) * secondNanos := by
    simp only [State.seconds, secondNanos]
    omega
  rcases Nat.eq_zero_or_pos (exp - s.seconds) with hzero | hpos
  · rw [hzero, show fromStd (0 * secondNanos) = 0 from rfl, Nat.add_zero] at hforce
    by_cases hyear : s.now < year10000
    · rw [Blacklist.Entry.inForce_sqlite_iff hyear] at hforce
      have hyear' : year10000 = 253402300800 * secondNanos := by decide
      refine ⟨hsqlite, ?_, ?_, ?_⟩ <;>
        simp only [hyear', minuteNanos, secondNanos] at hforce hsecond ht hlater ⊢ <;> omega
    · rw [Blacklist.Entry.inForce_sqlite_of_late (Nat.le_of_not_lt hyear)] at hforce
      cases hforce
  · have hstd := Blacklist.fromStd_le ((exp - s.seconds) * secondNanos)
    have hlapses : (Blacklist.Entry.sqlite (chronoFormat
        (s.now + fromStd ((exp - s.seconds) * secondNanos)))).Lapses ((exp + 1) * secondNanos) := by
      refine ⟨_, ?_, rfl⟩
      simp only [secondNanos] at hclock hstd ⊢
      omega
    rw [hlapses.inForce ht] at hforce
    cases hforce

/-- A refresh token whose row outlasts the verifier is out. -/
theorem out_of_outlasts {s s' : State} (h : WellFormed jwt config s') {pair : TokenPair}
    (hpair : pair ∈ s'.issued) (hnow : s'.now = s.now) (hlasts : Outlasts s (pair.exp .refresh))
    (hentry : s'.blacklist.entry (pair.jti .refresh) = some (.sqlite (chronoFormat s.now))) :
    Out jwt config s' (pair.text .refresh) := by
  have hgen := h.generated pair hpair
  -- while the verifier accepts the token the row is in force, so no exchange replaces it
  have hcheck : ∀ q : State, s.now ≤ q.now →
      q.blacklist.entry (pair.jti .refresh) = some (.sqlite (chronoFormat s.now)) →
      ¬ (pair.exp .refresh + leeway < q.seconds) →
      q.blacklist.check q.now (pair.jti .refresh) = true := fun q hq he halive => by
    rw [Blacklist.check_of_entry he]
    exact inForce_of_outlasts hlasts hq halive
  intro as
  obtain ⟨-, -, hq, he⟩ := invariant (step jwt config)
    (J := fun q => WellFormed jwt config q ∧ pair ∈ q.issued ∧ s.now ≤ q.now ∧
      q.blacklist.entry (pair.jti .refresh) = some (.sqlite (chronoFormat s.now)))
    (fun q a ⟨hwf, hmem, hq, he⟩ => by
      refine ⟨hwf.step a, (frame_step q a).issued.subset hmem,
        hq.trans (frame_step q a).now, ?_⟩
      rcases hwf.entry_step hmem .refresh a with
        hsame | ⟨i, a, r, -, -, halive, hgood⟩ | ⟨i, -, -, hk⟩
      · rw [hsame, he]
      · rw [hcheck q hq he halive] at hgood
        cases hgood
      · cases hk)
    ⟨h, hpair, hnow.ge, hentry⟩ as
  refine (refused_iff hgen .refresh _).mpr (or_iff_not_imp_left.mpr fun halive => ?_)
  exact hcheck _ hq he halive

/-- When a revoked token is out for good: it is past its expiry and the leeway already, or it is
a refresh token whose row outlasts the verifier. -/
theorem out_revoked_iff {s : State} (h : WellFormed jwt config s) (op : Revocation)
    {pair : TokenPair} (hpair : s.issued[op.index]? = some pair)
    (hok : op.Succeeds jwt config s) {kind : TokenKind} (hkind : op.revokes kind = true) :
    Out jwt config (step jwt config s op.action) (pair.text kind) ↔
      Dead s (pair.exp kind) ∨ kind = .refresh ∧ Outlasts s (pair.exp kind) := by
  have hgen := h.generated pair (List.mem_of_getElem? hpair)
  have hwf := h.step op.action
  have hmem : pair ∈ (step jwt config s op.action).issued :=
    (frame_step s op.action).issued.subset (List.mem_of_getElem? hpair)
  have hnow := step_action_now jwt config s op
  have hseconds : (step jwt config s op.action).seconds = s.seconds := by
    rw [State.seconds, hnow, State.seconds]
  have hdead : ∀ exp, Dead (step jwt config s op.action) exp ↔ Dead s exp := fun exp => by
    rw [Dead, hseconds, Dead]
  constructor
  · intro hout
    by_contra hnot
    obtain ⟨halive, hlasts⟩ := not_or.mp hnot
    refine not_out hgen (mt (hdead _).mp halive) (fun t hlater ht hsecond => ?_) hout
    rw [hnow] at hlater
    by_cases hk : kind = .access ∨ (step jwt config s op.action).blacklist.isRedis = true
    · exact check_of_lapses (hwf.lapses pair hmem kind hk) ht
    · -- a refresh token in SQLite
      obtain ⟨haccess, hredis⟩ := not_or.mp hk
      rw [(frame_step s op.action).isRedis, Bool.not_eq_true] at hredis
      cases op with
      | logout i =>
        cases kind with
        | access => exact absurd rfl haccess
        | refresh => cases hkind
      | refresh i a r =>
        cases kind with
        | access => exact absurd rfl haccess
        | refresh =>
          have hentry : (step jwt config s (.refresh i a r)).blacklist.entry _ = _ :=
            entry_of_refresh h hpair hok hredis
          rw [Revocation.action, Blacklist.check_of_entry hentry]
          cases hforce : Blacklist.Entry.inForce t _ with
          | false => rfl
          | true => exact absurd ⟨rfl, outlasts_of_inForce hredis hlater ht hsecond hforce⟩ hlasts
  · rintro (halive | ⟨rfl, hlasts⟩)
    · exact out_of_dead hgen ((hdead _).mpr halive)
    · cases op with
      | logout i => cases hkind
      | refresh i a r =>
        have hentry := entry_of_refresh h hpair hok hlasts.1
        have hlate : pair.exp .refresh - s.seconds = 0 := by
          have hminute := hlasts.2.1
          simp only [State.seconds, minuteNanos, secondNanos, leeway] at hminute ⊢
          omega
        rw [hlate, show fromStd (0 * secondNanos) = 0 from rfl, Nat.add_zero] at hentry
        exact out_of_outlasts hwf hmem hnow hlasts hentry

/-- A pair of the runs below, issued at the epoch. -/
def firstPair (jwt : Jwt) : TokenPair := Auth.generateTokens jwt Auth.shortConfig 0 1 false 2 3

theorem succeeds_logout (jwt : Jwt) {d : ℕ} :
    (Revocation.logout 0).Succeeds jwt Auth.shortConfig
      (run jwt Auth.shortConfig 0 [] .emptyRedis [.login 1 false 2 3, .tick d]) :=
  ⟨firstPair jwt, rfl, _, congrArg Prod.fst (logout_of_generated ⟨0, 1, false, 2, 3, rfl⟩ _)⟩

/-- Whatever ran before, a token that a logout or an exchange revoked is refused ever after in
exactly these cases: the verifier refused it by then because it was past its expiry and the
leeway, or its row in SQLite outlasts the verifier. -/
theorem revocation_permanent_iff (now : ℕ) (users : List User) (blacklist : Blacklist)
    (as : List Action) (op : Revocation) (pair : TokenPair) (kind : TokenKind)
    (hpair : (run jwt config now users blacklist as).issued[op.index]? = some pair)
    (hok : op.Succeeds jwt config (run jwt config now users blacklist as))
    (hkind : op.revokes kind = true) :
    Out jwt config (step jwt config (run jwt config now users blacklist as) op.action)
        (pair.text kind) ↔
      Dead (run jwt config now users blacklist as) (pair.exp kind) ∨
        kind = .refresh ∧ Outlasts (run jwt config now users blacklist as) (pair.exp kind) :=
  out_revoked_iff (wellFormed_run now users blacklist as) op hpair hok hkind

/-- A logout that comes sixteen minutes and a second after the login. -/
theorem revocation_permanent_late :
    Out Auth.plainJwt Auth.shortConfig
      (step Auth.plainJwt Auth.shortConfig (run Auth.plainJwt Auth.shortConfig 0 [] .emptyRedis
        [.login 1 false 2 3, .tick (961 * secondNanos)]) (.logout 0))
      ((firstPair Auth.plainJwt).text .access) :=
  (revocation_permanent_iff 0 [] .emptyRedis [.login 1 false 2 3, .tick (961 * secondNanos)]
    (.logout 0) (firstPair Auth.plainJwt) .access rfl (succeeds_logout Auth.plainJwt) rfl).mpr
    (.inl (by decide))

/-- A logout right after the login is forgotten when the token expires, a minute before the
verifier refuses it. -/
theorem revocation_not_permanent :
    ¬ ∀ (jwt : Jwt) (config : AuthConfig) (now : ℕ) (users : List User) (blacklist : Blacklist)
      (as : List Action) (op : Revocation) (pair : TokenPair) (kind : TokenKind),
      (run jwt config now users blacklist as).issued[op.index]? = some pair →
      op.Succeeds jwt config (run jwt config now users blacklist as) →
      op.revokes kind = true →
      Out jwt config (step jwt config (run jwt config now users blacklist as) op.action)
        (pair.text kind) := by
  intro h
  have hout := h Auth.plainJwt Auth.shortConfig 0 [] .emptyRedis [.login 1 false 2 3, .tick 0]
    (.logout 0) (firstPair Auth.plainJwt) .access rfl (succeeds_logout Auth.plainJwt) rfl
  rcases (out_revoked_iff (wellFormed_run 0 [] .emptyRedis _) (.logout 0) rfl
    (succeeds_logout Auth.plainJwt) rfl).mp hout with hdead | ⟨hkind, -⟩
  · exact absurd hdead (by decide)
  · cases hkind

end PicHost.Sessions
