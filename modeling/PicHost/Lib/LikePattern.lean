import Mathlib.Data.List.Infix
import Mathlib.Data.List.Count

/-!
# Patterns with wildcards

The patterns of `LIKE`: a symbol for any run, a symbol for any one character and, in some
dialects, a symbol that takes the meaning of the one after it away. A text spliced into a pattern
stands for itself exactly when it has none of them.
-/

namespace LikePattern

variable {α : Type*}

/-- The symbols of a dialect. -/
structure Dialect (α : Type*) where
  run : α
  one : α
  escape : Option α
  escape_ne : escape ≠ some run

inductive Token (α : Type*)
  | run
  | one
  | literal (c : α)
deriving DecidableEq

variable [DecidableEq α]

namespace Dialect

variable (d : Dialect α)

/-- The token of a symbol that is not escaped. -/
def token (c : α) : Token α := if c = d.run then .run else if c = d.one then .one else .literal c

/-- What a pattern is read as. An escape symbol with nothing after it has no meaning. -/
def tokens : List α → List (Token α)
  | [] => []
  | [c] => if d.escape = some c then [] else [d.token c]
  | c :: c' :: cs =>
    if d.escape = some c then .literal c' :: tokens cs else d.token c :: tokens (c' :: cs)

/-- The text has no symbol of the dialect. -/
def Plain (s : List α) : Prop := ∀ c ∈ s, c ≠ d.run ∧ c ≠ d.one ∧ d.escape ≠ some c

instance (s : List α) : Decidable (d.Plain s) := inferInstanceAs (Decidable (∀ c ∈ s, _))

end Dialect

def matchTokens : List (Token α) → List α → Bool
  | [], t => t.isEmpty
  | .run :: p, t => t.tails.any (matchTokens p)
  | .one :: _, [] => false
  | .one :: p, _ :: t => matchTokens p t
  | .literal _ :: _, [] => false
  | .literal c :: p, c' :: t => c == c' && matchTokens p t

def Dialect.like (d : Dialect α) (text pattern : List α) : Bool :=
  matchTokens (d.tokens pattern) text

/-! ## What the tokens match -/

theorem matchTokens_run {p : List (Token α)} {t : List α} :
    matchTokens (.run :: p) t = true ↔ ∃ u v, t = u ++ v ∧ matchTokens p v = true := by
  simp only [matchTokens, List.any_eq_true, List.mem_tails]
  constructor
  · rintro ⟨v, ⟨u, rfl⟩, hv⟩
    exact ⟨u, v, rfl, hv⟩
  · rintro ⟨u, v, rfl, hv⟩
    exact ⟨v, List.suffix_append u v, hv⟩

theorem matchTokens_literals {p : List (Token α)} (s : List α) {t : List α} :
    matchTokens (s.map .literal ++ p) t = true ↔ ∃ v, t = s ++ v ∧ matchTokens p v = true := by
  induction s generalizing t with
  | nil => simp
  | cons c s ih =>
    cases t with
    | nil => simp [matchTokens]
    | cons c' t =>
      simp only [List.map_cons, List.cons_append, matchTokens, Bool.and_eq_true, beq_iff_eq, ih,
        List.cons.injEq]
      constructor
      · rintro ⟨rfl, v, rfl, hv⟩
        exact ⟨v, ⟨rfl, rfl⟩, hv⟩
      · rintro ⟨v, ⟨rfl, rfl⟩, hv⟩
        exact ⟨rfl, v, rfl, hv⟩

theorem matchTokens_infix {s t : List α} :
    matchTokens (.run :: (s.map .literal ++ [.run])) t = true ↔ s <:+: t := by
  rw [matchTokens_run]
  constructor
  · rintro ⟨u, v, rfl, hv⟩
    obtain ⟨w, rfl, -⟩ := (matchTokens_literals s).mp hv
    exact ⟨u, w, List.append_assoc ..⟩
  · rintro ⟨u, w, rfl⟩
    refine ⟨u, s ++ w, List.append_assoc .., (matchTokens_literals s).mpr ⟨w, rfl, ?_⟩⟩
    exact matchTokens_run.mpr ⟨w, [], (List.append_nil w).symm, rfl⟩

/-- The shortest text that tokens match, with `filler` where any one character does. -/
def resolve (filler : α) : List (Token α) → List α
  | [] => []
  | .run :: p => resolve filler p
  | .one :: p => filler :: resolve filler p
  | .literal c :: p => c :: resolve filler p

theorem matchTokens_resolve (filler : α) (p : List (Token α)) :
    matchTokens p (resolve filler p) = true := by
  induction p with
  | nil => rfl
  | cons token p ih =>
    cases token with
    | run => exact matchTokens_run.mpr ⟨[], _, rfl, ih⟩
    | one => exact ih
    | literal c =>
      show (c == c && matchTokens p (resolve filler p)) = true
      rw [beq_self_eq_true, ih, Bool.and_self]

/-! ## Text spliced into a pattern -/

variable {d : Dialect α} {s : List α} {filler : α}

theorem tokens_cons_of_not_escape {c : α} (hc : d.escape ≠ some c) (cs : List α) :
    d.tokens (c :: cs) = d.token c :: d.tokens cs := by
  cases cs with
  | nil => simp [Dialect.tokens, hc]
  | cons c' cs => rw [Dialect.tokens, if_neg hc]

theorem tokens_plain (h : d.Plain s) (cs : List α) :
    d.tokens (s ++ cs) = s.map .literal ++ d.tokens cs := by
  induction s with
  | nil => rfl
  | cons c s ih =>
    obtain ⟨⟨hrun, hone, hescape⟩, hs⟩ := List.forall_mem_cons.mp h
    rw [List.cons_append, tokens_cons_of_not_escape hescape, ih hs, Dialect.token, if_neg hrun,
      if_neg hone]
    rfl

theorem mem_resolve_tokens {c : α} (cs : List α) (hc : c ∈ resolve filler (d.tokens cs)) :
    c = filler ∨ c ∈ cs := by
  induction cs using Dialect.tokens.induct d with
  | case1 => cases hc
  | case2 c' hescape =>
    rw [Dialect.tokens, if_pos hescape] at hc
    cases hc
  | case3 c' hescape =>
    rw [Dialect.tokens, if_neg hescape, Dialect.token] at hc
    split_ifs at hc
    · cases hc
    · exact .inl (by simpa [resolve] using hc)
    · exact .inr (by simpa [resolve] using hc)
  | case4 c' c'' cs hescape ih =>
    rw [Dialect.tokens, if_pos hescape, resolve] at hc
    rcases List.mem_cons.mp hc with rfl | hc
    · simp
    · exact (ih hc).imp_right fun h => by simp [h]
  | case5 c' c'' cs hescape ih =>
    rw [Dialect.tokens, if_neg hescape, Dialect.token] at hc
    split_ifs at hc
    · exact (ih hc).imp_right fun h => List.mem_cons_of_mem _ h
    · rcases List.mem_cons.mp hc with rfl | hc
      · exact .inl rfl
      · exact (ih hc).imp_right fun h => List.mem_cons_of_mem _ h
    · rcases List.mem_cons.mp hc with rfl | hc
      · exact .inr List.mem_cons_self
      · exact (ih hc).imp_right fun h => List.mem_cons_of_mem _ h

/-- An escape symbol before another symbol is lost. -/
theorem count_resolve_tokens {e : α} (he : d.escape = some e) (hfiller : filler ≠ e)
    (cs : List α) : (resolve filler (d.tokens cs)).count e ≤ cs.count e ∧
      (e ∈ cs → (resolve filler (d.tokens cs)).count e < cs.count e) := by
  induction cs using Dialect.tokens.induct d with
  | case1 => exact ⟨le_rfl, fun h => by cases h⟩
  | case2 c hescape =>
    obtain rfl : e = c := Option.some.inj (he.symm.trans hescape)
    rw [Dialect.tokens, if_pos hescape]
    simp [resolve]
  | case3 c hescape =>
    have hc : e ≠ c := fun h => hescape (h ▸ he)
    rw [Dialect.tokens, if_neg hescape, Dialect.token]
    split_ifs <;> simp [resolve, hc, hc.symm, hfiller]
  | case4 c c' cs hescape ih =>
    obtain rfl : e = c := Option.some.inj (he.symm.trans hescape)
    rw [Dialect.tokens, if_pos hescape, resolve, List.count_cons, List.count_cons, List.count_cons]
    have := ih.1
    simp only [beq_self_eq_true, if_true]
    omega
  | case5 c c' cs hescape ih =>
    have hc : c ≠ e := fun h => hescape (h ▸ he)
    have hmem : e ∈ c :: c' :: cs ↔ e ∈ c' :: cs := by
      rw [List.mem_cons, or_iff_right hc.symm]
    rw [Dialect.tokens, if_neg hescape, hmem, List.count_cons_of_ne hc, Dialect.token]
    split_ifs
    · exact ih
    · rwa [resolve, List.count_cons_of_ne hfiller]
    · rwa [resolve, List.count_cons_of_ne hc]

/-- Without an escape symbol the other symbols only stand for other text. -/
theorem not_mem_resolve_tokens {m : α} (hm : m = d.run ∨ m = d.one) (hfiller : filler ≠ m)
    (cs : List α) (hcs : ∀ c ∈ cs, d.escape ≠ some c) : m ∉ resolve filler (d.tokens cs) := by
  induction cs with
  | nil => exact List.not_mem_nil
  | cons c cs ih =>
    obtain ⟨hc, hcs⟩ := List.forall_mem_cons.mp hcs
    rw [tokens_cons_of_not_escape hc, Dialect.token]
    split_ifs with hrun hone
    · exact ih hcs
    · exact List.not_mem_cons_of_ne_of_not_mem hfiller.symm (ih hcs)
    · refine List.not_mem_cons_of_ne_of_not_mem ?_ (ih hcs)
      rintro rfl
      exact hm.elim hrun hone

/-- Text with none of the symbols matches what contains it. -/
theorem like_infix (h : d.Plain s) (t : List α) :
    d.like t (d.run :: (s ++ [d.run])) = decide (s <:+: t) := by
  have hrun : d.token d.run = .run := if_pos rfl
  rw [Dialect.like, tokens_cons_of_not_escape d.escape_ne, hrun, tokens_plain h,
    tokens_cons_of_not_escape d.escape_ne, hrun, Dialect.tokens, Bool.eq_iff_iff, decide_eq_true_eq]
  exact matchTokens_infix

/-- Text with one of the symbols matches something that does not contain it. -/
theorem exists_like_not_infix (hrun : filler ≠ d.run) (hone : filler ≠ d.one)
    (hescape : d.escape ≠ some filler) (h : ¬ d.Plain s) :
    ∃ t, (∀ c ∈ t, c = filler ∨ c ∈ s ∨ c = d.run) ∧
      d.like t (d.run :: (s ++ [d.run])) = true ∧ ¬ s <:+: t := by
  let t := resolve filler (d.tokens (s ++ [d.run]))
  refine ⟨t, fun c hc => ?_, ?_, fun hin => h fun c hc => ?_⟩
  · simpa using mem_resolve_tokens _ hc
  · rw [Dialect.like, tokens_cons_of_not_escape d.escape_ne]
    have hfirst : d.token d.run = .run := if_pos rfl
    rw [hfirst]
    exact matchTokens_run.mpr ⟨[], t, rfl, matchTokens_resolve filler _⟩
  · have hct : c ∈ t := hin.subset hc
    have hplain : ∀ c' ∈ s ++ [d.run], d.escape ≠ some c' := by
      intro e he hesc
      have hes : e ∈ s := by
        rcases List.mem_append.mp he with hs | hlast
        · exact hs
        · exact absurd ((List.mem_singleton.mp hlast) ▸ hesc) d.escape_ne
      have hne : d.run ≠ e := fun heq => d.escape_ne (heq ▸ hesc)
      have hfiller : filler ≠ e := by
        rintro rfl
        exact hescape hesc
      have hlost := (count_resolve_tokens hesc hfiller _).2 he
      rw [List.count_append, List.count_singleton, if_neg (by simpa using hne),
        Nat.add_zero] at hlost
      exact absurd (hin.sublist.count_le e) hlost.not_ge
    refine ⟨fun heq => ?_, fun heq => ?_, hplain c (List.mem_append_left _ hc)⟩
    · exact not_mem_resolve_tokens (.inl heq) (heq ▸ hrun) _ hplain hct
    · exact not_mem_resolve_tokens (.inr heq) (heq ▸ hone) _ hplain hct

end LikePattern
