import Mathlib.Data.List.Basic
import Mathlib.Data.List.Infix
import Mathlib.Order.Basic

/-!
# Texts with a token of two letters

The token is the letters `o` and `c`, which differ, so no two of its occurrences overlap. A text
is the pieces between its tokens, and is filled by putting other texts in place of the tokens.
-/

namespace TokenText

variable {α : Type*} (o c : α)

/-- `replacen` of the token, once. -/
def replaceFirst [DecidableEq α] (new : List α) : List α → List α
  | x :: y :: rest =>
    if x = o ∧ y = c then new ++ rest else x :: replaceFirst new (y :: rest)
  | l => l

/-- The texts before, between and after the tokens. -/
def pieces [DecidableEq α] : List α → List (List α)
  | x :: y :: rest =>
    if x = o ∧ y = c then [] :: pieces rest else (pieces (y :: rest)).modifyHead (x :: ·)
  | l => [l]

/-- The pieces with the texts between them, and with tokens where there are no more texts. -/
def fill : List (List α) → List (List α) → List α
  | [], _ => []
  | [p], _ => p
  | p :: q :: ps, [] => p ++ o :: c :: fill (q :: ps) []
  | p :: q :: ps, a :: as => p ++ a ++ fill (q :: ps) as

def HasToken (l : List α) : Prop := [o, c] <:+: l

/-- What stands before the last token when the tokens before it are replaced. -/
def beforeLast (ps earlier : List (List α)) : List α := fill o c ps.dropLast earlier

variable {o c}

/-! ## The first token -/

theorem hasToken_cons {x : α} {l : List α} :
    HasToken o c (x :: l) ↔ (o = x ∧ [c] <+: l) ∨ HasToken o c l := by
  rw [HasToken, List.infix_cons_iff, List.cons_prefix_cons, HasToken]

theorem not_hasToken_nil : ¬ HasToken o c [] := by simp [HasToken]

theorem exists_first_token {l : List α} (h : HasToken o c l) :
    ∃ u v, l = u ++ o :: c :: v ∧ ¬ HasToken o c u := by
  induction l with
  | nil => exact absurd h not_hasToken_nil
  | cons x l ih =>
    by_cases hfirst : o = x ∧ [c] <+: l
    · obtain ⟨rfl, v, rfl⟩ := hfirst
      exact ⟨[], v, rfl, not_hasToken_nil⟩
    · obtain ⟨u, v, rfl, hu⟩ := ih ((hasToken_cons.mp h).resolve_left hfirst)
      refine ⟨x :: u, v, rfl, ?_⟩
      rw [hasToken_cons, not_or]
      refine ⟨fun hx => hfirst ⟨hx.1, ?_⟩, hu⟩
      exact hx.2.trans (List.prefix_append u _)

/-- A text in which every other text may stand at one place has it after one text only. -/
theorem append_inj_of_forall (hoc : o ≠ c) {u v u' v' : List α}
    (h : ∀ a : List α, u ++ a ++ v = u' ++ a ++ v') : u = u' := by
  have hboth (x : α) : u ++ x :: v = u' ++ x :: v' := by simpa using h [x]
  -- A letter that only one of the texts has would be both letters of the token.
  rcases List.append_eq_append_iff.mp (hboth o) with ⟨w, hw, ho⟩ | ⟨w, hw, ho⟩
  · cases w with
    | nil => rw [hw, List.append_nil]
    | cons y w =>
      have hc := hboth c
      rw [hw, List.append_assoc, List.append_cancel_left_eq] at hc
      exact absurd ((List.cons.inj ho).1.trans (List.cons.inj hc).1.symm) hoc
  · cases w with
    | nil => rw [hw, List.append_nil]
    | cons y w =>
      have hc := hboth c
      rw [hw, List.append_assoc, List.append_cancel_left_eq] at hc
      exact absurd ((List.cons.inj ho).1.trans (List.cons.inj hc).1) hoc

/-! ## Filling -/

theorem fill_modifyHead (x : α) {ps : List (List α)} (h : ps ≠ []) (as : List (List α)) :
    fill o c (ps.modifyHead (x :: ·)) as = x :: fill o c ps as := by
  cases ps with
  | nil => exact absurd rfl h
  | cons p ps =>
    cases ps with
    | nil => rfl
    | cons q ps => cases as <;> rfl

theorem fill_concat {ps as : List (List α)} (h : ps.length = as.length + 1) (a p : List α) :
    fill o c (ps ++ [p]) (as ++ [a]) = fill o c ps as ++ a ++ p := by
  induction as generalizing ps with
  | nil =>
    obtain ⟨q, rfl⟩ := List.length_eq_one_iff.mp h
    rfl
  | cons b as ih =>
    cases ps with
    | nil => cases h
    | cons q ps =>
      cases ps with
      | nil => cases h
      | cons r ps =>
        have hlen : (r :: ps).length = as.length + 1 := by simpa using h
        rw [List.cons_append, List.cons_append, List.cons_append, fill, ← List.cons_append,
          ih hlen, fill]
        simp only [List.append_assoc]

section Replace

variable [DecidableEq α]

theorem replaceFirst_cons {x : α} {l : List α} (h : ¬ (o = x ∧ [c] <+: l)) (new : List α) :
    replaceFirst o c new (x :: l) = x :: replaceFirst o c new l := by
  cases l with
  | nil => rfl
  | cons y rest =>
    rw [replaceFirst, if_neg]
    rintro ⟨rfl, rfl⟩
    exact h ⟨rfl, List.prefix_append [y] rest⟩

theorem replaceFirst_of_no_token {l : List α} (h : ¬ HasToken o c l) (new : List α) :
    replaceFirst o c new l = l := by
  induction l with
  | nil => rfl
  | cons x l ih =>
    rw [hasToken_cons, not_or] at h
    rw [replaceFirst_cons h.1, ih h.2]

/-- A text without tokens hides none at its end, since the letters of the token differ. -/
theorem replaceFirst_append (hoc : o ≠ c) {u : List α} (hu : ¬ HasToken o c u)
    (v new : List α) : replaceFirst o c new (u ++ o :: c :: v) = u ++ new ++ v := by
  induction u with
  | nil => rw [List.nil_append, replaceFirst, if_pos ⟨rfl, rfl⟩, List.nil_append]
  | cons x u ih =>
    rw [hasToken_cons, not_or] at hu
    rw [List.cons_append, replaceFirst_cons, ih hu.2, List.cons_append, List.cons_append]
    rintro ⟨rfl, hc⟩
    cases u with
    | nil => exact hoc (List.cons_prefix_cons.mp hc).1.symm
    | cons y u =>
      rw [List.cons_append, List.cons_prefix_cons] at hc
      exact hu.1 ⟨rfl, List.cons_prefix_cons.mpr ⟨hc.1, List.nil_prefix⟩⟩

theorem pieces_ne_nil (l : List α) : pieces o c l ≠ [] := by
  induction l using pieces.induct (o := o) (c := c) with
  | case1 x y rest h ih =>
    rw [pieces, if_pos h]
    exact List.cons_ne_nil _ _
  | case2 x y rest h ih =>
    rw [pieces, if_neg h]
    simpa using ih
  | case3 l h =>
    rw [pieces]
    · exact List.cons_ne_nil _ _
    · exact h

theorem fill_pieces (l : List α) : fill o c (pieces o c l) [] = l := by
  induction l using pieces.induct (o := o) (c := c) with
  | case1 x y rest h ih =>
    rw [pieces, if_pos h, h.1, h.2]
    cases hps : pieces o c rest with
    | nil => exact absurd hps (pieces_ne_nil rest)
    | cons q ps => rw [fill, ← hps, ih, List.nil_append]
  | case2 x y rest h ih => rw [pieces, if_neg h, fill_modifyHead x (pieces_ne_nil _), ih]
  | case3 l h =>
    rw [pieces]
    · rfl
    · exact h

/-- The replacements one after the other, each of the first token that there is then. -/
def replaceAll (o c : α) (l : List α) (as : List (List α)) : List α :=
  as.foldl (fun l a => replaceFirst o c a l) l

/-- After a text that is done with, tokens are replaced in their order as long as no text has
brought one in before the last of them. -/
theorem replaceAll_append (hoc : o ≠ c) {as ps : List (List α)} {u : List α}
    (hlen : ps.length = as.length + 1)
    (hno : as ≠ [] → ¬ HasToken o c (u ++ beforeLast o c ps as.dropLast)) :
    replaceAll o c (u ++ fill o c ps []) as = u ++ fill o c ps as := by
  induction as generalizing ps u with
  | nil => rfl
  | cons a as ih =>
    cases ps with
    | nil => cases hlen
    | cons p ps =>
      cases ps with
      | nil => cases hlen
      | cons q ps =>
        have hlen' : (q :: ps).length = as.length + 1 := by simpa using hlen
        have hno' := hno (List.cons_ne_nil _ _)
        -- What stands before the last token begins with `u` and `p`, and goes on as it does later.
        have hbefore : u ++ p <+: u ++ beforeLast o c (p :: q :: ps) (a :: as).dropLast ∧
            (as ≠ [] → u ++ p ++ a ++ beforeLast o c (q :: ps) as.dropLast =
              u ++ beforeLast o c (p :: q :: ps) (a :: as).dropLast) := by
          cases as with
          | nil =>
            obtain rfl : ps = [] := by simpa using hlen'
            exact ⟨List.prefix_rfl, fun hne => absurd rfl hne⟩
          | cons b bs =>
            cases ps with
            | nil => cases hlen'
            | cons r rs =>
              have hfill : beforeLast o c (p :: q :: r :: rs) (a :: b :: bs).dropLast =
                  p ++ a ++ beforeLast o c (q :: r :: rs) (b :: bs).dropLast := by
                rw [beforeLast, beforeLast, List.dropLast_cons_cons, List.dropLast_cons_cons,
                  List.dropLast_cons_cons, fill]
              rw [hfill]
              refine ⟨?_, fun _ => by simp only [List.append_assoc]⟩
              exact ⟨a ++ beforeLast o c (q :: r :: rs) (b :: bs).dropLast, by
                simp only [List.append_assoc]⟩
        have hup : ¬ HasToken o c (u ++ p) := fun h => hno' (h.trans hbefore.1.isInfix)
        have hstep : replaceFirst o c a (u ++ fill o c (p :: q :: ps) []) =
            u ++ p ++ a ++ fill o c (q :: ps) [] := by
          rw [fill, ← List.append_assoc, replaceFirst_append hoc hup]
        rw [replaceAll, List.foldl_cons, hstep, ← replaceAll, ih hlen' fun hne => by
          rw [hbefore.2 hne]
          exact hno', fill]
        simp only [List.append_assoc]

/-- Whatever the last text is, the texts come to the tokens in their order exactly if the earlier
ones bring in no token before the last. -/
theorem replaceAll_eq_fill_iff (hoc : o ≠ c) {l : List α} {earlier : List (List α)}
    (h : earlier.length = (pieces o c l).length - 1 - 1) :
    (∀ as : List (List α), as.length = (pieces o c l).length - 1 → as.dropLast = earlier →
        replaceAll o c l as = fill o c (pieces o c l) as) ↔
      ¬ HasToken o c (beforeLast o c (pieces o c l) earlier) := by
  have hpos := List.length_pos_of_ne_nil (@pieces_ne_nil α o c _ l)
  constructor
  · intro hall htoken
    by_cases hone : (pieces o c l).length = 1
    · -- Without tokens there is nothing before the last.
      obtain ⟨p, hp⟩ := List.length_eq_one_iff.mp hone
      rw [hp, beforeLast] at htoken
      exact not_hasToken_nil htoken
    · obtain ⟨ps, p, hps⟩ := (List.eq_nil_or_concat' (pieces o c l)).resolve_left
        (pieces_ne_nil l)
      have hlen : ps.length = earlier.length + 1 := by
        rw [hps, List.length_append, List.length_singleton] at h hone
        omega
      rw [hps, beforeLast, List.dropLast_concat] at htoken
      have hlast (a : List α) : replaceFirst o c a (replaceAll o c l earlier) =
          fill o c ps earlier ++ a ++ p := by
        have hfill := hall (earlier ++ [a])
          (by rw [List.length_append, List.length_singleton]; omega) List.dropLast_concat
        rwa [replaceAll, List.foldl_append, ← replaceAll, hps, fill_concat hlen] at hfill
      by_cases hdone : HasToken o c (replaceAll o c l earlier)
      · -- The last text comes in at the first token, which is then the last of the text.
        obtain ⟨u, v, huv, hu⟩ := exists_first_token hdone
        have heq : u = fill o c ps earlier := append_inj_of_forall hoc fun a => by
          rw [← hlast a, huv, replaceFirst_append hoc hu]
        exact hu (heq ▸ htoken)
      · -- The last text does not come in at all.
        have hshort := (hlast []).symm.trans ((replaceFirst_of_no_token hdone []).trans
          ((replaceFirst_of_no_token hdone [o]).symm.trans (hlast [o])))
        have hlength := congrArg List.length hshort
        simp only [List.length_append, List.length_nil, List.length_singleton] at hlength
        omega
  · intro hno as has hearlier
    have hlen : (pieces o c l).length = as.length + 1 := by omega
    have happend := replaceAll_append hoc (u := []) hlen fun _ => by
      rwa [List.nil_append, hearlier]
    rwa [List.nil_append, List.nil_append, fill_pieces] at happend

end Replace

end TokenText
