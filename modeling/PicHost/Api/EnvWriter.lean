import PicHost.Api.Categories
import PicHost.Lib.Dotenv
import PicHost.Lib.TextLines

/-!
# Writing the environment file

The setup replaces assignments in `.env` line by line, by the text before the first `=`; the server
reads the file as a dotenv file.
-/

namespace PicHost.EnvWriter

open Dotenv TextLines

/-- `key.replace("__", "_")`. -/
def singleUnderscore : Text → Text
  | '_' :: '_' :: rest => '_' :: singleUnderscore rest
  | c :: rest => c :: singleUnderscore rest
  | [] => []

/-- A key to update, or its form with single underscores. -/
def named (updates : List (Text × Text)) (key : Text) : Bool :=
  updates.any fun u => key == u.1 || key == singleUnderscore u.1

def replaced (updates : List (Text × Text)) (line : Text) : Bool :=
  named updates (line.takeWhile (· != '='))

/-- The lines that stay. -/
def staying (content : Text) (updates : List (Text × Text)) : List Text :=
  (lines content).filter fun line => !replaced updates line

def upsertEnv (content : Text) (updates : List (Text × Text)) : Text :=
  unlines (staying content updates) ++ updates.flatMap fun u => u.1 ++ '=' :: u.2 ++ ['\n']

example : upsertEnv "A_B=1\nC=2".toList [("A__B".toList, "3".toList)] = "C=2\nA__B=3\n".toList := by
  decide +kernel

section Update

variable (r : Reader) (content : Text) (updates : List (Text × Text))

/-- The lines of statements with other keys or none. -/
def foreignLines : List Text → List Text → List Text
  | _, [] => []
  | before, piece :: rest =>
    if (r.key before piece).any (named updates) then foreignLines (before ++ [piece]) rest
    else chomp piece :: foreignLines (before ++ [piece]) rest

def newLines : List Text := updates.map fun u => u.1 ++ '=' :: u.2

/-- The writer updates keys with values. -/
structure IsUpdate : Prop where
  updated : ∀ u ∈ updates, r.read (pieces (upsertEnv content updates)) u.1 = some u.2
  others : ∀ key, named updates key = false →
    r.read (pieces (upsertEnv content updates)) key = r.read (pieces content) key
  untouched : ∃ kept, lines (upsertEnv content updates) = kept ++ newLines updates ∧
    (foreignLines r updates [] (pieces content)).Sublist kept
  again : upsertEnv (upsertEnv content updates) updates = upsertEnv content updates

/-- The lines that stay, as they are written. -/
def stayingPieces : List Text := (staying content updates).map fun line => line ++ ['\n']

/-- The lines that go are lines of the keys to update. Those that stay have no carriage return left,
say the same of the other keys without the ones that go, and are either read to the end without
assigning a key to update, or assign it as the update does. -/
structure Applicable : Prop where
  keys : ∀ u ∈ updates, isKey u.1 = true
  returns : ∀ line ∈ staying content updates, line.getLast? ≠ some '\r'
  gone : ∀ before piece after, pieces content = before ++ piece :: after →
    replaced updates (chomp piece) = true → (r.key before piece).any (named updates) = true
  others : ∀ key, named updates key = false →
    r.read (stayingPieces content updates) key = r.read (pieces content) key
  free : ∀ u ∈ updates, r.read (stayingPieces content updates) u.1 = some u.2 ∨
    r.ready (stayingPieces content updates) = true ∧
      r.read (stayingPieces content updates) u.1 = none

end Update

variable {r : Reader} {content : Text} {updates : List (Text × Text)}

theorem upsertEnv_eq (content : Text) (updates : List (Text × Text)) :
    upsertEnv content updates = unlines (staying content updates ++ newLines updates) := by
  rw [upsertEnv, unlines, unlines, newLines, List.flatMap_append, List.flatMap_map]

/-- No character of a key is special to lines. -/
theorem not_mem_key {key : Text} {c : Char} (hkey : isKey key = true)
    (hc : isKeyStart c = false ∧ isKeyChar c = false) : c ∉ key := by
  cases key with
  | nil => cases hkey
  | cons k rest =>
    rw [isKey, Bool.and_eq_true, List.all_eq_true] at hkey
    rw [List.mem_cons, not_or]
    constructor
    · rintro rfl
      rw [hkey.1] at hc
      cases hc.1
    · intro hmem
      rw [hkey.2 c hmem] at hc
      cases hc.2

theorem replaced_newLines (hkeys : ∀ u ∈ updates, isKey u.1 = true) :
    ∀ line ∈ newLines updates, replaced updates line = true := by
  intro line hline
  obtain ⟨u, hu, rfl⟩ := List.mem_map.mp hline
  have hkey : (u.1 ++ '=' :: u.2).takeWhile (· != '=') = u.1 := by
    rw [List.takeWhile_append_of_pos, List.takeWhile_cons_of_neg (by decide), List.append_nil]
    intro c hc
    have hne : c ≠ '=' := fun heq =>
      not_mem_key (hkeys u hu) (c := '=') ⟨rfl, rfl⟩ (heq ▸ hc)
    exact bne_iff_ne.mpr hne
  rw [replaced, hkey, named, List.any_eq_true]
  exact ⟨u, hu, by rw [beq_self_eq_true, Bool.true_or]⟩

section Plain

variable (hkeys : ∀ u ∈ updates, isKey u.1 = true)
  (hplain : ∀ u ∈ updates, ∀ c ∈ u.2, r.special c = false)

include hkeys hplain

theorem not_mem_newLines {c : Char} (hkey : isKeyStart c = false ∧ isKeyChar c = false)
    (hequal : c ≠ '=') (hspecial : r.special c = true) : ∀ line ∈ newLines updates, c ∉ line := by
  intro line hline
  obtain ⟨u, hu, rfl⟩ := List.mem_map.mp hline
  rw [List.mem_append, List.mem_cons, not_or, not_or]
  refine ⟨not_mem_key (hkeys u hu) hkey, hequal, fun hmem => ?_⟩
  rw [hplain u hu _ hmem] at hspecial
  cases hspecial

theorem newline_not_mem_result :
    ∀ line ∈ staying content updates ++ newLines updates, '\n' ∉ line := by
  refine List.forall_mem_append.mpr ⟨fun line hline => ?_,
    not_mem_newLines hkeys hplain ⟨rfl, rfl⟩ (by decide) r.special_newline⟩
  exact newline_not_mem_lines (List.mem_filter.mp hline).1

theorem pieces_upsertEnv : pieces (upsertEnv content updates) =
    stayingPieces content updates ++ updates.map fun u => assignment u.1 u.2 := by
  rw [upsertEnv_eq, pieces_unlines (newline_not_mem_result hkeys hplain), List.map_append,
    stayingPieces, newLines, List.map_map]
  rfl

theorem stripReturn_newLines : (newLines updates).map stripReturn = newLines updates := by
  refine (List.map_congr_left fun line hline => ?_).trans (List.map_id _)
  apply stripReturn_eq_self_iff.mpr
  intro hlast
  exact not_mem_newLines hkeys hplain ⟨rfl, rfl⟩ (by decide) r.special_return line hline
    (List.mem_of_getLast? hlast)

theorem lines_upsertEnv : lines (upsertEnv content updates) =
    (staying content updates).map stripReturn ++ newLines updates := by
  rw [upsertEnv_eq, lines_unlines (newline_not_mem_result hkeys hplain), List.map_append,
    stripReturn_newLines hkeys hplain]

theorem staying_upsertEnv : staying (upsertEnv content updates) updates =
    ((staying content updates).map stripReturn).filter fun line => !replaced updates line := by
  have hnone : (newLines updates).filter (fun line => !replaced updates line) = [] := by
    apply List.filter_eq_nil_iff.mpr
    intro line hline
    rw [replaced_newLines hkeys line hline]
    decide
  rw [staying, lines_upsertEnv hkeys hplain, List.filter_append, hnone, List.append_nil]

/-- A second update changes something exactly when a line that stays ends in a carriage return,
which the first one turns into a part of its terminator. -/
theorem again_iff : upsertEnv (upsertEnv content updates) updates = upsertEnv content updates ↔
    ∀ line ∈ staying content updates, line.getLast? ≠ some '\r' := by
  set rest := staying content updates with hrest
  have hagain : upsertEnv (upsertEnv content updates) updates = upsertEnv content updates ↔
      (rest.map stripReturn).filter (fun line => !replaced updates line) = rest := by
    rw [upsertEnv_eq (upsertEnv content updates), staying_upsertEnv hkeys hplain,
      upsertEnv_eq content]
    constructor
    · intro h
      refine List.append_cancel_right (unlines_injective ?_
        (newline_not_mem_result hkeys hplain) h)
      rw [← staying_upsertEnv hkeys hplain]
      exact newline_not_mem_result hkeys hplain
    · intro h
      rw [← hrest, h]
  rw [hagain, ← map_stripReturn_eq_self_iff]
  constructor
  · intro h
    have hlength : ((rest.map stripReturn).filter fun line => !replaced updates line).length =
        (rest.map stripReturn).length := by rw [h, List.length_map]
    rw [← List.filter_sublist.eq_of_length hlength]
    exact h
  · intro h
    rw [h, hrest, staying, List.filter_filter]
    simp only [Bool.and_self]

theorem read_upsertEnv (key : Text) : r.read (pieces (upsertEnv content updates)) key =
    if r.ready (stayingPieces content updates) then
      (r.read (stayingPieces content updates) key).or (updates.lookup key)
    else r.read (stayingPieces content updates) key := by
  rw [pieces_upsertEnv hkeys hplain]
  refine r.read_assignments (fun line hline => ?_) hkeys hplain key
  obtain ⟨stay, -, rfl⟩ := List.mem_map.mp hline
  exact List.getLast?_concat

end Plain

/-! ## When the writer updates -/

theorem lookup_eq_none {key : Text} (h : named updates key = false) :
    updates.lookup key = none := by
  rw [named, List.any_eq_false] at h
  apply List.lookup_eq_none_iff.mpr
  intro u hu
  have hne := h u hu
  rw [Bool.or_eq_true, not_or] at hne
  exact bne_iff_ne.mpr fun heq => hne.1 (beq_iff_eq.mpr heq)

theorem lookup_eq_some (hdistinct : (updates.map Prod.fst).Nodup) {u : Text × Text}
    (hu : u ∈ updates) : updates.lookup u.1 = some u.2 := by
  induction updates with
  | nil => cases hu
  | cons u' updates ih =>
    obtain ⟨k, v⟩ := u'
    rw [List.map_cons, List.nodup_cons] at hdistinct
    rcases List.mem_cons.mp hu with rfl | hrest
    · exact List.lookup_cons_self
    · have hne : u.1 ≠ k := by
        rintro rfl
        exact hdistinct.1 (List.mem_map.mpr ⟨u, hrest, rfl⟩)
      rw [List.lookup_cons, beq_false_of_ne hne]
      exact ih hdistinct.2 hrest

theorem mem_foreignLines {before middle after : List Text} {piece : Text}
    (h : (r.key (before ++ middle) piece).any (named updates) = false) :
    chomp piece ∈ foreignLines r updates before (middle ++ piece :: after) := by
  induction middle generalizing before with
  | nil =>
    rw [List.append_nil] at h
    rw [List.nil_append, foreignLines, if_neg (ne_true_of_eq_false h)]
    exact List.mem_cons_self
  | cons first middle ih =>
    rw [List.append_cons] at h
    rw [List.cons_append, foreignLines]
    split
    · exact ih h
    · exact List.mem_cons_of_mem _ (ih h)

/-- The lines of other statements are among those that stay exactly when no line of theirs goes. -/
theorem foreignLines_sublist_iff {before ps : List Text} :
    (foreignLines r updates before ps).Sublist
        ((ps.map chomp).filter fun line => !replaced updates line) ↔
      ∀ middle piece after, ps = middle ++ piece :: after →
        replaced updates (chomp piece) = true →
        (r.key (before ++ middle) piece).any (named updates) = true := by
  constructor
  · rintro h middle piece after rfl hreplaced
    by_contra hforeign
    have hmem := h.subset (mem_foreignLines (Bool.eq_false_iff.mpr hforeign))
    rw [List.mem_filter, hreplaced] at hmem
    cases hmem.2
  · intro h
    induction ps generalizing before with
    | nil => exact List.Sublist.slnil
    | cons first ps ih =>
      have hfirst := h [] first ps rfl
      rw [List.append_nil] at hfirst
      have hrest := @ih (before ++ [first]) fun middle piece after hps hreplaced => by
        rw [List.append_assoc, List.singleton_append]
        exact h (first :: middle) piece after (congrArg (first :: ·) hps) hreplaced
      rw [foreignLines, List.map_cons]
      split
      · exact hrest.trans ((List.sublist_cons_self ..).filter _)
      · rename_i hforeign
        have hstays : (!replaced updates (chomp first)) = true := by
          rw [Bool.not_eq_true', ← Bool.not_eq_true]
          exact fun hreplaced => hforeign (hfirst hreplaced)
        rw [List.filter_cons_of_pos (p := fun line => !replaced updates line) hstays]
        exact hrest.cons_cons _

variable (r content updates) in
/-- The writer updates keys with values exactly where the lines it replaces, by the text before the
first `=`, are those that the reader takes for the keys. -/
theorem isUpdate_iff (hdistinct : (updates.map Prod.fst).Nodup)
    (hplain : ∀ u ∈ updates, ∀ c ∈ u.2, r.special c = false) :
    IsUpdate r content updates ↔ Applicable r content updates := by
  have hother (hkeys : ∀ u ∈ updates, isKey u.1 = true) {key : Text}
      (hkey : named updates key = false) : r.read (pieces (upsertEnv content updates)) key =
        r.read (stayingPieces content updates) key := by
    rw [read_upsertEnv hkeys hplain, lookup_eq_none hkey, Option.or_none, ite_self]
  have hlines (hkeys : ∀ u ∈ updates, isKey u.1 = true)
      (hreturns : ∀ line ∈ staying content updates, line.getLast? ≠ some '\r') :
      lines (upsertEnv content updates) = staying content updates ++ newLines updates := by
    rw [lines_upsertEnv hkeys hplain, map_stripReturn_eq_self_iff.mpr hreturns]
  constructor
  · intro h
    have hkeys : ∀ u ∈ updates, isKey u.1 = true := fun u hu =>
      r.isKey_of_read _ _ _ (h.updated u hu)
    have hreturns := (again_iff hkeys hplain).mp h.again
    refine ⟨hkeys, hreturns, ?_, fun key hkey => ?_, fun u hu => ?_⟩
    · obtain ⟨kept, hkept, hsublist⟩ := h.untouched
      rw [hlines hkeys hreturns, List.append_cancel_right_eq] at hkept
      rw [← hkept, staying, lines] at hsublist
      exact foreignLines_sublist_iff.mp hsublist
    · rw [← hother hkeys hkey]
      exact h.others key hkey
    · have hread := h.updated u hu
      rw [read_upsertEnv hkeys hplain, lookup_eq_some hdistinct hu] at hread
      cases hready : r.ready (stayingPieces content updates) with
      | false =>
        rw [hready] at hread
        exact .inl hread
      | true =>
        rw [hready, if_pos rfl] at hread
        cases hstays : r.read (stayingPieces content updates) u.1 with
        | none => exact .inr ⟨rfl, rfl⟩
        | some v =>
          rw [hstays, Option.some_or] at hread
          exact .inl hread
  · intro h
    refine ⟨fun u hu => ?_, fun key hkey => ?_, ⟨_, hlines h.keys h.returns, ?_⟩,
      (again_iff h.keys hplain).mpr h.returns⟩
    · rw [read_upsertEnv h.keys hplain, lookup_eq_some hdistinct hu]
      rcases h.free u hu with hstays | ⟨hready, hstays⟩
      · rw [hstays, Option.some_or, ite_self]
      · rw [hstays, hready]
        rfl
    · rw [hother h.keys hkey]
      exact h.others key hkey
    · rw [staying, lines]
      exact foreignLines_sublist_iff.mpr h.gone

/-! ## The reader of the server -/

/-- No blank is a letter, a digit, `_` or `.`. -/
theorem isKeyChar_isWhitespace {c : Char} (h : isKeyChar c = true) :
    Categories.isWhitespace c = false := by
  have hrange : 46 ≤ c.toNat ∧ c.toNat ≤ 122 := by
    rw [isKeyChar, Bool.or_eq_true, Bool.or_eq_true, beq_iff_eq, beq_iff_eq] at h
    rcases h with (halphanum | rfl) | rfl
    · delta Char.isAlphanum Char.isAlpha Char.isUpper Char.isLower Char.isDigit at halphanum
      simp only [Bool.or_eq_true, Bool.and_eq_true, decide_eq_true_eq, UInt32.le_iff_toNat_le,
        ge_iff_le] at halphanum
      have hcode : c.toNat = c.val.toNat := rfl
      have hdigits : '0'.val.toNat = 48 ∧ '9'.val.toNat = 57 := ⟨rfl, rfl⟩
      have hupper : 'A'.val.toNat = 65 ∧ 'Z'.val.toNat = 90 := ⟨rfl, rfl⟩
      have hlower : 'a'.val.toNat = 97 ∧ 'z'.val.toNat = 122 := ⟨rfl, rfl⟩
      omega
    · decide
    · decide
  simp only [Categories.isWhitespace, Bool.or_eq_false_iff, Bool.and_eq_false_iff,
    decide_eq_false_iff_not, beq_eq_false_iff_ne]
  omega

theorem blanks_isWhitespace : Blanks Categories.isWhitespace where
  newline := rfl
  space := rfl
  tab := rfl
  plain c h := by
    refine ⟨?_, ?_, ?_, ?_, ?_⟩
    · apply Bool.eq_false_iff.mpr
      intro hkey
      rw [isKeyChar_isWhitespace hkey] at h
      cases h
    all_goals
      rintro rfl
      revert h
      decide

/-- dotenvy on files in which no variable is substituted. -/
def dotenv : Reader := reader Categories.isWhitespace blanks_isWhitespace

private def cleanFile : Text :=
  "DATABASE_URL=db\n# secrets\nexport PORT=80\nJWT_SECRET=old\n".toList

private def newSecret : List (Text × Text) := [("JWT_SECRET".toList, "new".toList)]

theorem newSecret_plain : ∀ u ∈ newSecret, ∀ c ∈ u.2, dotenv.special c = false := by
  have hall : newSecret.all (fun u => u.2.all fun c => !dotenv.special c) = true := by
    decide +kernel
  simpa only [List.all_eq_true, Bool.not_eq_true'] using hall

theorem isUpdate_clean : IsUpdate dotenv cleanFile newSecret := by
  have hforeign : (foreignLines dotenv newSecret [] (pieces cleanFile)).Sublist
      (((pieces cleanFile).map chomp).filter fun line => !replaced newSecret line) := by
    decide +kernel
  refine (isUpdate_iff dotenv cleanFile newSecret (by decide) newSecret_plain).mpr
    ⟨by decide +kernel, by decide +kernel, foreignLines_sublist_iff.mp hforeign,
      fun key hkey => ?_, by decide +kernel⟩
  -- The line that goes assigns no other key.
  have hdefs : (progress Categories.isWhitespace (pieces cleanFile)).defs =
      (progress Categories.isWhitespace (stayingPieces cleanFile newSecret)).defs ++
        [("JWT_SECRET".toList, "old".toList)] := by
    decide +kernel
  have hother : key ≠ "JWT_SECRET".toList := by
    rintro rfl
    revert hkey
    decide
  change List.lookup key _ = List.lookup key _
  rw [hdefs, List.lookup_append, List.lookup_cons, beq_false_of_ne hother]
  exact Option.or_none.symm

/-- A secret that follows `export` stays in force. -/
theorem secret_kept : ¬ ∀ content updates, (updates.map Prod.fst).Nodup →
    (∀ u ∈ updates, ∀ c ∈ u.2, dotenv.special c = false) → IsUpdate dotenv content updates := by
  intro h
  have hupdate := h "export JWT_SECRET=old\n".toList newSecret (by decide) newSecret_plain
  have hread := hupdate.updated _ List.mem_cons_self
  revert hread
  decide +kernel

end PicHost.EnvWriter
