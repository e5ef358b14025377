import Mathlib.Data.List.Basic

/-!
# Lines of texts

A text is read line by line, each with its terminator, or split into lines without.
-/

namespace TextLines

/-- `split_inclusive('\n')`, which is also what `read_line` gives. -/
def pieces : List Char → List (List Char)
  | [] => []
  | c :: rest =>
    if c = '\n' then [c] :: pieces rest
    else
      match pieces rest with
      | [] => [[c]]
      | piece :: more => (c :: piece) :: more

/-- A line without `\r` at its end. -/
def stripReturn (line : List Char) : List Char :=
  if line.getLast? = some '\r' then line.dropLast else line

/-- A line without its terminator, which is `\n` or `\r\n`. -/
def chomp (piece : List Char) : List Char :=
  if piece.getLast? = some '\n' then stripReturn piece.dropLast else piece

/-- `str::lines`. -/
def lines (text : List Char) : List (List Char) := (pieces text).map chomp

def unlines (ls : List (List Char)) : List Char := ls.flatMap fun line => line ++ ['\n']

theorem pieces_line {line : List Char} (h : '\n' ∉ line) (rest : List Char) :
    pieces (line ++ '\n' :: rest) = (line ++ ['\n']) :: pieces rest := by
  induction line with
  | nil => rw [List.nil_append, List.nil_append, pieces, if_pos rfl]
  | cons c line ih =>
    rw [List.mem_cons, not_or] at h
    rw [List.cons_append, pieces, if_neg (Ne.symm h.1), ih h.2]
    rfl

theorem pieces_unlines {ls : List (List Char)} (h : ∀ line ∈ ls, '\n' ∉ line) :
    pieces (unlines ls) = ls.map fun line => line ++ ['\n'] := by
  induction ls with
  | nil => rfl
  | cons line ls ih =>
    obtain ⟨hline, hrest⟩ := List.forall_mem_cons.mp h
    rw [unlines, List.flatMap_cons, List.append_assoc, List.singleton_append, pieces_line hline,
      List.map_cons, ← ih hrest]
    rfl

theorem chomp_line (line : List Char) : chomp (line ++ ['\n']) = stripReturn line := by
  rw [chomp, List.getLast?_concat, if_pos rfl, List.dropLast_concat]

theorem lines_unlines {ls : List (List Char)} (h : ∀ line ∈ ls, '\n' ∉ line) :
    lines (unlines ls) = ls.map stripReturn := by
  rw [lines, pieces_unlines h, List.map_map]
  exact List.map_congr_left fun line _ => chomp_line line

theorem stripReturn_eq_self_iff {line : List Char} :
    stripReturn line = line ↔ line.getLast? ≠ some '\r' := by
  unfold stripReturn
  split
  · rename_i hlast
    refine iff_of_false (fun heq => ?_) fun hne => hne hlast
    have hlength := congrArg List.length heq
    have hpos := List.length_pos_of_mem (List.mem_of_getLast? hlast)
    rw [List.length_dropLast] at hlength
    omega
  · rename_i hlast
    exact iff_of_true rfl hlast

theorem map_stripReturn_eq_self_iff {ls : List (List Char)} :
    ls.map stripReturn = ls ↔ ∀ line ∈ ls, line.getLast? ≠ some '\r' := by
  conv_lhs => rw [← List.map_id ls, List.map_map]
  rw [List.map_inj_left]
  exact forall₂_congr fun line _ => stripReturn_eq_self_iff

theorem unlines_injective {ls ls' : List (List Char)} (hls : ∀ line ∈ ls, '\n' ∉ line)
    (hls' : ∀ line ∈ ls', '\n' ∉ line) (h : unlines ls = unlines ls') : ls = ls' := by
  have hpieces := congrArg pieces h
  rw [pieces_unlines hls, pieces_unlines hls'] at hpieces
  exact List.map_injective_iff.mpr (List.append_left_injective _) hpieces

theorem mem_stripReturn {line : List Char} {c : Char} (h : c ∈ stripReturn line) : c ∈ line := by
  unfold stripReturn at h
  split at h
  · exact List.dropLast_subset _ h
  · exact h

/-- A piece ends at its first newline. -/
theorem pieces_cases {text piece : List Char} (h : piece ∈ pieces text) :
    ∃ line, '\n' ∉ line ∧ (piece = line ∨ piece = line ++ ['\n']) := by
  induction text generalizing piece with
  | nil => cases h
  | cons c rest ih =>
    rw [pieces] at h
    split at h
    · rename_i hc
      rcases List.mem_cons.mp h with rfl | h
      · exact ⟨[], List.not_mem_nil, .inr (by rw [hc]; rfl)⟩
      · exact ih h
    · rename_i hc
      have hcons {line : List Char} (hline : '\n' ∉ line) : '\n' ∉ c :: line := by
        rw [List.mem_cons, not_or]
        exact ⟨Ne.symm hc, hline⟩
      split at h
      · exact ⟨[c], hcons List.not_mem_nil, .inl (List.mem_singleton.mp h)⟩
      · rename_i first more hpieces
        rw [hpieces] at ih
        rcases List.mem_cons.mp h with rfl | h
        · obtain ⟨line, hline, hfirst⟩ := ih List.mem_cons_self
          exact ⟨c :: line, hcons hline, hfirst.imp (congrArg _) (congrArg _)⟩
        · exact ih (List.mem_cons_of_mem _ h)

theorem newline_not_mem_chomp {text piece : List Char} (h : piece ∈ pieces text) :
    '\n' ∉ chomp piece := by
  obtain ⟨line, hline, rfl | rfl⟩ := pieces_cases h
  · have hlast : piece.getLast? ≠ some '\n' := fun hlast =>
      hline (List.mem_of_getLast? hlast)
    rw [chomp, if_neg hlast]
    exact hline
  · rw [chomp_line]
    exact fun hmem => hline (mem_stripReturn hmem)

theorem newline_not_mem_lines {text line : List Char} (h : line ∈ lines text) : '\n' ∉ line := by
  obtain ⟨piece, hpiece, rfl⟩ := List.mem_map.mp h
  exact newline_not_mem_chomp hpiece

end TextLines
