import Mathlib.Data.List.DropRight

/-!
# Reading dotenv files

A file is read line by line into statements, which assign values to keys; the first value of a key
counts. What a line says is left to a reader, of which one is given: keys may follow `export`,
quotes may span lines, and nothing after an error is read.
-/

namespace Dotenv

abbrev Text := List Char

def isKeyStart (c : Char) : Bool := c.isAlpha || c == '_'

def isKeyChar (c : Char) : Bool := c.isAlphanum || c == '_' || c == '.'

def isKey : Text → Bool
  | [] => false
  | c :: rest => isKeyStart c && rest.all isKeyChar

/-- `KEY=value`, with its newline. -/
def assignment (key value : Text) : Text := key ++ '=' :: value ++ ['\n']

/-- Every line but the last one of a file ends in a newline. -/
def Terminated (ls : List Text) : Prop := ∀ line ∈ ls, line.getLast? = some '\n'

/-- What a reader makes of the first lines of a file. A plain assignment has a value without special
characters. -/
structure Reader where
  special : Char → Bool
  read : List Text → Text → Option Text
  /-- All lines were read, and the last statement is over. -/
  ready : List Text → Bool
  /-- The key of the statement that a line belongs to, after the lines before it. -/
  key : List Text → Text → Option Text
  special_newline : special '\n' = true
  special_return : special '\r' = true
  isKey_of_read : ∀ ls k v, read ls k = some v → isKey k = true
  read_plain : ∀ ls k v, Terminated ls → ready ls = true → isKey k = true →
    (∀ c ∈ v, special c = false) → ∀ key, read (ls ++ [assignment k v]) key =
      if key = k then (read ls key).or (some v) else read ls key
  ready_plain : ∀ ls k v, Terminated ls → isKey k = true → (∀ c ∈ v, special c = false) →
    ready (ls ++ [assignment k v]) = ready ls
  read_closed : ∀ ls k v, Terminated ls → ready ls = false → isKey k = true →
    (∀ c ∈ v, special c = false) → ∀ key, read (ls ++ [assignment k v]) key = read ls key

theorem terminated_append {ls ls' : List Text} (h : Terminated ls) (h' : Terminated ls') :
    Terminated (ls ++ ls') := List.forall_mem_append.mpr ⟨h, h'⟩

theorem terminated_assignment (k v : Text) : Terminated [assignment k v] := by
  intro line hline
  rw [List.mem_singleton.mp hline, assignment, List.getLast?_concat]

/-- Plain assignments at the end of a file count where no line before them assigns the key, unless
they are not reached. -/
theorem Reader.read_assignments (r : Reader) {ls : List Text} {updates : List (Text × Text)}
    (hls : Terminated ls) (hkeys : ∀ u ∈ updates, isKey u.1 = true)
    (hvalues : ∀ u ∈ updates, ∀ c ∈ u.2, r.special c = false) (key : Text) :
    r.read (ls ++ updates.map fun u => assignment u.1 u.2) key =
      if r.ready ls then (r.read ls key).or (updates.lookup key) else r.read ls key := by
  induction updates generalizing ls with
  | nil => simp
  | cons u updates ih =>
    obtain ⟨k, v⟩ := u
    obtain ⟨hk, hkeys⟩ := List.forall_mem_cons.mp hkeys
    obtain ⟨hv, hvalues⟩ := List.forall_mem_cons.mp hvalues
    rw [List.map_cons, List.append_cons,
      ih (terminated_append hls (terminated_assignment k v)) hkeys hvalues,
      r.ready_plain ls k v hls hk hv]
    cases hready : r.ready ls with
    | false => exact r.read_closed ls k v hls hready hk hv key
    | true =>
      rw [if_pos rfl, if_pos rfl, r.read_plain ls k v hls hready hk hv, List.lookup_cons]
      by_cases heq : key = k
      · rw [if_pos heq, heq, beq_self_eq_true, Option.or_assoc, Option.some_or]
      · rw [if_neg heq, beq_false_of_ne heq]

/-! ## Statements that may span lines -/

inductive ParseState
  | complete
  | escape
  | strongOpen
  | strongOpenEscape
  | weakOpen
  | weakOpenEscape
  | whiteSpace
deriving DecidableEq

section Parser

variable (blank : Char → Bool)

def afterPlain (c : Char) : ParseState :=
  if c = '\\' then .escape
  else if c = '"' then .weakOpen
  else if c = '\x27' then .strongOpen
  else .complete

/-- None where a comment begins. -/
def advance : ParseState → Char → Option ParseState
  | .whiteSpace, c => if c = '#' then none else some (afterPlain c)
  | .escape, _ => some .complete
  | .complete, c =>
    some (if blank c ∧ c ≠ '\n' ∧ c ≠ '\r' then .whiteSpace else afterPlain c)
  | .weakOpen, c =>
    some (if c = '\\' then .weakOpenEscape else if c = '"' then .complete else .weakOpen)
  | .weakOpenEscape, _ => some .weakOpen
  | .strongOpen, c =>
    some (if c = '\\' then .strongOpenEscape else if c = '\x27' then .complete else .strongOpen)
  | .strongOpenEscape, _ => some .strongOpen

/-- What precedes a comment, and the state at the end of the line, if it has none. -/
def evalEnd : ParseState → Text → Text × Option ParseState
  | state, [] => ([], some state)
  | state, c :: rest =>
    match advance blank state c with
    | none => ([], none)
    | some state =>
      let ended := evalEnd state rest
      (c :: ended.1, ended.2)

structure ValueState where
  output : Text := []
  strong : Bool := false
  weak : Bool := false
  escaped : Bool := false
  expectingEnd : Bool := false

/-- Variables are not substituted: a dollar outside single quotes is an error here. -/
def parseChars : ValueState → Text → Option ValueState
  | v, [] => some v
  | v, c :: rest =>
    if v.expectingEnd then
      if c = ' ' ∨ c = '\t' then parseChars v rest
      else if c = '#' then some v
      else none
    else if v.escaped then
      if c = '\\' ∨ c = '\x27' ∨ c = '"' ∨ c = '$' ∨ c = ' ' then
        parseChars { v with output := v.output ++ [c], escaped := false } rest
      else if c = 'n' then
        parseChars { v with output := v.output ++ ['\n'], escaped := false } rest
      else none
    else if v.strong then
      if c = '\x27' then parseChars { v with strong := false } rest
      else parseChars { v with output := v.output ++ [c] } rest
    else if c = '$' then none
    else if v.weak then
      if c = '"' then parseChars { v with weak := false } rest
      else if c = '\\' then parseChars { v with escaped := true } rest
      else parseChars { v with output := v.output ++ [c] } rest
    else if c = '\x27' then parseChars { v with strong := true } rest
    else if c = '"' then parseChars { v with weak := true } rest
    else if c = '\\' then parseChars { v with escaped := true } rest
    else if c = ' ' ∨ c = '\t' then parseChars { v with expectingEnd := true } rest
    else parseChars { v with output := v.output ++ [c] } rest

def parseValue (input : Text) : Option Text :=
  match parseChars {} input with
  | some v => if v.strong ∨ v.weak then none else some v.output
  | none => none

def parseKey (line : Text) : Option (Text × Text) :=
  if isKey (line.takeWhile isKeyChar) then
    some (line.takeWhile isKeyChar, line.dropWhile isKeyChar)
  else none

def expectEqual : Text → Option Text
  | '=' :: rest => some rest
  | _ => none

/-- The key of a statement, which may follow `export`, and what comes after `=`. -/
def parseHead (line : Text) : Option (Text × Text) := do
  let (key, rest) ← parseKey line
  let rest := rest.dropWhile blank
  match expectEqual rest with
  | some rest => return (key, rest)
  | none =>
    if key = "export".toList then
      let (key, rest) ← parseKey rest
      let rest ← expectEqual (rest.dropWhile blank)
      return (key, rest)
    else none

def startsComment (line : Text) : Bool := line.head? = some '#'

/-- None for an error, and no assignment for a blank line or a comment. -/
def parseLine (line : Text) : Option (Option (Text × Text)) :=
  let line := (line.rdropWhile blank).dropWhile blank
  if line = [] ∨ startsComment line then some none
  else
    match parseHead blank line with
    | none => none
    | some (key, rest) =>
      let rest := rest.dropWhile blank
      if rest = [] ∨ startsComment rest then some (some (key, []))
      else (parseValue rest).map fun value => some (key, value)

/-- How far a file has been read. -/
structure Progress where
  defs : List (Text × Text) := []
  /-- The text of a statement that is not over. -/
  pending : Option (Text × ParseState) := none
  failed : Bool := false

def statement (p : Progress) (line : Text) : Progress :=
  match parseLine blank line with
  | none => { p with pending := none, failed := true }
  | some none => { p with pending := none }
  | some (some u) => { p with pending := none, defs := p.defs ++ [u] }

def feed (p : Progress) (line : Text) : Progress :=
  if p.failed then p
  else
    let open' := p.pending.getD ([], .complete)
    let text := open'.1 ++ line
    if startsComment (text.dropWhile blank) then { p with pending := none }
    else
      match evalEnd blank open'.2 line with
      | (before, none) => statement blank p (open'.1 ++ before)
      | (_, some .complete) => statement blank p text
      | (_, some state) => { p with pending := some (text, state) }

def progress (ls : List Text) : Progress := ls.foldl (feed blank) {}

def readKey (ls : List Text) (line : Text) : Option Text :=
  let p := progress blank ls
  if p.failed then none
  else
    let text := (p.pending.getD ([], .complete)).1 ++ line
    (parseHead blank (text.dropWhile blank)).map Prod.fst

/-- The characters that are more than themselves in a value. -/
def isSpecial (c : Char) : Bool :=
  blank c || c == '\n' || c == '\r' || c == '"' || c == '\x27' || c == '\\' || c == '$' || c == '#'

variable {blank}

theorem ne_of_not_special {c d : Char} (h : isSpecial blank c = false)
    (hd : isSpecial blank d = true) : c ≠ d := by
  rintro rfl
  rw [h] at hd
  cases hd

theorem blank_of_not_special {c : Char} (h : isSpecial blank c = false) : blank c = false := by
  cases hblank : blank c with
  | false => rfl
  | true =>
    rw [isSpecial, hblank] at h
    cases h

/-- The characters of a line that do not change the state it is read in. -/
def Calm (c : Char) : Prop := c ≠ '\\' ∧ c ≠ '"' ∧ c ≠ '\x27' ∧ (blank c = true → c = '\n')

theorem calm_of_not_special {c : Char} (h : isSpecial blank c = false) : @Calm blank c :=
  ⟨ne_of_not_special h (by simp [isSpecial]), ne_of_not_special h (by simp [isSpecial]),
    ne_of_not_special h (by simp [isSpecial]), fun hblank => by
      rw [blank_of_not_special h] at hblank
      cases hblank⟩

theorem evalEnd_calm {state : ParseState} {line : Text}
    (hstate : state = .complete ∨ state = .weakOpen ∨ state = .strongOpen)
    (hline : ∀ c ∈ line, @Calm blank c) : evalEnd blank state line = (line, some state) := by
  induction line with
  | nil => rfl
  | cons c line ih =>
    obtain ⟨⟨hback, hdouble, hsingle, hblank⟩, hrest⟩ := List.forall_mem_cons.mp hline
    have hadvance : advance blank state c = some state := by
      rcases hstate with rfl | rfl | rfl
      · have hspace : ¬ (blank c ∧ c ≠ '\n' ∧ c ≠ '\r') := fun h => h.2.1 (hblank h.1)
        rw [advance, if_neg hspace, afterPlain, if_neg hback, if_neg hdouble, if_neg hsingle]
      · rw [advance, if_neg hback, if_neg hdouble]
      · rw [advance, if_neg hback, if_neg hsingle]
    rw [evalEnd, hadvance]
    dsimp only
    rw [ih hrest]

/-- At the end of a line only quotes are open. -/
theorem evalEnd_newline (line : Text) (state : ParseState) {state' : ParseState}
    (h : (evalEnd blank state (line ++ ['\n'])).2 = some state') :
    state' = .complete ∨ state' = .weakOpen ∨ state' = .strongOpen := by
  induction line generalizing state with
  | nil =>
    have hadvance : advance blank state '\n' ∈
        [some .complete, some .weakOpen, some .strongOpen] := by
      cases state <;> simp [advance, afterPlain]
    rw [List.nil_append, evalEnd] at h
    split at h
    · cases h
    · rename_i next hnext
      obtain rfl : next = state' := Option.some.inj h
      rw [hnext] at hadvance
      simpa using hadvance
  | cons c line ih =>
    rw [List.cons_append, evalEnd] at h
    split at h
    · cases h
    · exact ih _ h

theorem parseChars_plain {value : Text} (h : ∀ c ∈ value, isSpecial blank c = false)
    (hspace : blank ' ' = true) (htab : blank '\t' = true) (output : Text) :
    parseChars { output } value = some { output := output ++ value } := by
  induction value generalizing output with
  | nil => rw [parseChars, List.append_nil]
  | cons c value ih =>
    obtain ⟨hc, hrest⟩ := List.forall_mem_cons.mp h
    have hne {d : Char} (hd : isSpecial blank d = true) : c ≠ d := ne_of_not_special hc hd
    have hspaces : ¬ (c = ' ' ∨ c = '\t') :=
      not_or.mpr ⟨hne (by simp [isSpecial, hspace]), hne (by simp [isSpecial, htab])⟩
    have hdollar : c ≠ '$' := hne (by simp [isSpecial])
    have hsingle : c ≠ '\x27' := hne (by simp [isSpecial])
    have hdouble : c ≠ '"' := hne (by simp [isSpecial])
    have hback : c ≠ '\\' := hne (by simp [isSpecial])
    rw [parseChars]
    simp only [Bool.false_eq_true, if_false, if_neg hspaces, if_neg hdollar, if_neg hsingle,
      if_neg hdouble, if_neg hback]
    rw [ih hrest, List.append_assoc, List.singleton_append]

/-- Blanks are no characters of assignments, but the newline. -/
structure Blanks (blank : Char → Bool) : Prop where
  newline : blank '\n' = true
  space : blank ' ' = true
  tab : blank '\t' = true
  plain : ∀ c, blank c = true →
    isKeyChar c = false ∧ c ≠ '=' ∧ c ≠ '"' ∧ c ≠ '\x27' ∧ c ≠ '\\'

theorem isKeyChar_of_isKey {key : Text} (h : isKey key = true) :
    ∀ c ∈ key, isKeyChar c = true := by
  cases key with
  | nil => cases h
  | cons c rest =>
    rw [isKey, Bool.and_eq_true, List.all_eq_true] at h
    refine List.forall_mem_cons.mpr ⟨?_, h.2⟩
    have hstart := h.1
    rw [isKeyStart, Bool.or_eq_true] at hstart
    rw [isKeyChar, Char.isAlphanum]
    rcases hstart with halpha | hunderscore
    · rw [halpha]
      rfl
    · rw [hunderscore, Bool.or_true, Bool.true_or]

theorem dropWhile_blank {text : Text} (h : ∀ c ∈ text, blank c = false) :
    text.dropWhile blank = text := by
  cases text with
  | nil => rfl
  | cons c rest => rw [List.dropWhile_cons_of_neg (ne_true_of_eq_false (h c List.mem_cons_self))]

theorem rdropWhile_blank {text : Text} (h : ∀ c ∈ text, blank c = false) :
    text.rdropWhile blank = text := by
  rw [List.rdropWhile, dropWhile_blank fun c hc => h c (List.mem_reverse.mp hc),
    List.reverse_reverse]

section Assignment

variable (hblank : Blanks blank) {k v : Text} (hk : isKey k = true)
  (hv : ∀ c ∈ v, isSpecial blank c = false)

include hblank hk hv

/-- An assignment without its newline. -/
theorem blank_assignment : ∀ c ∈ k ++ '=' :: v, blank c = false := by
  intro c hc
  by_contra hblanks
  have hplain := hblank.plain c (eq_true_of_ne_false hblanks)
  rcases List.mem_append.mp hc with hkey | hrest
  · rw [isKeyChar_of_isKey hk c hkey] at hplain
    cases hplain.1
  · rcases List.mem_cons.mp hrest with rfl | hvalue
    · exact hplain.2.1 rfl
    · exact hblanks (blank_of_not_special (hv c hvalue))

theorem parseHead_assignment : parseHead blank (k ++ '=' :: v) = some (k, v) := by
  have htake : (k ++ '=' :: v).takeWhile isKeyChar = k := by
    rw [List.takeWhile_append_of_pos (isKeyChar_of_isKey hk),
      List.takeWhile_cons_of_neg (by decide), List.append_nil]
  have hdrop : (k ++ '=' :: v).dropWhile isKeyChar = '=' :: v := by
    rw [List.dropWhile_append_of_pos (isKeyChar_of_isKey hk),
      List.dropWhile_cons_of_neg (by decide)]
  have hequal : ('=' :: v).dropWhile blank = '=' :: v :=
    dropWhile_blank fun c hc => blank_assignment hblank hk hv c (List.mem_append_right _ hc)
  rw [parseHead, parseKey, htake, hdrop, if_pos hk, Option.bind_eq_bind, Option.bind_some]
  dsimp only
  rw [hequal]
  rfl

theorem startsComment_assignment (rest : Text) :
    startsComment ((k ++ '=' :: v ++ rest).dropWhile blank) = false := by
  cases k with
  | nil => cases hk
  | cons c key =>
    have hstart := isKeyChar_of_isKey hk c List.mem_cons_self
    have hc := blank_assignment hblank hk hv c List.mem_cons_self
    rw [List.cons_append, List.cons_append, List.dropWhile_cons_of_neg (ne_true_of_eq_false hc)]
    apply decide_eq_false
    intro heq
    rw [Option.some.inj heq] at hstart
    revert hstart
    decide

theorem parseLine_assignment : parseLine blank (assignment k v) = some (some (k, v)) := by
  have hplain := blank_assignment hblank hk hv
  have hcomment := startsComment_assignment hblank hk hv []
  rw [List.append_nil, dropWhile_blank hplain] at hcomment
  have hvalue : v.dropWhile blank = v := dropWhile_blank fun c hc => blank_of_not_special (hv c hc)
  rw [parseLine, assignment, List.rdropWhile_concat_pos _ _ _ hblank.newline,
    rdropWhile_blank hplain, dropWhile_blank hplain]
  dsimp only
  rw [if_neg (by simp [hcomment]), parseHead_assignment hblank hk hv]
  dsimp only
  rw [hvalue]
  by_cases hnil : v = []
  · rw [if_pos (.inl hnil), hnil]
  · have hnone : ¬ (v = [] ∨ startsComment v = true) := by
      rintro (hempty | hsharp)
      · exact hnil hempty
      · have hmem := List.mem_of_head? (of_decide_eq_true hsharp)
        exact ne_of_not_special (hv _ hmem) (d := '#') (by simp [isSpecial]) rfl
    rw [if_neg hnone, parseValue, parseChars_plain hv hblank.space hblank.tab]
    rfl

theorem calm_assignment : ∀ c ∈ assignment k v, @Calm blank c := by
  intro c hc
  rcases List.mem_append.mp hc with hmem | hnewline
  · have hc := blank_assignment hblank hk hv c hmem
    have hnoblank : blank c = true → c = '\n' := by
      rw [hc]
      rintro ⟨⟩
    rcases List.mem_append.mp hmem with hkey | hrest
    · have hchar := isKeyChar_of_isKey hk c hkey
      refine ⟨?_, ?_, ?_, hnoblank⟩ <;>
      · rintro rfl
        revert hchar
        decide
    · rcases List.mem_cons.mp hrest with rfl | hvalue
      · exact ⟨by decide, by decide, by decide, hnoblank⟩
      · exact calm_of_not_special (hv c hvalue)
  · rw [List.mem_singleton.mp hnewline]
    exact ⟨by decide, by decide, by decide, fun _ => rfl⟩

end Assignment

/-! ### How far a reader gets -/

theorem progress_concat (ls : List Text) (line : Text) :
    progress blank (ls ++ [line]) = feed blank (progress blank ls) line := by
  rw [progress, List.foldl_append]
  rfl

theorem evalEnd_blank {line : Text} {state : ParseState} (hblank : Blanks blank)
    (hstate : state = .complete ∨ state = .whiteSpace) (hline : ∀ c ∈ line, blank c = true) :
    (evalEnd blank state line).2 = some .complete ∨
      (evalEnd blank state line).2 = some .whiteSpace ∨ (evalEnd blank state line).2 = none := by
  induction line generalizing state with
  | nil => rcases hstate with rfl | rfl <;> simp [evalEnd]
  | cons c line ih =>
    obtain ⟨hc, hrest⟩ := List.forall_mem_cons.mp hline
    obtain ⟨-, -, hdouble, hsingle, hback⟩ := hblank.plain c hc
    have hplain : afterPlain c = .complete := by
      rw [afterPlain, if_neg hback, if_neg hdouble, if_neg hsingle]
    have hadvance : advance blank state c ∈ [none, some .complete, some .whiteSpace] := by
      rcases hstate with rfl | rfl
      · rw [advance, hplain]
        split <;> simp
      · rw [advance, hplain]
        split <;> simp
    rw [evalEnd]
    split
    · exact .inr (.inr rfl)
    · rename_i next hnext
      rw [hnext] at hadvance
      exact ih (by simpa using hadvance) hrest

/-- An open statement is inside quotes, and no comment. -/
structure Open (text : Text) (state : ParseState) : Prop where
  quoted : state = .weakOpen ∨ state = .strongOpen
  started : text.dropWhile blank ≠ []
  noComment : startsComment (text.dropWhile blank) = false

theorem Open.append {text : Text} {state state' : ParseState} (h : @Open blank text state)
    (line : Text) (hstate' : state' = .weakOpen ∨ state' = .strongOpen) :
    @Open blank (text ++ line) state' := by
  obtain ⟨c, rest, hrest⟩ := List.exists_cons_of_ne_nil h.started
  have hdrop : (text ++ line).dropWhile blank = c :: (rest ++ line) := by
    rw [List.dropWhile_append, hrest]
    rfl
  refine ⟨hstate', ?_, ?_⟩
  · rw [hdrop]
    exact List.cons_ne_nil _ _
  · rw [hdrop, startsComment, List.head?_cons, ← List.head?_cons (l := rest), ← hrest]
    exact h.noComment

def Settled (p : Progress) : Prop :=
  ∀ text state, p.pending = some (text, state) → @Open blank text state

theorem settled_statement (p : Progress) (line : Text) :
    @Settled blank (statement blank p line) := by
  intro text state h
  unfold statement at h
  split at h <;> cases h

theorem settled_feed (hblank : Blanks blank) {p : Progress} (hp : @Settled blank p) {line : Text}
    (hline : line.getLast? = some '\n') : @Settled blank (feed blank p line) := by
  unfold feed
  split
  · exact hp
  · dsimp only
    split
    · intro text state h
      cases h
    · rename_i hcomment
      split
      · exact settled_statement p _
      · exact settled_statement p _
      · rename_i state hcomplete heval
        intro text state' h
        obtain ⟨rfl, rfl⟩ := Prod.mk.inj (Option.some.inj h)
        obtain ⟨front, rfl⟩ := List.getLast?_eq_some_iff.mp hline
        have hquoted : state = .weakOpen ∨ state = .strongOpen := by
          rcases evalEnd_newline front _ (congrArg Prod.snd heval) with rfl | hquoted
          · exact (hcomplete rfl).elim
          · exact hquoted
        cases hpending : p.pending with
        | some pending => exact (hp _ _ hpending).append _ hquoted
        | none =>
          rw [hpending] at hcomment heval
          refine ⟨hquoted, fun hnil => ?_, Bool.eq_false_iff.mpr hcomment⟩
          have hend := evalEnd_blank hblank (.inl rfl) (List.dropWhile_eq_nil_iff.mp hnil)
          rw [Option.getD_none, List.nil_append] at hend
          rw [Option.getD_none] at heval
          rw [heval] at hend
          rcases hquoted with rfl | rfl <;> simp at hend

theorem settled_progress (hblank : Blanks blank) {ls : List Text} (hls : Terminated ls) :
    @Settled blank (progress blank ls) := by
  induction ls using List.reverseRecOn with
  | nil =>
    intro text state h
    cases h
  | append_singleton ls line ih =>
    rw [progress_concat]
    obtain ⟨hrest, hline⟩ := List.forall_mem_append.mp hls
    exact settled_feed hblank (ih hrest) (hline line (List.mem_singleton.mpr rfl))

theorem isKey_of_parseKey {line key rest : Text} (h : parseKey line = some (key, rest)) :
    isKey key = true := by
  unfold parseKey at h
  split at h
  · rename_i hkey
    rw [← (Prod.mk.inj (Option.some.inj h)).1]
    exact hkey
  · cases h

theorem isKey_of_parseHead {line key rest : Text} (h : parseHead blank line = some (key, rest)) :
    isKey key = true := by
  rw [parseHead, Option.bind_eq_bind, Option.bind_eq_some_iff] at h
  obtain ⟨⟨first, after⟩, hfirst, h⟩ := h
  dsimp only at h
  split at h
  · rw [← (Prod.mk.inj (Option.some.inj h)).1]
    exact isKey_of_parseKey hfirst
  · split at h
    · rw [Option.bind_eq_bind, Option.bind_eq_some_iff] at h
      obtain ⟨⟨second, after⟩, hsecond, h⟩ := h
      dsimp only at h
      rw [Option.bind_eq_some_iff] at h
      obtain ⟨after, -, h⟩ := h
      rw [← (Prod.mk.inj (Option.some.inj h)).1]
      exact isKey_of_parseKey hsecond
    · cases h

theorem isKey_of_parseLine {line : Text} {u : Text × Text}
    (h : parseLine blank line = some (some u)) : isKey u.1 = true := by
  unfold parseLine at h
  dsimp only at h
  split at h
  · cases h
  · split at h
    · cases h
    · rename_i hhead
      have hkey := isKey_of_parseHead hhead
      split at h
      · rw [← Option.some.inj (Option.some.inj h)]
        exact hkey
      · obtain ⟨value, -, hvalue⟩ := Option.map_eq_some_iff.mp h
        rw [← Option.some.inj hvalue]
        exact hkey

theorem isKey_statement {p : Progress} (hp : ∀ u ∈ p.defs, isKey u.1 = true) (line : Text) :
    ∀ u ∈ (statement blank p line).defs, isKey u.1 = true := by
  unfold statement
  split
  · exact hp
  · exact hp
  · rename_i hline
    refine List.forall_mem_append.mpr ⟨hp, fun u hu => ?_⟩
    rw [List.mem_singleton.mp hu]
    exact isKey_of_parseLine hline

theorem isKey_progress (ls : List Text) :
    ∀ u ∈ (progress blank ls).defs, isKey u.1 = true := by
  induction ls using List.reverseRecOn with
  | nil =>
    intro u hu
    cases hu
  | append_singleton ls line ih =>
    rw [progress_concat, feed]
    split
    · exact ih
    · dsimp only
      split
      · exact ih
      · split
        · exact isKey_statement ih _
        · exact isKey_statement ih _
        · exact ih

section Assignment

variable (hblank : Blanks blank) {p : Progress} {k v : Text} (hk : isKey k = true)
  (hv : ∀ c ∈ v, isSpecial blank c = false)

include hblank hk hv

theorem feed_ready (hfailed : p.failed = false) (hpending : p.pending = none) :
    feed blank p (assignment k v) = { p with defs := p.defs ++ [(k, v)] } := by
  have hcomment : startsComment ((assignment k v).dropWhile blank) = false :=
    startsComment_assignment hblank hk hv ['\n']
  rw [feed, hfailed, if_neg Bool.false_ne_true, hpending, Option.getD_none]
  dsimp only
  rw [List.nil_append, if_neg (ne_true_of_eq_false hcomment),
    evalEnd_calm (.inl rfl) (calm_assignment hblank hk hv)]
  dsimp only
  rw [statement, parseLine_assignment hblank hk hv]
  dsimp only
  rw [hfailed]

theorem feed_open (hp : @Settled blank p) {text : Text} {state : ParseState}
    (hfailed : p.failed = false) (hpending : p.pending = some (text, state)) :
    feed blank p (assignment k v) =
      { p with pending := some (text ++ assignment k v, state) } := by
  have hopen := hp text state hpending
  have hcomment := (hopen.append (assignment k v) hopen.quoted).noComment
  rw [feed, hfailed, if_neg Bool.false_ne_true, hpending, Option.getD_some]
  dsimp only
  rw [if_neg (ne_true_of_eq_false hcomment),
    evalEnd_calm (.inr hopen.quoted) (calm_assignment hblank hk hv)]
  rcases hopen.quoted with rfl | rfl <;> rfl

end Assignment

def Progress.ready (p : Progress) : Bool := !p.failed && p.pending.isNone

theorem feed_unready (hblank : Blanks blank) {p : Progress} (hp : @Settled blank p) {k v : Text}
    (hk : isKey k = true) (hv : ∀ c ∈ v, isSpecial blank c = false) (hready : p.ready = false) :
    (feed blank p (assignment k v)).ready = false ∧
      (feed blank p (assignment k v)).defs = p.defs := by
  cases hfailed : p.failed with
  | true =>
    rw [feed, hfailed, if_pos rfl]
    exact ⟨hready, rfl⟩
  | false =>
    cases hpending : p.pending with
    | none =>
      rw [Progress.ready, hfailed, hpending] at hready
      cases hready
    | some pending =>
      rw [feed_open hblank hk hv hp hfailed hpending]
      exact ⟨Bool.and_false _, rfl⟩

theorem feed_of_ready (hblank : Blanks blank) {p : Progress} {k v : Text} (hk : isKey k = true)
    (hv : ∀ c ∈ v, isSpecial blank c = false) (hready : p.ready = true) :
    feed blank p (assignment k v) = { p with defs := p.defs ++ [(k, v)] } := by
  rw [Progress.ready, Bool.and_eq_true, Bool.not_eq_true', Option.isNone_iff_eq_none] at hready
  exact feed_ready hblank hk hv hready.1 hready.2

variable (blank) in
/-- A reader for files without variables: a `$` outside single quotes is an error to it, where
dotenvy substitutes the variable and reads on. -/
def reader (hblank : Blanks blank) : Reader where
  special := isSpecial blank
  read ls key := (progress blank ls).defs.lookup key
  ready ls := (progress blank ls).ready
  key := readKey blank
  special_newline := by simp [isSpecial]
  special_return := by simp [isSpecial]
  isKey_of_read ls k v h := by
    obtain ⟨before, after, hdefs, -⟩ := List.lookup_eq_some_iff.mp h
    exact isKey_progress ls (k, v) (hdefs ▸ List.mem_append_right _ List.mem_cons_self)
  read_plain ls k v _ hready hk hv key := by
    rw [progress_concat, feed_of_ready hblank hk hv hready, List.lookup_append]
    by_cases heq : key = k
    · rw [if_pos heq, heq, List.lookup_cons_self]
    · rw [if_neg heq, List.lookup_cons, beq_false_of_ne heq]
      exact Option.or_none
  ready_plain ls k v hls hk hv := by
    rw [progress_concat]
    cases hready : (progress blank ls).ready with
    | false => exact (feed_unready hblank (settled_progress hblank hls) hk hv hready).1
    | true =>
      rw [feed_of_ready hblank hk hv hready]
      exact hready
  read_closed ls k v hls hready hk hv key := by
    rw [progress_concat,
      (feed_unready hblank (settled_progress hblank hls) hk hv hready).2]

end Parser

end Dotenv
