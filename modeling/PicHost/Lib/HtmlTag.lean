import Mathlib.Data.List.Basic
import Mathlib.Data.List.TakeWhile
import Mathlib.Data.List.Forall2

/-!
# Reading a start tag of HTML

The tokenizer on one start tag: newlines are normalized first, attribute values are quoted or bare,
and character references in them are decoded. A text escaped into a double-quoted value is read
back as it is, but for the characters the tokenizer replaces.
-/

namespace HtmlTag

/-- The newlines of an input stream; `afterReturn` says that a carriage return came before. -/
def normalizeFrom (afterReturn : Bool) : List Char → List Char
  | [] => []
  | c :: cs =>
    if c = '\r' then '\n' :: normalizeFrom true cs
    else if c = '\n' ∧ afterReturn = true then normalizeFrom false cs
    else c :: normalizeFrom false cs

def normalizeNewlines (s : List Char) : List Char := normalizeFrom false s

/-- The character references: what one reads as after its `&`, and how many characters it has. -/
structure References where
  read : List Char → Option (List Char × ℕ)
  amp : ∀ cs, read ('a' :: 'm' :: 'p' :: ';' :: cs) = some (['&'], 4)
  lt : ∀ cs, read ('l' :: 't' :: ';' :: cs) = some (['<'], 3)
  gt : ∀ cs, read ('g' :: 't' :: ';' :: cs) = some (['>'], 3)
  quot : ∀ cs, read ('q' :: 'u' :: 'o' :: 't' :: ';' :: cs) = some (['"'], 5)

/-- A null character is replaced. -/
def replaceNull (c : Char) : Char := if c = '\x00' then '\uFFFD' else c

variable (refs : References)

/-- The value of an attribute; the first characters are skipped. -/
def decode : ℕ → List Char → List Char
  | _, [] => []
  | k + 1, _ :: cs => decode k cs
  | 0, c :: cs =>
    if c = '&' then
      match refs.read cs with
      | some (t, k) => t ++ decode k cs
      | none => '&' :: decode 0 cs
    else replaceNull c :: decode 0 cs

def isSpace (c : Char) : Bool := c = '\t' || c = '\n' || c = '\x0c' || c = ' '

structure Tag where
  name : List Char
  attributes : List (List Char × List Char)
  selfClosing : Bool
deriving DecidableEq

def quotedValue (quote : Char) (s : List Char) : Option (List Char × List Char) :=
  if quote ∈ s then
    some (decode refs 0 (s.takeWhile (· ≠ quote)), (s.dropWhile (· ≠ quote)).tail)
  else none

def attributeValue (s : List Char) : Option (List Char × List Char) :=
  match s.dropWhile isSpace with
  | [] => none
  | c :: cs =>
    if c = '"' ∨ c = '\x27' then quotedValue refs c cs
    else
      let bare := fun c => !isSpace c && c ≠ '>'
      some (decode refs 0 ((c :: cs).takeWhile bare), (c :: cs).dropWhile bare)

def isNameChar (c : Char) : Bool := !isSpace c && c ≠ '/' && c ≠ '>' && c ≠ '='

/-- The attributes up to the end of the tag, whether it closes itself, and what follows. -/
def attributes : ℕ → List Char → Option (List (List Char × List Char) × Bool × List Char)
  | 0, _ => none
  | n + 1, s =>
    match s.dropWhile isSpace with
    | [] => none
    | c :: cs =>
      if c = '>' then some ([], false, cs)
      else if c = '/' then
        if cs.head? = some '>' then some ([], true, cs.tail) else attributes n cs
      else
        let name := (c :: cs.takeWhile isNameChar).map Char.toLower
        let rest := (cs.dropWhile isNameChar).dropWhile isSpace
        if rest.head? = some '=' then
          (attributeValue refs rest.tail).bind fun value =>
            (attributes n value.2).map fun found => ((name, value.1) :: found.1, found.2)
        else (attributes n rest).map fun found => ((name, []) :: found.1, found.2)

def startTag (s : List Char) : Option (Tag × List Char) :=
  match s with
  | '<' :: c :: cs =>
    if c.isAlpha then
      let inName := fun c => !isSpace c && c ≠ '/' && c ≠ '>'
      let name := ((c :: cs).takeWhile inName).map Char.toLower
      (attributes refs s.length ((c :: cs).dropWhile inName)).map fun found =>
        (⟨name, found.1, found.2.1⟩, found.2.2)
    else none
  | _ => none

/-- The one tag a text is. -/
def single (s : List Char) : Option Tag :=
  match startTag refs (normalizeNewlines s) with
  | some (tag, []) => some tag
  | _ => none

/-! ## Escaped text -/

def escapeChar (c : Char) : List Char :=
  if c = '&' then ['&', 'a', 'm', 'p', ';']
  else if c = '<' then ['&', 'l', 't', ';']
  else if c = '>' then ['&', 'g', 't', ';']
  else if c = '"' then ['&', 'q', 'u', 'o', 't', ';']
  else [c]

def escape (s : List Char) : List Char := s.flatMap escapeChar

variable {refs}

/-- Decoding undoes escaping, but for null characters. -/
theorem decode_escape (s : List Char) : decode refs 0 (escape s) = s.map replaceNull := by
  induction s with
  | nil => rfl
  | cons c s ih =>
    rw [escape, List.flatMap_cons, List.map_cons, ← escape]
    by_cases hamp : c = '&'
    · subst hamp
      simp [escapeChar, decode, refs.amp, ih, replaceNull]
    by_cases hlt : c = '<'
    · subst hlt
      simp [escapeChar, decode, refs.lt, ih, replaceNull]
    by_cases hgt : c = '>'
    · subst hgt
      simp [escapeChar, decode, refs.gt, ih, replaceNull]
    by_cases hquot : c = '"'
    · subst hquot
      simp [escapeChar, decode, refs.quot, ih, replaceNull]
    · simp [escapeChar, decode, hamp, hlt, hgt, hquot, ih]

theorem quote_not_mem_escape (s : List Char) : '"' ∉ escape s := by
  intro h
  obtain ⟨c, -, hc⟩ := List.mem_flatMap.mp h
  unfold escapeChar at hc
  split_ifs at hc with _ _ _ hquot
  · simp at hc
  · simp at hc
  · simp at hc
  · simp at hc
  · exact hquot (List.mem_singleton.mp hc).symm

theorem normalizeFrom_append {s : List Char} (h : '\r' ∉ s) (t : List Char) :
    normalizeFrom false (s ++ t) = s ++ normalizeFrom false t := by
  induction s with
  | nil => rfl
  | cons c s ih =>
    rw [List.mem_cons, not_or] at h
    rw [List.cons_append, normalizeFrom, if_neg (Ne.symm h.1), if_neg (by simp), ih h.2]
    rfl

/-- Newlines are normalized in escaped text as in the text itself. -/
theorem normalizeFrom_escape (s t : List Char) (afterReturn : Bool) :
    normalizeFrom afterReturn (escape s ++ '"' :: t) =
      escape (normalizeFrom afterReturn s) ++ '"' :: normalizeFrom false t := by
  induction s generalizing afterReturn with
  | nil => simp [escape, normalizeFrom]
  | cons c s ih =>
    rw [escape, List.flatMap_cons, ← escape, List.append_assoc]
    by_cases hcr : c = '\r'
    · subst hcr
      simpa [escapeChar, normalizeFrom, escape] using ih true
    by_cases hskip : c = '\n' ∧ afterReturn = true
    · obtain ⟨rfl, rfl⟩ := hskip
      simp [escapeChar, normalizeFrom, ih]
    · have hplain : normalizeFrom afterReturn (c :: s) = c :: normalizeFrom false s := by
        rw [normalizeFrom, if_neg hcr, if_neg hskip]
      rw [hplain]
      have hchar : ∀ u, normalizeFrom afterReturn (escapeChar c ++ u) =
          escapeChar c ++ normalizeFrom false u := by
        intro u
        unfold escapeChar
        split_ifs <;> simp [normalizeFrom, hcr, hskip]
      rw [hchar, ih, escape, escape, List.flatMap_cons, List.append_assoc]

theorem return_not_mem_normalizeFrom (s : List Char) (afterReturn : Bool) :
    '\r' ∉ normalizeFrom afterReturn s := by
  induction s generalizing afterReturn with
  | nil => exact List.not_mem_nil
  | cons c s ih =>
    rw [normalizeFrom]
    split_ifs with hcr
    · exact List.not_mem_cons_of_ne_of_not_mem (by decide) (ih true)
    · exact ih false
    · exact List.not_mem_cons_of_ne_of_not_mem (Ne.symm hcr) (ih false)

/-- A text normalizes to itself, null characters replaced, exactly when it has neither carriage
returns nor null characters. -/
theorem map_normalizeFrom_eq_self {s : List Char} :
    (normalizeFrom false s).map replaceNull = s ↔ '\r' ∉ s ∧ '\x00' ∉ s := by
  constructor
  · intro h
    rw [← h]
    refine ⟨fun hcr => ?_, fun hnull => ?_⟩
    · obtain ⟨c, hc, heq⟩ := List.mem_map.mp hcr
      unfold replaceNull at heq
      split_ifs at heq
      · exact absurd heq (by decide)
      · exact return_not_mem_normalizeFrom s false (heq ▸ hc)
    · obtain ⟨c, -, heq⟩ := List.mem_map.mp hnull
      unfold replaceNull at heq
      split_ifs at heq with hc
      · exact absurd heq (by decide)
      · exact hc heq
  · rintro ⟨hcr, hnull⟩
    have hself : normalizeFrom false s = s := by
      have h := normalizeFrom_append hcr []
      rwa [List.append_nil, normalizeFrom, List.append_nil] at h
    rw [hself]
    refine (List.map_congr_left fun c hc => ?_).trans (List.map_id s)
    have hne : c ≠ '\x00' := by
      rintro rfl
      exact hnull hc
    exact if_neg hne

/-! ## Attributes -/

theorem span_append {p : Char → Bool} {v : List Char} {q : Char} (hv : ∀ c ∈ v, p c = true)
    (hq : p q = false) (t : List Char) :
    (v ++ q :: t).takeWhile p = v ∧ (v ++ q :: t).dropWhile p = q :: t := by
  constructor
  · rw [List.takeWhile_append_of_pos hv, List.takeWhile_cons_of_neg (by simp [hq]),
      List.append_nil]
  · rw [List.dropWhile_append_of_pos hv, List.dropWhile_cons_of_neg (by simp [hq])]

theorem quotedValue_append {v : List Char} {q : Char} (h : q ∉ v) (t : List Char) :
    quotedValue refs q (v ++ q :: t) = some (decode refs 0 v, t) := by
  have hne : ∀ c ∈ v, (decide (c ≠ q)) = true := by
    intro c hc
    rw [decide_eq_true_eq]
    rintro rfl
    exact h hc
  obtain ⟨htake, hdrop⟩ := @span_append (fun c => decide (c ≠ q)) v q hne (by simp) t
  rw [quotedValue, if_pos (by simp), htake, hdrop, List.tail_cons]

/-- One attribute with a double-quoted value. -/
theorem attributes_quoted {name v : List Char} {c : Char} (n : ℕ) (t : List Char)
    (hname : ∀ c' ∈ c :: name, isNameChar c' = true) (hv : '"' ∉ v) :
    attributes refs (n + 1) (' ' :: c :: name ++ '=' :: '"' :: v ++ '"' :: t) =
      (attributes refs n t).map fun found =>
        (((c :: name).map Char.toLower, decode refs 0 v) :: found.1, found.2) := by
  obtain ⟨hc, hrest⟩ := List.forall_mem_cons.mp hname
  have hchar := hc
  simp only [isNameChar, Bool.and_eq_true, Bool.not_eq_true', decide_eq_true_eq] at hchar
  obtain ⟨⟨⟨hspace, hslash⟩, hgt⟩, -⟩ := hchar
  obtain ⟨htake, hdrop⟩ := @span_append isNameChar name '=' hrest rfl ('"' :: (v ++ '"' :: t))
  have hfirst : (' ' :: (c :: (name ++ '=' :: '"' :: (v ++ '"' :: t)))).dropWhile isSpace =
      c :: (name ++ '=' :: '"' :: (v ++ '"' :: t)) := by
    rw [List.dropWhile_cons_of_pos rfl, List.dropWhile_cons_of_neg (by simp [hspace])]
  have hvalue : attributeValue refs ('"' :: (v ++ '"' :: t)) = some (decode refs 0 v, t) := by
    rw [attributeValue, List.dropWhile_cons_of_neg (by decide)]
    simp only [true_or, if_true]
    exact quotedValue_append hv t
  simp only [List.cons_append, List.append_assoc, attributes, hfirst, if_neg hgt, if_neg hslash,
    htake, hdrop]
  rw [List.dropWhile_cons_of_neg (by decide)]
  simp only [List.head?_cons, if_true, List.tail_cons, hvalue, Option.bind_some, List.map_cons]

theorem attributes_end (n : ℕ) (t : List Char) :
    attributes refs (n + 1) (' ' :: '/' :: '>' :: t) = some ([], true, t) := rfl

/-- Text without references or null characters is its own value. -/
theorem decode_plain {s : List Char} (h : ∀ c ∈ s, c ≠ '&' ∧ c ≠ '\x00') :
    decode refs 0 s = s := by
  induction s with
  | nil => rfl
  | cons c s ih =>
    obtain ⟨⟨hamp, hnull⟩, hs⟩ := List.forall_mem_cons.mp h
    rw [decode, if_neg hamp, replaceNull, if_neg hnull, ih hs]

/-- An image element with a plain source and an escaped description is one tag; the description
loses its carriage returns and null characters. -/
theorem single_img {url : List Char} (hurl : ∀ c ∈ url, c ≠ '"' ∧ c ≠ '&' ∧ c ≠ '\r' ∧ c ≠ '\x00')
    (alt : List Char) :
    single refs ("<img src=\"".toList ++ (url ++ ("\" alt=\"".toList ++
      (escape alt ++ "\" />".toList)))) =
      some ⟨"img".toList, [("src".toList, url),
        ("alt".toList, (normalizeFrom false alt).map replaceNull)], true⟩ := by
  have hreturn : '\r' ∉ url := fun h => (hurl _ h).2.2.1 rfl
  have hquote : '"' ∉ url := fun h => (hurl _ h).1 rfl
  have hnormal : normalizeNewlines ("<img src=\"".toList ++ (url ++ ("\" alt=\"".toList ++
      (escape alt ++ "\" />".toList)))) = "<img src=\"".toList ++ (url ++ ("\" alt=\"".toList ++
        (escape (normalizeFrom false alt) ++ "\" />".toList))) := by
    rw [normalizeNewlines, normalizeFrom_append (by decide), normalizeFrom_append hreturn,
      normalizeFrom_append (by decide)]
    congr 3
    exact normalizeFrom_escape alt [' ', '/', '>'] false
  have hsrc : ∀ n t, attributes refs (n + 1) (" src=\"".toList ++ (url ++ '"' :: t)) =
      (attributes refs n t).map fun found => (("src".toList, decode refs 0 url) :: found.1,
        found.2) := fun n t =>
    @attributes_quoted refs ['r', 'c'] url 's' n t (List.all_eq_true.mp rfl) hquote
  have halt : ∀ n t, attributes refs (n + 1) (" alt=\"".toList ++
      (escape (normalizeFrom false alt) ++ '"' :: t)) =
      (attributes refs n t).map fun found => (("alt".toList,
        decode refs 0 (escape (normalizeFrom false alt))) :: found.1, found.2) := fun n t =>
    @attributes_quoted refs ['l', 't'] _ 'a' n t (List.all_eq_true.mp rfl) (quote_not_mem_escape _)
  let tail := " src=\"".toList ++ (url ++ '"' :: (" alt=\"".toList ++
    (escape (normalizeFrom false alt) ++ '"' :: [' ', '/', '>'])))
  have htag : startTag refs ('<' :: 'i' :: 'm' :: 'g' :: tail) =
      (attributes refs (tail.length + 4) tail).map fun found =>
        (⟨"img".toList, found.1, found.2.1⟩, found.2.2) := rfl
  have hattributes : attributes refs (tail.length + 4) tail =
      some ([("src".toList, url), ("alt".toList, (normalizeFrom false alt).map replaceNull)],
        true, []) := by
    rw [hsrc, halt, attributes_end, decode_escape,
      decode_plain fun c hc => ⟨(hurl c hc).2.1, (hurl c hc).2.2.2⟩]
    rfl
  have htext : "<img src=\"".toList ++ (url ++ ("\" alt=\"".toList ++
      (escape (normalizeFrom false alt) ++ "\" />".toList))) =
      '<' :: 'i' :: 'm' :: 'g' :: tail := rfl
  rw [single, hnormal, htext, htag, hattributes]
  rfl

end HtmlTag
