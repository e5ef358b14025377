import Mathlib.Data.List.Basic
import Mathlib.Data.List.Infix

/-!
# Links and images of Markdown

The inline pass over brackets: an opening bracket waits on a stack for the closing one, and the two
make a link or an image when a target follows directly. What else is markup in a line, and how a
target is read, are parameters. An image is read back from its parts exactly when nothing in its
description is markup.
-/

namespace MarkdownLink

/-- A character of a plain target. -/
def isUrlChar (c : Char) : Bool := c.isAlphanum || c ∈ ['-', '.', '_', '~', ':', '/']

/-- What else a renderer reads: whether a text is one paragraph, the construct other than a link
or an image that begins where a line is read (its plain content and what follows it), and the
target in parentheses (its destination and what follows it). No construct begins at a bracket, and
each is longer than its content. -/
structure Renderer where
  paragraph : List Char → Bool
  span : List Char → List Char → Option (List Char × List Char)
  target : List Char → Option (List Char × List Char)
  span_bracket : ∀ text c cs, c ∈ ['!', '[', ']'] → span text (c :: cs) = none
  span_shorter : ∀ {text s t rest}, span text s = some (t, rest) →
    t.length + rest.length < s.length
  target_shorter : ∀ {s dest rest}, target s = some (dest, rest) →
    dest.length + rest.length + 2 ≤ s.length
  target_plain : ∀ url, (∀ c ∈ url, isUrlChar c = true) → ∀ rest,
    target ('(' :: (url ++ ')' :: rest)) = some (url, rest)

/-- A construct with its plain content. -/
inductive Inline
  | text (c : Char)
  | span (content : List Char)
  | link (content dest : List Char)
  | image (alt dest : List Char)
deriving DecidableEq

def Inline.plain : Inline → List Char
  | .text c => [c]
  | .span content => content
  | .link content _ => content
  | .image alt _ => alt

def plain (inlines : List Inline) : List Char := inlines.flatMap Inline.plain

/-- An opening bracket and what has been read after it. -/
structure Frame where
  image : Bool
  active : Bool
  body : List Inline

namespace Frame

variable (f : Frame)

def opener : List Char := if f.image then ['!', '['] else ['[']

/-- What a bracket that is not closed amounts to. -/
def literal : List Inline := f.opener.map .text ++ f.body

def close (dest : List Char) : Inline :=
  if f.image then .image (plain f.body) dest else .link (plain f.body) dest

/-- A link has no link around it. -/
def deactivate (outer : List Frame) : List Frame :=
  if f.image then outer else outer.map fun g => if g.image then g else { g with active := false }

end Frame

/-- What has been read if the line ends here. -/
def finish (frames : List Frame) (out : List Inline) : List Inline :=
  out ++ frames.reverse.flatMap Frame.literal

/-- What is left to read, the brackets that are open and what is outside of them. -/
structure Config where
  rest : List Char
  frames : List Frame
  out : List Inline

def push (inlines : List Inline) (rest : List Char) : List Frame → List Inline → Config
  | [], out => ⟨rest, [], out ++ inlines⟩
  | f :: frames, out => ⟨rest, { f with body := f.body ++ inlines } :: frames, out⟩

section

variable (m : Renderer) (text : List Char)

/-- A closing bracket. -/
def closeBracket (cs : List Char) : List Frame → List Inline → Config
  | [], out => push [.text ']'] cs [] out
  | f :: frames, out =>
    match if f.active then m.target cs else none with
    | some (dest, rest) => push [f.close dest] rest (f.deactivate frames) out
    | none => push (f.literal ++ [.text ']']) cs frames out

def step (c : Char) (cs : List Char) (frames : List Frame) (out : List Inline) : Config :=
  match m.span text (c :: cs) with
  | some (t, rest) => push [.span t] rest frames out
  | none =>
    if c = '!' ∧ cs.head? = some '[' then ⟨cs.tail, ⟨true, true, []⟩ :: frames, out⟩
    else if c = '[' then ⟨cs, ⟨false, true, []⟩ :: frames, out⟩
    else if c = ']' then closeBracket m cs frames out
    else push [.text c] cs frames out

def scan : ℕ → Config → List Inline
  | 0, s => finish s.frames s.out
  | n + 1, s =>
    match s.rest with
    | [] => finish s.frames s.out
    | c :: cs => scan n (step m text c cs s.frames s.out)

def inlines : List Inline := scan m text text.length ⟨text, [], []⟩

/-- The text is one image and nothing else. -/
def IsImage (alt dest : List Char) : Prop :=
  m.paragraph text = true ∧ inlines m text = [.image alt dest]

/-- No markup begins in a description, and its brackets pair up; `depth` of them are open. -/
def literalFrom (tail : List Char) : ℕ → List Char → Bool
  | depth, [] => depth == 0
  | depth, c :: cs => (m.span text (c :: cs ++ tail)).isNone &&
    if c = '[' then literalFrom tail (depth + 1) cs
    else if c = ']' then
      depth != 0 && (m.target (cs ++ tail)).isNone && literalFrom tail (depth - 1) cs
    else literalFrom tail depth cs

end

/-! ## What is kept -/

variable {m : Renderer} {text : List Char} {n : ℕ} {rest : List Char} {frames : List Frame}
variable {out inl : List Inline} {alt dest : List Char} {s : Config}

theorem plain_append (a b : List Inline) : plain (a ++ b) = plain a ++ plain b :=
  List.flatMap_append

theorem plain_map_text (s : List Char) : plain (s.map .text) = s := by
  induction s with
  | nil => rfl
  | cons c s ih => exact congrArg (c :: ·) ih

def Config.finish (s : Config) : List Inline := MarkdownLink.finish s.frames s.out

theorem finish_push : (push inl rest frames out).finish = finish frames out ++ inl := by
  cases frames with
  | nil => simp [push, Config.finish, finish]
  | cons f frames => simp [push, Config.finish, finish, Frame.literal, Frame.opener]

theorem rest_push : (push inl rest frames out).rest = rest := by
  cases frames with
  | nil => rfl
  | cons f frames => rfl

theorem finish_cons (f : Frame) : finish (f :: frames) out = finish frames out ++ f.literal := by
  simp [finish]

theorem finish_deactivate (f : Frame) : finish (f.deactivate frames) out = finish frames out := by
  have hliteral : ∀ g : Frame, (if g.image then g else { g with active := false }).literal =
      g.literal := by
    intro g
    split <;> rfl
  unfold Frame.deactivate finish
  split
  · rfl
  · rw [← List.map_reverse, List.flatMap_map]
    simp only [hliteral]

theorem prefix_push : out <+: (push inl rest frames out).out := by
  cases frames with
  | nil => exact List.prefix_append _ _
  | cons f frames => exact List.prefix_rfl

theorem prefix_closeBracket (cs : List Char) (frames : List Frame) (out : List Inline) :
    out <+: (closeBracket m cs frames out).out := by
  cases frames with
  | nil => exact prefix_push
  | cons f frames =>
    rw [closeBracket]
    cases if f.active then m.target cs else none with
    | none => exact prefix_push
    | some found => exact prefix_push

theorem prefix_step (c : Char) (cs : List Char) (frames : List Frame) (out : List Inline) :
    out <+: (step m text c cs frames out).out := by
  unfold step
  split
  · exact prefix_push
  · split_ifs
    · exact List.prefix_rfl
    · exact List.prefix_rfl
    · exact prefix_closeBracket ..
    · exact prefix_push

/-- What is outside of all brackets stays. -/
theorem prefix_scan (n : ℕ) (s : Config) : s.out <+: scan m text n s := by
  induction n generalizing s with
  | zero => exact List.prefix_append _ _
  | succ n ih =>
    rw [scan]
    split
    · exact List.prefix_append _ _
    · exact (prefix_step ..).trans (ih _)

theorem head_literal (f : Frame) : ∃ c l, f.literal = .text c :: l := by
  unfold Frame.literal Frame.opener
  split
  · exact ⟨_, _, rfl⟩
  · exact ⟨_, _, rfl⟩

theorem finish_ne_image : finish frames [] ≠ [.image alt dest] := by
  unfold finish
  rw [List.nil_append]
  cases hframes : frames.reverse with
  | nil => exact (List.cons_ne_nil _ _).symm
  | cons f outer =>
    obtain ⟨c, l, hc⟩ := head_literal f
    rw [List.flatMap_cons, hc]
    intro h
    cases (List.cons.inj h).1

/-! ## What a single image takes -/

/-- How much can be read at most: what has been read, and what is left. -/
def Config.room (s : Config) : ℕ := (plain s.finish).length + s.rest.length

theorem room_push : (push inl rest frames out).room =
    (plain (finish frames out)).length + (plain inl).length + rest.length := by
  rw [Config.room, finish_push, rest_push, plain_append, List.length_append]

/-- With all text inside brackets, the image is the first thing outside of them, or there is room
left for it. -/
theorem scan_push {n : ℕ} (hinl : inl ≠ [])
    (ih : ∀ s : Config, s.out = [] → scan m text n s = [.image alt dest] →
      alt.length + dest.length + 5 ≤ s.room)
    (h : scan m text n (push inl rest frames []) = [.image alt dest]) :
    (frames = [] ∧ inl.head? = some (.image alt dest)) ∨
      (frames ≠ [] ∧ alt.length + dest.length + 5 ≤
        (plain (finish frames [])).length + (plain inl).length + rest.length) := by
  cases frames with
  | nil =>
    refine .inl ⟨rfl, ?_⟩
    have hprefix := @prefix_scan m text n (push inl rest [] [])
    rw [h] at hprefix
    obtain ⟨x, inl, rfl⟩ := List.exists_cons_of_ne_nil hinl
    have := (List.cons_prefix_cons.mp hprefix).1
    rw [List.head?_cons, this]
  | cons f frames =>
    refine .inr ⟨List.cons_ne_nil _ _, ?_⟩
    have hroom := ih _ rfl h
    rwa [room_push] at hroom

theorem plain_close (f : Frame) (dest : List Char) : plain [f.close dest] = plain f.body := by
  unfold plain Frame.close
  split
  · simp [Inline.plain, plain]
  · simp [Inline.plain, plain]

theorem length_plain_cons (f : Frame) : (plain (finish (f :: frames) out)).length =
    (plain (finish frames out)).length + f.opener.length + (plain f.body).length := by
  rw [finish_cons, Frame.literal, plain_append, plain_append, plain_map_text, List.length_append,
    List.length_append, Nat.add_assoc]

theorem one_le_opener (f : Frame) : 1 ≤ f.opener.length := by
  unfold Frame.opener
  split
  · decide
  · decide

theorem deactivate_eq_nil {f : Frame} (h : f.deactivate frames = []) : frames = [] := by
  unfold Frame.deactivate at h
  split at h
  · exact h
  · exact List.map_eq_nil_iff.mp h

theorem room_of_closeBracket {n : ℕ} {cs : List Char}
    (ih : ∀ s : Config, s.out = [] → scan m text n s = [.image alt dest] →
      alt.length + dest.length + 5 ≤ s.room)
    (h : scan m text n (closeBracket m cs frames []) = [.image alt dest]) :
    alt.length + dest.length + 5 ≤ (plain (finish frames [])).length + (cs.length + 1) := by
  cases frames with
  | nil =>
    rw [closeBracket] at h
    rcases scan_push (List.cons_ne_nil _ _) ih h with ⟨-, hhead⟩ | ⟨hne, -⟩
    · cases hhead
    · exact absurd rfl hne
  | cons f frames =>
    have hopener := one_le_opener f
    rw [length_plain_cons]
    rw [closeBracket] at h
    cases htarget : if f.active then m.target cs else none with
    | none =>
      rw [htarget] at h
      obtain ⟨c, l, hc⟩ := head_literal f
      rcases scan_push (by rw [hc]; exact List.cons_ne_nil _ _) ih h with ⟨-, hhead⟩ | ⟨-, hle⟩
      · rw [hc] at hhead
        cases hhead
      · rw [plain_append, List.length_append, Frame.literal, plain_append, plain_map_text,
          List.length_append, show (plain [Inline.text ']']).length = 1 from rfl] at hle
        omega
    | some found =>
      obtain ⟨dest', rest⟩ := found
      rw [htarget] at h
      have hread : m.target cs = some (dest', rest) := by
        split at htarget
        · exact htarget
        · cases htarget
      have hshorter := m.target_shorter hread
      rcases scan_push (List.cons_ne_nil _ _) ih h with ⟨hnil, hhead⟩ | ⟨-, hle⟩
      · rw [deactivate_eq_nil hnil]
        have hclose := Option.some.inj hhead
        unfold Frame.close at hclose
        split at hclose
        · rename_i himage
          obtain ⟨rfl, rfl⟩ := Inline.image.inj hclose
          have htwo : f.opener.length = 2 := by
            rw [Frame.opener, if_pos himage]
            rfl
          omega
        · cases hclose
      · rw [finish_deactivate, plain_close] at hle
        omega

/-- An image needs room for its description, its destination and five more characters. -/
theorem room_of_image (n : ℕ) (s : Config) (hout : s.out = [])
    (h : scan m text n s = [.image alt dest]) : alt.length + dest.length + 5 ≤ s.room := by
  induction n generalizing s with
  | zero =>
    rw [scan, hout] at h
    exact absurd h finish_ne_image
  | succ n ih =>
    obtain ⟨rest, frames, out⟩ := s
    obtain rfl : out = [] := hout
    cases rest with
    | nil => exact absurd h finish_ne_image
    | cons c cs =>
      replace h : scan m text n (step m text c cs frames []) = [.image alt dest] := h
      have hroom : Config.room ⟨c :: cs, frames, []⟩ =
          (plain (finish frames [])).length + (cs.length + 1) := rfl
      rw [hroom]
      unfold step at h
      cases hspan : m.span text (c :: cs) with
      | some found =>
        obtain ⟨t, rest⟩ := found
        rw [hspan] at h
        have hshorter := m.span_shorter hspan
        rw [List.length_cons] at hshorter
        rcases scan_push (List.cons_ne_nil _ _) ih h with ⟨-, hhead⟩ | ⟨-, hle⟩
        · cases hhead
        · have hplain : plain [Inline.span t] = t := List.append_nil t
          rw [hplain] at hle
          omega
      | none =>
        rw [hspan] at h
        simp only at h
        split_ifs at h with himage hlink hclose
        · have hle := ih _ rfl h
          have hopened : Config.room ⟨cs.tail, ⟨true, true, []⟩ :: frames, []⟩ =
              (plain (finish frames [])).length + 2 + 0 + cs.tail.length := by
            rw [Config.room, Config.finish, length_plain_cons]
            rfl
          have hlen : 0 < cs.length := by
            cases cs with
            | nil => cases himage.2
            | cons _ _ => exact Nat.succ_pos _
          rw [hopened, List.length_tail] at hle
          omega
        · have hle := ih _ rfl h
          have hopened : Config.room ⟨cs, ⟨false, true, []⟩ :: frames, []⟩ =
              (plain (finish frames [])).length + 1 + 0 + cs.length := by
            rw [Config.room, Config.finish, length_plain_cons]
            rfl
          rw [hopened] at hle
          omega
        · exact room_of_closeBracket ih h
        · rcases scan_push (List.cons_ne_nil _ _) ih h with ⟨-, hhead⟩ | ⟨-, hle⟩
          · cases hhead
          · rw [show (plain [Inline.text c]).length = 1 from rfl] at hle
            omega

/-! ## An image and its parts -/

/-- What comes before a description, and what comes after it. -/
def opening : List Char := ['!', '[']

def closing (url : List Char) : List Char := ']' :: '(' :: (url ++ [')'])

/-- A part of the description has been read as text, with brackets open in it. -/
structure Clean (depth : ℕ) (frames : List Frame) (p : List Char) : Prop where
  length : frames.length = depth + 1
  active : ∀ f ∈ frames, f.active = true
  image : ∀ f, frames.getLast? = some f → f.image = true
  written : finish frames [] = (opening ++ p).map .text

variable {depth : ℕ} {p url : List Char}

theorem Clean.room (h : Clean depth frames p) (r : List Char) :
    Config.room ⟨r ++ closing url, frames, []⟩ = (p ++ r).length + url.length + 5 := by
  rw [Config.room, Config.finish, h.written, plain_map_text]
  simp [opening, closing]
  omega

/-- Text is read into the innermost bracket. -/
theorem Clean.push {inl : List Inline} {q : List Char} (hlength : frames.length = depth + 1)
    (hactive : ∀ f ∈ frames, f.active = true)
    (himage : ∀ f, frames.getLast? = some f → f.image = true)
    (hwritten : finish frames [] ++ inl = (opening ++ q).map .text) (rest : List Char) :
    ∃ frames', MarkdownLink.push inl rest frames [] = ⟨rest, frames', []⟩ ∧
      Clean depth frames' q := by
  cases frames with
  | nil => cases hlength
  | cons f frames =>
    refine ⟨_, rfl, hlength, ?_, ?_, ?_⟩
    · intro g hg
      rcases List.mem_cons.mp hg with rfl | hg
      · exact hactive f List.mem_cons_self
      · exact hactive g (List.mem_cons_of_mem _ hg)
    · intro g hg
      cases frames with
      | nil =>
        obtain rfl := Option.some.inj hg
        exact himage f rfl
      | cons f' frames =>
        rw [List.getLast?_cons_cons] at hg
        exact himage g (by rwa [List.getLast?_cons_cons])
    · exact (@finish_push rest (f :: frames) [] inl).trans hwritten

theorem Clean.push_text (h : Clean depth frames p) (c : Char) (rest : List Char) :
    ∃ frames', MarkdownLink.push [.text c] rest frames [] = ⟨rest, frames', []⟩ ∧
      Clean depth frames' (p ++ [c]) := by
  refine Clean.push h.length h.active h.image ?_ rest
  rw [h.written, ← List.append_assoc]
  exact (@List.map_append _ _ Inline.text (opening ++ p) [c]).symm

theorem Clean.open (h : Clean depth frames p) (image : Bool) :
    Clean (depth + 1) (⟨image, true, []⟩ :: frames)
      (p ++ Frame.opener ⟨image, true, []⟩) where
  length := congrArg (· + 1) h.length
  active := by
    intro f hf
    rcases List.mem_cons.mp hf with rfl | hf
    · rfl
    · exact h.active f hf
  image := by
    intro f hf
    cases frames with
    | nil => cases h.length
    | cons g frames =>
      rw [List.getLast?_cons_cons] at hf
      exact h.image f hf
  written := by
    rw [finish_cons, h.written, Frame.literal, List.append_nil, ← List.append_assoc]
    exact List.map_append.symm

/-- A closing bracket that makes no link is text, and so is the opening one. -/
theorem Clean.close {f : Frame} (h : Clean (depth + 1) (f :: frames) p) (rest : List Char) :
    ∃ frames', MarkdownLink.push (f.literal ++ [.text ']']) rest frames [] = ⟨rest, frames', []⟩ ∧
      Clean depth frames' (p ++ [']']) := by
  have hlength : frames.length = depth + 1 := Nat.succ.inj h.length
  refine Clean.push hlength (fun g hg => h.active g (List.mem_cons_of_mem _ hg)) ?_ ?_ rest
  · intro g hg
    cases frames with
    | nil => cases hlength
    | cons f' frames => exact h.image g (by rwa [List.getLast?_cons_cons])
  · rw [← List.append_assoc, ← finish_cons, h.written, ← List.append_assoc]
    exact (@List.map_append _ _ Inline.text (opening ++ p) [']']).symm

/-- The outermost bracket alone is the one of the image. -/
theorem Clean.outer {f : Frame} (h : Clean 0 [f] p) : f.image = true ∧ plain f.body = p := by
  have himage := h.image f rfl
  refine ⟨himage, ?_⟩
  have hwritten := congrArg plain h.written
  rw [plain_map_text, finish_cons, Frame.literal, plain_append, plain_append, plain_map_text,
    Frame.opener, if_pos himage] at hwritten
  exact List.append_cancel_left hwritten

/-- A link or an image inside the description leaves no room for the whole. -/
theorem not_image_of_inner {f : Frame} (h : Clean (depth + 1) (f :: frames) p) {cs : List Char}
    {dest' rest : List Char} (htarget : m.target cs = some (dest', rest))
    {r : List Char} (hr : r ++ closing url = ']' :: cs) (n : ℕ) :
    scan m text n (MarkdownLink.push [f.close dest'] rest (f.deactivate frames) []) ≠
      [.image (p ++ r) url] := by
  intro hscan
  have hroom : (plain (finish (f :: frames) [])).length + (r ++ closing url).length =
      (p ++ r).length + url.length + 5 := h.room r
  have hshorter := m.target_shorter htarget
  have hframes : frames ≠ [] := by
    rintro rfl
    cases h.length
  have hopener := one_le_opener f
  have hlen := congrArg List.length hr
  rcases scan_push (List.cons_ne_nil _ _) (room_of_image n) hscan with ⟨hnil, -⟩ | ⟨-, hle⟩
  · exact hframes (deactivate_eq_nil hnil)
  · rw [finish_deactivate, plain_close] at hle
    rw [length_plain_cons, hlen, List.length_cons] at hroom
    omega

/-- Once the outermost bracket is closed, what was read after it is all the description. -/
theorem not_image_of_outer {f : Frame} (h : Clean 0 [f] p) (cs : List Char) (n : ℕ)
    {r : List Char} (hr : r ≠ []) :
    scan m text n (closeBracket m cs [f] []) ≠ [.image (p ++ r) url] := by
  obtain ⟨himage, hbody⟩ := h.outer
  intro hscan
  rw [closeBracket, if_pos (h.active f List.mem_cons_self)] at hscan
  cases hread : m.target cs with
  | some found =>
    obtain ⟨dest', rest⟩ := found
    have hnil : f.deactivate [] = [] := by rw [Frame.deactivate, if_pos himage]
    rw [hread] at hscan
    simp only [hnil] at hscan
    have hfirst := @prefix_scan m text n (MarkdownLink.push [f.close dest'] rest [] [])
    rw [hscan] at hfirst
    have heq : f.close dest' = .image (p ++ r) url := (List.cons_prefix_cons.mp hfirst).1
    rw [Frame.close, if_pos himage, hbody] at heq
    have hlen := congrArg List.length (Inline.image.inj heq).1
    rw [List.length_append] at hlen
    exact hr (List.length_eq_zero_iff.mp (by omega))
  | none =>
    obtain ⟨c, l, hc⟩ := head_literal f
    rw [hread] at hscan
    have hfirst := @prefix_scan m text n
      (MarkdownLink.push (f.literal ++ [.text ']']) cs [] [])
    rw [hscan, hc] at hfirst
    cases (List.cons_prefix_cons.mp hfirst).1

/-- Neither does any other construct. -/
theorem not_image_of_span (h : Clean depth frames p) {c : Char} {cs t rest : List Char}
    (hspan : m.span text (c :: (cs ++ closing url)) = some (t, rest)) (n : ℕ) :
    scan m text n (MarkdownLink.push [.span t] rest frames []) ≠ [.image (p ++ c :: cs) url] := by
  intro hscan
  have hshorter := m.span_shorter hspan
  rcases scan_push (List.cons_ne_nil _ _) (room_of_image n) hscan with ⟨hnil, -⟩ | ⟨-, hle⟩
  · rw [hnil] at h
    cases h.length
  · have hroom : (plain (finish frames [])).length + (c :: cs ++ closing url).length =
        (p ++ c :: cs).length + url.length + 5 := h.room (c :: cs)
    have hplain : plain [Inline.span t] = t := List.append_nil t
    rw [hplain] at hle
    simp only [List.cons_append, List.length_cons] at hroom hshorter
    omega

/-- The target closes the image if no other bracket is open. -/
theorem scan_closing_iff (hurl : ∀ c ∈ url, isUrlChar c = true) (n : ℕ)
    (h : Clean depth frames p) :
    scan m text (n + 1) ⟨closing url, frames, []⟩ = [.image p url] ↔ depth = 0 := by
  have htarget : m.target ('(' :: (url ++ [')'])) = some (url, []) := m.target_plain url hurl []
  have hspan : m.span text (']' :: '(' :: (url ++ [')'])) = none :=
    m.span_bracket _ _ _ (by simp)
  have hstep : scan m text (n + 1) ⟨closing url, frames, []⟩ =
      scan m text n (closeBracket m ('(' :: (url ++ [')'])) frames []) := by
    rw [scan]
    simp only [closing, step, hspan]
    rfl
  rw [hstep]
  cases frames with
  | nil => cases h.length
  | cons f frames =>
    rw [closeBracket, if_pos (h.active f List.mem_cons_self), htarget]
    cases depth with
    | zero =>
      obtain rfl : frames = [] := List.length_eq_zero_iff.mp (Nat.succ.inj h.length)
      obtain ⟨himage, hbody⟩ := h.outer
      refine iff_of_true ?_ rfl
      have hclose : f.close url = .image p url := by rw [Frame.close, if_pos himage, hbody]
      have hnil : f.deactivate [] = [] := by rw [Frame.deactivate, if_pos himage]
      simp only [hclose, hnil, MarkdownLink.push]
      cases n with
      | zero => rfl
      | succ n => rfl
    | succ depth =>
      refine iff_of_false ?_ (Nat.succ_ne_zero _)
      have hnot := @not_image_of_inner m text _ _ _ url f h _ _ _ htarget [] rfl n
      rwa [List.append_nil] at hnot

/-- A closing bracket in the description closes one that is open in it and makes no link. -/
theorem scan_closeBracket_iff (n : ℕ) (cs : List Char) (h : Clean depth frames p)
    (ih : ∀ frames', Clean (depth - 1) frames' (p ++ [']']) →
      (scan m text n ⟨cs ++ closing url, frames', []⟩ = [.image (p ++ ']' :: cs) url] ↔
        literalFrom m text (closing url) (depth - 1) cs = true)) :
    scan m text n (closeBracket m (cs ++ closing url) frames []) = [.image (p ++ ']' :: cs) url] ↔
      depth ≠ 0 ∧ m.target (cs ++ closing url) = none ∧
        literalFrom m text (closing url) (depth - 1) cs = true := by
  cases frames with
  | nil => cases h.length
  | cons f frames =>
    cases depth with
    | zero =>
      obtain rfl : frames = [] := List.length_eq_zero_iff.mp (Nat.succ.inj h.length)
      refine iff_of_false ?_ fun hdepth => hdepth.1 rfl
      exact not_image_of_outer h (cs ++ closing url) n (List.cons_ne_nil _ _)
    | succ depth =>
      rw [closeBracket, if_pos (h.active f List.mem_cons_self)]
      cases hread : m.target (cs ++ closing url) with
      | some found =>
        refine iff_of_false ?_ fun hnone => Option.some_ne_none _ hnone.2.1
        exact @not_image_of_inner m text _ _ _ url f h _ _ _ hread (']' :: cs) rfl n
      | none =>
        obtain ⟨frames', hpush, hclean⟩ := h.close (cs ++ closing url)
        dsimp only
        rw [hpush, ih frames' hclean]
        simp

/-- What is left of a description that has been read as text so far. -/
theorem scan_iff (hurl : ∀ c ∈ url, isUrlChar c = true) (n : ℕ) (r : List Char)
    (h : Clean depth frames p) (hn : (r ++ closing url).length ≤ n) :
    scan m text n ⟨r ++ closing url, frames, []⟩ = [.image (p ++ r) url] ↔
      literalFrom m text (closing url) depth r = true := by
  induction n generalizing r depth frames p with
  | zero => simp [closing] at hn
  | succ n ih =>
    cases r with
    | nil =>
      rw [literalFrom, beq_iff_eq, List.append_nil]
      exact scan_closing_iff hurl n h
    | cons c cs =>
      have hstep : scan m text (n + 1) ⟨c :: cs ++ closing url, frames, []⟩ =
          scan m text n (step m text c (cs ++ closing url) frames []) := rfl
      have hlen : (cs ++ closing url).length ≤ n := Nat.le_of_succ_le_succ hn
      rw [hstep, literalFrom, step]
      cases hspan : m.span text (c :: (cs ++ closing url)) with
      | some found =>
        exact iff_of_false (not_image_of_span h hspan n) (by simp [hspan])
      | none =>
        simp only [List.cons_append, hspan, Option.isNone_none, Bool.true_and]
        by_cases hbang : c = '!' ∧ (cs ++ closing url).head? = some '['
        · obtain ⟨rfl, hhead⟩ := hbang
          cases cs with
          | nil => cases hhead
          | cons c' cs =>
            obtain rfl : c' = '[' := Option.some.inj hhead
            have hopen := ih cs (h.open true) (Nat.le_of_succ_le hlen)
            have hspan' : m.span text ('[' :: (cs ++ closing url)) = none :=
              m.span_bracket _ _ _ (by simp)
            rw [List.append_assoc] at hopen
            simp only [literalFrom, List.cons_append, hspan', List.head?_cons, List.tail_cons]
            simpa [Frame.opener] using hopen
        rw [if_neg hbang]
        by_cases hopen : c = '['
        · subst hopen
          have hrest := ih cs (h.open false) hlen
          rw [List.append_assoc] at hrest
          simpa [Frame.opener] using hrest
        rw [if_neg hopen, if_neg hopen]
        by_cases hclose : c = ']'
        · subst hclose
          rw [if_pos rfl, if_pos rfl, scan_closeBracket_iff n cs h fun frames' hclean => by
            rw [← ih cs hclean hlen, List.append_assoc, List.singleton_append]]
          simp [and_assoc]
        · rw [if_neg hclose, if_neg hclose]
          obtain ⟨frames', hpush, hclean⟩ := h.push_text c (cs ++ closing url)
          have hrest := ih cs hclean hlen
          rw [List.append_assoc] at hrest
          rw [hpush]
          exact hrest

/-- A description between the brackets of an image, with a plain destination, is read back
exactly when nothing in it is markup. -/
theorem inlines_iff (hurl : ∀ c ∈ url, isUrlChar c = true) (alt : List Char) :
    inlines m (opening ++ (alt ++ closing url)) = [.image alt url] ↔
      literalFrom m (opening ++ (alt ++ closing url)) (closing url) 0 alt = true := by
  have hspan : ∀ text cs, m.span text ('!' :: cs) = none :=
    fun text cs => m.span_bracket _ _ _ (by simp)
  have hclean : Clean 0 [⟨true, true, []⟩] [] := by
    refine ⟨rfl, by simp, ?_, rfl⟩
    intro f hf
    obtain rfl := Option.some.inj hf
    rfl
  have hfirst : inlines m (opening ++ (alt ++ closing url)) =
      scan m (opening ++ (alt ++ closing url)) ((alt ++ closing url).length + 1)
        ⟨alt ++ closing url, [⟨true, true, []⟩], []⟩ := by
    show scan m _ _ (step m _ '!' ('[' :: (alt ++ closing url)) [] []) = _
    rw [step, hspan]
    rfl
  rw [hfirst]
  exact scan_iff hurl _ alt hclean (Nat.le_succ _)

end MarkdownLink
