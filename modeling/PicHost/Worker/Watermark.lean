import PicHost.Api.Categories
import PicHost.Lib.CountedLoop
import PicHost.Lib.SignificantBits
import Mathlib.Data.Char

/-!
# The watermark of the worker

`apply_watermark` of `watermark.rs` with the colour parser, the placing and the tiling of the
text. The fonts and the drawing library are parameters. Arithmetic on `i32` and `u32` is checked.
-/

namespace PicHost.Watermark

open CountedLoop FloatCast SignificantBits

inductive WatermarkPosition where
  | topLeft
  | topRight
  | bottomLeft
  | bottomRight
  | center
  | tile
deriving DecidableEq

structure WatermarkConfig where
  enabled : Bool := false
  text : String := ""
  font : String := "NotoSansSC-Regular"
  fontSize : UInt32 := 48
  color : String := "rgba(255, 255, 255, 0.5)"
  scale : Float := 0.15
  position : WatermarkPosition := .bottomRight
  marginX : UInt32 := 20
  marginY : UInt32 := 20

structure Rgba where
  r : UInt8
  g : UInt8
  b : UInt8
  a : UInt8
deriving DecidableEq

structure Image (Pixels : Type) where
  width : UInt32
  height : UInt32
  pixels : Pixels

/-- The font and drawing libraries. -/
structure Imaging (Pixels Font : Type) where
  tryFromVec : String → Option Font
  toRgba8 : Pixels → Pixels
  textSize : Float32 → Font → String → UInt32 × UInt32
  drawTextMut : Pixels → Rgba → Int32 → Int32 → Float32 → Font → String → Pixels

variable {Pixels Font : Type} (imaging : Imaging Pixels Font)

def builtinFontNames : List String :=
  ["NotoSansSC-Regular", "NotoSans-Regular", "Arial", "DejaVuSans", "FiraCode-Regular"]

def loadFontArc (name : String) : Except String Font :=
  if name ∈ builtinFontNames then
    match imaging.tryFromVec name with
    | some font => .ok font
    | none => .error ("Failed to parse font: " ++ name)
  else
    .error ("Unknown font: '" ++ name ++ "'. Available fonts: NotoSansSC-Regular, " ++
      "NotoSans-Regular, Arial, DejaVuSans, FiraCode-Regular")

def scaledFontSize (imgDiagonal : Float32) (baseSize : UInt32) (scale : Float) : Float32 :=
  narrow (baseSize.toFloat * scale * widen imgDiagonal / 1000)

/-! ## Numbers in a colour -/

/-- `char::to_digit`. -/
def toDigit (radix : ℕ) (c : Char) : Option ℕ :=
  let v :=
    if '0' ≤ c ∧ c ≤ '9' then c.toNat - 48
    else if 'a' ≤ c ∧ c ≤ 'z' then c.toNat - 87
    else if 'A' ≤ c ∧ c ≤ 'Z' then c.toNat - 55
    else radix
  if v < radix then some v else none

def digits (radix acc : ℕ) : List Char → Option ℕ
  | [] => some acc
  | c :: cs => (toDigit radix c).bind fun v => digits radix (radix * acc + v) cs

def withoutPlus : List Char → List Char
  | '+' :: rest => rest
  | s => s

/-- `u8::from_str_radix`, which takes a leading plus sign. -/
def fromStrRadix (radix : ℕ) (s : List Char) : Option UInt8 :=
  if withoutPlus s = [] then none
  else (digits radix 0 (withoutPlus s)).bind fun n => if n < 256 then some (UInt8.ofNat n) else none

def isAsciiDigit (c : Char) : Bool := '0' ≤ c ∧ c ≤ '9'

/-- The exponent of a decimal floating-point text. -/
def parseExponent : List Char → Option ℤ
  | [] => some 0
  | e :: rest =>
    if e = 'e' ∨ e = 'E' then
      let (negative, number) := match rest with
        | '-' :: ds => (true, ds)
        | '+' :: ds => (false, ds)
        | ds => (false, ds)
      if number = [] then none
      else (digits 10 0 number).map fun n => if negative then -(n : ℤ) else n
    else none

def parseDecimal (s : List Char) : Option Float :=
  let (whole, rest) := s.span isAsciiDigit
  let (fraction, rest) := match rest with
    | '.' :: rest => rest.span isAsciiDigit
    | rest => ([], rest)
  if whole ++ fraction = [] then none
  else
    (digits 10 0 (whole ++ fraction)).bind fun m =>
      (parseExponent rest).map fun e =>
        Float.ofModel (Float.Model.ofScientific m (e - fraction.length))

def parseInfNan (s : List Char) : Option Float :=
  let name := s.map Char.toLower
  if name = "inf".toList ∨ name = "infinity".toList then some (1 / 0)
  else if name = "nan".toList then some (0 / 0)
  else none

/-- `f64::from_str`. -/
def parseF64 (s : List Char) : Option Float :=
  let (negative, number) := match s with
    | '-' :: rest => (true, rest)
    | '+' :: rest => (false, rest)
    | rest => (false, rest)
  ((parseDecimal number).or (parseInfNan number)).map fun v => if negative then -v else v

/-- `f64::clamp` between zero and one. -/
def clampUnit (a : Float) : Float := if a < 0 then 0 else if 1 < a then 1 else a

/-! ## Colours -/

def trim (s : List Char) : List Char := Trimmed.trim Categories.isWhitespace s

/-- The length of a text in bytes. -/
def byteLen (s : List Char) : ℕ := (s.map Char.utf8Size).sum

/-- The text before and after a byte offset, unless it lies inside a character. -/
def splitBytes : ℕ → List Char → Option (List Char × List Char)
  | 0, cs => some ([], cs)
  | _ + 1, [] => none
  | n + 1, c :: cs =>
    if c.utf8Size ≤ n + 1 then
      (splitBytes (n + 1 - c.utf8Size) cs).map fun parts => (c :: parts.1, parts.2)
    else none

def consByte (v : UInt8) : Except String (List UInt8) → Except String (List UInt8)
  | .error e => .error e
  | .ok vs => .ok (v :: vs)

/-- `count` slices of two bytes read as hexadecimal numbers. -/
def hexPairs : ℕ → List Char → Run (Except String (List UInt8))
  | 0, _ => .returned (.ok [])
  | count + 1, hex =>
    match splitBytes 2 hex with
    | none => .panicked
    | some (pair, rest) =>
      match fromStrRadix 16 pair with
      | none => .returned (.error "Invalid hex color")
      | some v => (hexPairs count rest).andThen fun vs => .returned (consByte v vs)

def invalidFormat (s : List Char) : Except String Rgba :=
  .error ("Invalid color format: '" ++ String.ofList s ++ "'. Use rgba(r,g,b,a) or #RRGGBB")

def rgbaOfBytes (s : List Char) : Except String (List UInt8) → Except String Rgba
  | .error e => .error e
  | .ok [r, g, b] => .ok ⟨r, g, b, 255⟩
  | .ok [r, g, b, a] => .ok ⟨r, g, b, a⟩
  | .ok _ => invalidFormat s

def parseHex (s : List Char) : Run (Except String Rgba) :=
  match s with
  | '#' :: hex =>
    if byteLen hex = 6 then (hexPairs 3 hex).andThen fun r => .returned (rgbaOfBytes s r)
    else if byteLen hex = 8 then (hexPairs 4 hex).andThen fun r => .returned (rgbaOfBytes s r)
    else .returned (invalidFormat s)
  | _ => .returned (invalidFormat s)

def parseParts (r g b a : List Char) : Except String Rgba :=
  match fromStrRadix 10 r, fromStrRadix 10 g, fromStrRadix 10 b, parseF64 a with
  | none, _, _, _ => .error "Invalid R in rgba()"
  | _, none, _, _ => .error "Invalid G in rgba()"
  | _, _, none, _ => .error "Invalid B in rgba()"
  | _, _, _, none => .error "Invalid A in rgba()"
  | some r, some g, some b, some a => .ok ⟨r, g, b, (clampUnit a * 255).toUInt8⟩

/-- The parentheses are single bytes, so their slices are on character boundaries. -/
def rgbaInner (s : List Char) : Option (List Char) :=
  if "rgba(".toList <+: s ∧ s.getLast? = some ')' then some (s.drop 5).dropLast else none

def parseRgba (colorStr : String) : Run (Except String Rgba) :=
  let s := trim colorStr.toList
  match (rgbaInner s).map fun inner => (inner.splitOn ',').map trim with
  | some [r, g, b, a] => .returned (parseParts r g b a)
  | _ => parseHex s

/-! ## Placing the text -/

/-- A checked subtraction of the code. -/
def subI32 (a b : Int32) : Run Int32 :=
  if -2147483648 ≤ a.toInt - b.toInt ∧ a.toInt - b.toInt ≤ 2147483647 then .returned (a - b)
  else .panicked

def calculatePosition (imgW imgH : UInt32) (text : String) (fontSize : Float32) (font : Font)
    (position : WatermarkPosition) (marginX marginY : UInt32) : Run (Int32 × Int32) :=
  let textW := (imaging.textSize fontSize font text).1
  let textH := ceilToUInt32 fontSize
  let mx := marginX.toInt32
  let my := marginY.toInt32
  match position with
  | .topLeft => .returned (mx, my)
  | .topRight =>
    (subI32 imgW.toInt32 textW.toInt32).andThen fun x =>
      (subI32 x mx).andThen fun x => .returned (x, my)
  | .bottomLeft =>
    (subI32 imgH.toInt32 textH.toInt32).andThen fun y =>
      (subI32 y my).andThen fun y => .returned (mx, y)
  | .bottomRight =>
    (subI32 imgW.toInt32 textW.toInt32).andThen fun x =>
      (subI32 x mx).andThen fun x =>
        (subI32 imgH.toInt32 textH.toInt32).andThen fun y =>
          (subI32 y my).andThen fun y => .returned (x, y)
  | .center =>
    (subI32 imgW.toInt32 textW.toInt32).andThen fun x =>
      (subI32 imgH.toInt32 textH.toInt32).andThen fun y => .returned (x / 2, y / 2)
  | .tile => .panicked

/-- The counters run over `u32`. -/
def counterBound : ℕ := 4294967296

def drawTiled (fuel : ℕ) (canvas : Image Pixels) (font : Font) (text : String)
    (fontSize : Float32) (color : Rgba) : Run (Image Pixels) :=
  let textW := (imaging.textSize fontSize font text).1
  let textH := ceilToUInt32 fontSize
  let tileW := (textW.toFloat32 * 3).toUInt32
  let tileH := (textH.toFloat32 * 5).toUInt32
  let row (y : ℕ) (pixels : Pixels) : Run Pixels :=
    whileBelow counterBound canvas.width.toNat tileW.toNat
      (fun x pixels => .returned (imaging.drawTextMut pixels color (UInt32.ofNat x).toInt32
        (UInt32.ofNat y).toInt32 fontSize font text)) fuel 0 pixels
  (whileBelow counterBound canvas.height.toNat tileH.toNat row fuel 0 canvas.pixels).andThen
    fun pixels => .returned { canvas with pixels }

def applyWatermark (fuel : ℕ) (img : Image Pixels) (config : WatermarkConfig) :
    Run (Except String (Image Pixels)) :=
  if !config.enabled || config.text.isEmpty then .returned (.ok img)
  else
    let w := img.width.toFloat32
    let h := img.height.toFloat32
    let diagonal := (w * w + h * h).sqrt
    let fontSize := scaledFontSize diagonal config.fontSize config.scale
    match loadFontArc imaging config.font with
    | .error e => .returned (.error e)
    | .ok font =>
      (parseRgba config.color).andThen fun
      | .error e => .returned (.error e)
      | .ok color =>
        let canvas := { img with pixels := imaging.toRgba8 img.pixels }
        match config.position with
        | .tile =>
          (drawTiled imaging fuel canvas font config.text fontSize color).andThen fun canvas =>
            .returned (.ok canvas)
        | position =>
          (calculatePosition imaging w.toUInt32 h.toUInt32 config.text fontSize font position
            config.marginX config.marginY).andThen fun xy =>
              .returned (.ok { canvas with
                pixels := imaging.drawTextMut canvas.pixels color xy.1 xy.2 fontSize font
                  config.text })

/-! ## Slices of a colour -/

@[simp] theorem byteLen_nil : byteLen [] = 0 := rfl

@[simp] theorem byteLen_cons (c : Char) (cs : List Char) :
    byteLen (c :: cs) = c.utf8Size + byteLen cs := by
  simp [byteLen]

@[simp] theorem byteLen_append (cs ds : List Char) :
    byteLen (cs ++ ds) = byteLen cs + byteLen ds := by
  simp [byteLen]

theorem splitBytes_some {n : ℕ} {cs p rest : List Char} (h : splitBytes n cs = some (p, rest)) :
    cs = p ++ rest ∧ byteLen p = n := by
  induction cs generalizing n p with
  | nil =>
    cases n with
    | zero =>
      obtain ⟨rfl, rfl⟩ := Prod.mk.injEq _ _ _ _ ▸ Option.some.inj h
      exact ⟨rfl, rfl⟩
    | succ n => cases h
  | cons c cs ih =>
    cases n with
    | zero =>
      obtain ⟨rfl, rfl⟩ := Prod.mk.injEq _ _ _ _ ▸ Option.some.inj h
      exact ⟨rfl, rfl⟩
    | succ n =>
      rw [splitBytes] at h
      split at h
      · obtain ⟨⟨q, rest'⟩, hq, hp⟩ := Option.map_eq_some_iff.mp h
        obtain ⟨rfl, rfl⟩ := Prod.mk.injEq _ _ _ _ ▸ hp
        obtain ⟨hcs, hlen⟩ := ih hq
        refine ⟨by rw [hcs, List.cons_append], ?_⟩
        rw [byteLen_cons, hlen]
        omega
      · cases h

theorem splitBytes_pair {c d : Char} (hc : c.utf8Size = 1) (hd : d.utf8Size = 1)
    (rest : List Char) : splitBytes 2 (c :: d :: rest) = some ([c, d], rest) := by
  simp [splitBytes, hc, hd]

/-- Two bytes from the front of the text end inside a character. -/
def CutsChar : List Char → Prop
  | [] => False
  | c :: cs => 2 < c.utf8Size ∨ c.utf8Size = 1 ∧ ∃ d, cs.head? = some d ∧ 1 < d.utf8Size

theorem splitBytes_two {cs : List Char} (h : 2 ≤ byteLen cs) :
    splitBytes 2 cs = none ↔ CutsChar cs := by
  cases cs with
  | nil => simp at h
  | cons c cs =>
    have hc := c.utf8Size_pos
    rw [splitBytes, CutsChar]
    rcases Nat.lt_trichotomy c.utf8Size 2 with hlt | heq | hgt
    · have hone : c.utf8Size = 1 := by omega
      rw [byteLen_cons, hone] at h
      cases cs with
      | nil => simp at h
      | cons d ds =>
        have hd := d.utf8Size_pos
        rw [hone, if_pos (by omega), show 1 + 1 - 1 = 0 + 1 from rfl, splitBytes]
        by_cases h1 : d.utf8Size ≤ 1
        · have hd1 : d.utf8Size = 1 := by omega
          simp [hd1, splitBytes]
        · simp [h1]
          omega
    · rw [heq, if_pos (by omega)]
      simp [splitBytes]
    · rw [if_neg (by omega)]
      simp [hgt]

theorem utf8Size_of_toDigit {radix v : ℕ} {c : Char} (h : toDigit radix c = some v) :
    c.utf8Size = 1 := by
  have hascii : c ≤ 'z' := by
    by_contra hbig
    have hnot : ∀ d : Char, d ≤ 'z' → ¬ c ≤ d := fun d hd hcd => hbig (hcd.trans hd)
    unfold toDigit at h
    simp only [hnot '9' (by decide), hnot 'z' (by decide), hnot 'Z' (by decide), and_false,
      if_false, lt_irrefl] at h
    cases h
  have hval : c.val.toNat ≤ 122 := hascii
  exact Char.utf8Size_eq_one_iff.mpr (UInt32.le_iff_toNat_le.mpr (hval.trans (by decide)))

theorem utf8Size_of_digits {radix acc n : ℕ} {cs : List Char}
    (h : digits radix acc cs = some n) : ∀ c ∈ cs, c.utf8Size = 1 := by
  induction cs generalizing acc with
  | nil => simp
  | cons c cs ih =>
    obtain ⟨v, hv, hrest⟩ := Option.bind_eq_some_iff.mp h
    intro d hd
    rcases List.mem_cons.mp hd with rfl | hd
    · exact utf8Size_of_toDigit hv
    · exact ih hrest d hd

theorem mem_of_withoutPlus {s : List Char} {c : Char} (h : c ∈ s) :
    c = '+' ∨ c ∈ withoutPlus s := by
  unfold withoutPlus
  split
  · exact List.mem_cons.mp h
  · exact .inr h

/-- A number's text is plain ASCII. -/
theorem utf8Size_of_fromStrRadix {radix : ℕ} {s : List Char}
    (h : (fromStrRadix radix s).isSome) : ∀ c ∈ s, c.utf8Size = 1 := by
  obtain ⟨v, hv⟩ := Option.isSome_iff_exists.mp h
  unfold fromStrRadix at hv
  split at hv
  · cases hv
  · obtain ⟨n, hn, -⟩ := Option.bind_eq_some_iff.mp hv
    intro c hc
    rcases mem_of_withoutPlus hc with rfl | hc
    · decide
    · exact utf8Size_of_digits hn c hc

/-- A text of hexadecimal numbers of two characters each. -/
def HexPairs : List Char → Prop
  | [] => True
  | [_] => False
  | c :: d :: rest => (fromStrRadix 16 [c, d]).isSome ∧ HexPairs rest

theorem pair_of_two_bytes {p : List Char} (hlen : byteLen p = 2)
    (hp : ∀ c ∈ p, c.utf8Size = 1) : ∃ c d, p = [c, d] := by
  match p, hlen, hp with
  | [], hlen, _ => simp at hlen
  | [c], hlen, hp => simp [hp c] at hlen
  | [c, d], _, _ => exact ⟨c, d, rfl⟩
  | c :: d :: e :: rest, hlen, hp =>
    have he := e.utf8Size_pos
    have hc := c.utf8Size_pos
    have hd := d.utf8Size_pos
    simp at hlen
    omega

/-- Reading pairs stops inside a character exactly when such a place follows pairs that read. -/
theorem hexPairs_panicked {count : ℕ} {hex : List Char} (hlen : byteLen hex = 2 * count) :
    hexPairs count hex = .panicked ↔
      ∃ pairs rest, hex = pairs ++ rest ∧ HexPairs pairs ∧ CutsChar rest := by
  induction count generalizing hex with
  | zero =>
    apply iff_of_false (by simp [hexPairs])
    rintro ⟨pairs, rest, rfl, -, hcut⟩
    cases rest with
    | nil => exact hcut
    | cons c cs =>
      have hc := c.utf8Size_pos
      simp at hlen
      omega
  | succ count ih =>
    have hcut := @splitBytes_two hex (by omega)
    rw [hexPairs]
    cases hsplit : splitBytes 2 hex with
    | none =>
      rw [hsplit] at hcut
      exact iff_of_true rfl ⟨[], hex, rfl, trivial, hcut.mp rfl⟩
    | some parts =>
      obtain ⟨pair, rest⟩ := parts
      obtain ⟨rfl, hpair⟩ := splitBytes_some hsplit
      rw [hsplit] at hcut
      have hnot : ¬ CutsChar (pair ++ rest) := fun h => by cases hcut.mpr h
      rw [byteLen_append, hpair] at hlen
      simp only
      cases hread : fromStrRadix 16 pair with
      | none =>
        apply iff_of_false (by simp)
        rintro ⟨pairs, rest', heq, hpairs, hcut'⟩
        match pairs, hpairs with
        | [], _ => exact hnot (heq ▸ hcut')
        | c :: d :: pairs, hpairs =>
          have hascii := utf8Size_of_fromStrRadix hpairs.1
          have hsplit' := splitBytes_pair (hascii c (by simp)) (hascii d (by simp))
            (pairs ++ rest')
          rw [← List.cons_append, ← List.cons_append, ← heq, hsplit] at hsplit'
          obtain ⟨rfl, -⟩ := Prod.mk.injEq _ _ _ _ ▸ Option.some.inj hsplit'
          have hsome := hpairs.1
          rw [hread] at hsome
          cases hsome
      | some v =>
        have hascii := utf8Size_of_fromStrRadix
          (Option.isSome_iff_exists.mpr ⟨v, hread⟩)
        obtain ⟨c, d, rfl⟩ := pair_of_two_bytes hpair hascii
        rw [Run.andThen_panicked, ih (by omega)]
        constructor
        · rintro ⟨pairs, rest', rfl, hpairs, hcut'⟩
          exact ⟨c :: d :: pairs, rest', rfl, ⟨by rw [hread]; rfl, hpairs⟩, hcut'⟩
        · rintro ⟨pairs, rest', heq, hpairs, hcut'⟩
          match pairs, hpairs with
          | [], _ => exact absurd (heq ▸ hcut') hnot
          | c' :: d' :: pairs, hpairs =>
            simp only [List.cons_append, List.cons.injEq] at heq
            obtain ⟨rfl, rfl, hrest⟩ := heq
            exact ⟨pairs, rest', hrest, hpairs.2, hcut'⟩

theorem hexPairs_ends (count : ℕ) (hex : List Char) : hexPairs count hex ≠ .outOfFuel := by
  induction count generalizing hex with
  | zero => simp [hexPairs]
  | succ count ih =>
    rw [hexPairs]
    cases splitBytes 2 hex with
    | none => simp
    | some parts =>
      simp only
      cases fromStrRadix 16 parts.1 with
      | none => simp
      | some v =>
        cases hrec : hexPairs count parts.2 with
        | outOfFuel => exact absurd hrec (ih _)
        | panicked => simp [Run.andThen]
        | returned vs => simp [Run.andThen]

/-- A slice of the colour ends inside a character, after pairs that were read. -/
def CutColour (color : String) : Prop :=
  ∃ pairs rest, trim color.toList = '#' :: (pairs ++ rest) ∧
    (byteLen (pairs ++ rest) = 6 ∨ byteLen (pairs ++ rest) = 8) ∧ HexPairs pairs ∧ CutsChar rest

theorem rgbaInner_hash (hex : List Char) : rgbaInner ('#' :: hex) = none := by
  rw [rgbaInner, if_neg]
  rintro ⟨h, -⟩
  have := List.cons_prefix_cons.mp h
  exact absurd this.1 (by decide)

theorem parseHex_panicked (s : List Char) :
    parseHex s = .panicked ↔ ∃ pairs rest, s = '#' :: (pairs ++ rest) ∧
      (byteLen (pairs ++ rest) = 6 ∨ byteLen (pairs ++ rest) = 8) ∧ HexPairs pairs ∧
      CutsChar rest := by
  unfold parseHex
  split
  · rename_i hex
    simp only [List.cons.injEq, true_and]
    split
    · rename_i h6
      rw [Run.andThen_panicked, hexPairs_panicked (by omega)]
      constructor
      · rintro ⟨pairs, rest, rfl, h⟩
        exact ⟨pairs, rest, rfl, .inl h6, h⟩
      · rintro ⟨pairs, rest, rfl, -, h⟩
        exact ⟨pairs, rest, rfl, h⟩
    · rename_i h6
      split
      · rename_i h8
        rw [Run.andThen_panicked, hexPairs_panicked (by omega)]
        constructor
        · rintro ⟨pairs, rest, rfl, h⟩
          exact ⟨pairs, rest, rfl, .inr h8, h⟩
        · rintro ⟨pairs, rest, rfl, -, h⟩
          exact ⟨pairs, rest, rfl, h⟩
      · rename_i h8
        apply iff_of_false (by simp)
        rintro ⟨pairs, rest, rfl, h, -⟩
        exact h.elim h6 h8
  · rename_i hs
    apply iff_of_false (by simp)
    rintro ⟨pairs, rest, rfl, -⟩
    exact hs _ rfl

theorem parseHex_ends (s : List Char) : parseHex s ≠ .outOfFuel := by
  have hmap : ∀ count hex, (hexPairs count hex).andThen (fun r => .returned (rgbaOfBytes s r)) ≠
      .outOfFuel := by
    intro count hex h
    cases hrec : hexPairs count hex with
    | outOfFuel => exact hexPairs_ends count hex hrec
    | panicked => rw [hrec] at h; cases h
    | returned vs => rw [hrec] at h; cases h
  unfold parseHex
  split
  · split
    · exact hmap _ _
    · split
      · exact hmap _ _
      · simp
  · simp

theorem parseRgba_panicked (color : String) : parseRgba color = .panicked ↔ CutColour color := by
  unfold parseRgba CutColour
  simp only
  split
  · rename_i r g b a hparts
    apply iff_of_false (by simp)
    rintro ⟨pairs, rest, hs, -⟩
    rw [hs, rgbaInner_hash] at hparts
    cases hparts
  · exact parseHex_panicked _

theorem parseRgba_ends (color : String) : parseRgba color ≠ .outOfFuel := by
  unfold parseRgba
  simp only
  split
  · simp
  · exact parseHex_ends _

/-! ## Where the text goes -/

def InI32 (n : ℤ) : Prop := -2147483648 ≤ n ∧ n ≤ 2147483647

theorem subI32_returned {a b c : Int32} :
    subI32 a b = .returned c ↔ InI32 (a.toInt - b.toInt) ∧ a - b = c := by
  unfold subI32
  split
  · rename_i h
    exact ⟨fun hc => ⟨h, Run.returned.inj hc⟩, fun hc => congrArg Run.returned hc.2⟩
  · rename_i h
    exact iff_of_false (by simp) fun hc => h hc.1

theorem toInt_sub {a b : Int32} (h : InI32 (a.toInt - b.toInt)) :
    (a - b).toInt = a.toInt - b.toInt := by
  rw [Int32.toInt_sub]
  exact Int.bmod_eq_of_le (by have := h.1; norm_num; omega) (by have := h.2; norm_num; omega)

/-- Neither subtraction that places the text from the far edge leaves the range of `i32`. -/
def AxisFits (extent text margin : UInt32) : Prop :=
  InI32 (extent.toInt32.toInt - text.toInt32.toInt) ∧
    InI32 (extent.toInt32.toInt - text.toInt32.toInt - margin.toInt32.toInt)

theorem axis_returned {β : Type} {extent text margin : UInt32} {f : Int32 → Run β} {r : β} :
    ((subI32 extent.toInt32 text.toInt32).andThen fun x =>
      (subI32 x margin.toInt32).andThen f) = .returned r ↔
    AxisFits extent text margin ∧
      f (extent.toInt32 - text.toInt32 - margin.toInt32) = .returned r := by
  simp only [Run.andThen_returned, subI32_returned, AxisFits]
  constructor
  · rintro ⟨x, ⟨h1, rfl⟩, y, ⟨h2, rfl⟩, h⟩
    rw [toInt_sub h1] at h2
    exact ⟨⟨h1, h2⟩, h⟩
  · rintro ⟨⟨h1, h2⟩, h⟩
    exact ⟨_, ⟨h1, rfl⟩, _, ⟨by rwa [toInt_sub h1], rfl⟩, h⟩

/-- The arithmetic of a position, on the image, the measured text and the margins. -/
def PositionFits (imgW imgH textW textH marginX marginY : UInt32) : WatermarkPosition → Prop
  | .topLeft => True
  | .topRight => AxisFits imgW textW marginX
  | .bottomLeft => AxisFits imgH textH marginY
  | .bottomRight => AxisFits imgW textW marginX ∧ AxisFits imgH textH marginY
  | .center => InI32 (imgW.toInt32.toInt - textW.toInt32.toInt) ∧
      InI32 (imgH.toInt32.toInt - textH.toInt32.toInt)
  | .tile => False

theorem calculatePosition_returned (imgW imgH : UInt32) (text : String) (fontSize : Float32)
    (font : Font) (position : WatermarkPosition) (marginX marginY : UInt32) :
    (∃ xy, calculatePosition imaging imgW imgH text fontSize font position marginX marginY =
      .returned xy) ↔
    PositionFits imgW imgH (imaging.textSize fontSize font text).1 (ceilToUInt32 fontSize)
      marginX marginY position := by
  cases position with
  | topLeft => simp [calculatePosition, PositionFits]
  | topRight => simp [calculatePosition, PositionFits, axis_returned]
  | bottomLeft => simp [calculatePosition, PositionFits, axis_returned]
  | bottomRight => simp [calculatePosition, PositionFits, axis_returned]
  | center =>
    simp only [calculatePosition, PositionFits, Run.andThen_returned, subI32_returned]
    constructor
    · rintro ⟨xy, x, ⟨hx, -⟩, y, ⟨hy, -⟩, -⟩
      exact ⟨hx, hy⟩
    · rintro ⟨hx, hy⟩
      exact ⟨_, _, ⟨hx, rfl⟩, _, ⟨hy, rfl⟩, rfl⟩
  | tile => simp [calculatePosition, PositionFits]

/-- The tiling of an image by a text measured `textW` wide and `textH` high: the counters of both
loops pass the image before they overflow. -/
def TilesEnd (imgW imgH textW textH : UInt32) : Prop :=
  imgH.toNat = 0 ∨
    CoversFrom counterBound imgW.toNat (textW.toFloat32 * 3).toUInt32.toNat 0 ∧
    CoversFrom counterBound imgH.toNat (textH.toFloat32 * 5).toUInt32.toNat 0

theorem drawTiled_returned (canvas : Image Pixels) (font : Font) (text : String)
    (fontSize : Float32) (color : Rgba) :
    (∃ fuel r, drawTiled imaging fuel canvas font text fontSize color = .returned r) ↔
    TilesEnd canvas.width canvas.height (imaging.textSize fontSize font text).1
      (ceilToUInt32 fontSize) := by
  unfold drawTiled TilesEnd
  simp only [Run.andThen_returned]
  constructor
  · rintro ⟨fuel, r, pixels, hloop, -⟩
    rcases Nat.eq_zero_or_pos canvas.height.toNat with hz | hpos
    · exact .inl hz
    · obtain ⟨_, hrow⟩ := body_returned hpos hloop
      exact .inr ⟨covers_of_returned (by decide) hrow, covers_of_returned (by decide) hloop⟩
  · rintro (hz | ⟨⟨m, hm, hmb⟩, ⟨k, hk, hkb⟩⟩)
    · exact ⟨1, _, _, by rw [whileBelow, if_neg (by omega)], rfl⟩
    · -- The longer of the two loops bounds the fuel of both.
      obtain ⟨pixels, hloop⟩ := returned_of_covers (s := canvas.pixels)
        (fun y pixels => returned_of_covers (fun x pixels => ⟨_, rfl⟩) hm hmb
          (Nat.lt_succ_of_le (le_max_left m k))) hk hkb (Nat.lt_succ_of_le (le_max_right m k))
      exact ⟨_, _, pixels, hloop, rfl⟩

theorem three_valued : Valued (3 : Float32).toModel.unpack 3 :=
  ⟨3 * 2 ^ 22, -22, by decide, rfl, by decide, by decide, by decide⟩

theorem five_valued : Valued (5 : Float32).toModel.unpack 5 :=
  ⟨5 * 2 ^ 21, -21, by decide, rfl, by decide, by decide, by decide⟩

theorem tripled_eq_zero (n : UInt32) : (n.toFloat32 * 3).toUInt32 = 0 ↔ n = 0 :=
  scaled_eq_zero_iff three_valued (by norm_num) (by decide) n

theorem fivefold_eq_zero (n : UInt32) : (n.toFloat32 * 5).toUInt32 = 0 ↔ n = 0 :=
  scaled_eq_zero_iff five_valued (by norm_num) (by decide) n

/-- For an image of at most half the range of a counter, only an empty step keeps a loop going. -/
theorem tilesEnd_iff {imgW imgH textW : UInt32} {fontSize : Float32}
    (hw : imgW.toNat ≤ 2147483648) (hh : imgH.toNat ≤ 2147483648) :
    TilesEnd imgW imgH textW (ceilToUInt32 fontSize) ↔
      imgH = 0 ∨ (imgW = 0 ∨ textW ≠ 0) ∧ (0 : Float32) < fontSize := by
  have hbound : ∀ n : UInt32, n.toNat < counterBound := fun n => n.toNat_lt
  have hzero : ∀ n : UInt32, n.toNat = 0 ↔ n = 0 := fun n => UInt32.toNat_inj (b := 0)
  rw [TilesEnd, covers_iff (by rw [counterBound]; omega) (hbound _),
    covers_iff (by rw [counterBound]; omega) (hbound _)]
  simp only [ne_eq, hzero, tripled_eq_zero, fivefold_eq_zero]
  rw [← ne_eq (ceilToUInt32 fontSize), ceilToUInt32_ne_zero_iff]
  by_cases h : imgH = 0
  · simp only [h, true_or]
  · simp only [h, false_or]

/-! ## The whole call -/

/-- The font size of a watermark on an image. -/
def fontSizeOn (img : Image Pixels) (config : WatermarkConfig) : Float32 :=
  let w := img.width.toFloat32
  let h := img.height.toFloat32
  scaledFontSize (w * w + h * h).sqrt config.fontSize config.scale

/-- No slice of the colour ends inside a character and, once the colour is accepted, the tiling
ends or the placing stays within `i32`. -/
def Survives (img : Image Pixels) (config : WatermarkConfig) : Prop :=
  config.enabled → config.text ≠ "" → ∀ font, loadFontArc imaging config.font = .ok font →
    ¬ CutColour config.color ∧ ∀ color, parseRgba config.color = .returned (.ok color) →
      let textW := (imaging.textSize (fontSizeOn img config) font config.text).1
      let textH := ceilToUInt32 (fontSizeOn img config)
      if config.position = .tile then TilesEnd img.width img.height textW textH
      else PositionFits img.width.toFloat32.toUInt32 img.height.toFloat32.toUInt32 textW textH
        config.marginX config.marginY config.position

theorem returns_iff (img : Image Pixels) (config : WatermarkConfig) :
    (∃ fuel result, applyWatermark imaging fuel img config = .returned result) ↔
      Survives imaging img config := by
  unfold applyWatermark Survives
  by_cases hoff : (!config.enabled || config.text.isEmpty) = true
  · simp only [hoff, if_true]
    refine iff_of_true ⟨0, _, rfl⟩ fun hen htext => ?_
    simp [hen, htext] at hoff
  · have hon : config.enabled = true ∧ config.text ≠ "" := by
      simpa using hoff
    simp only [if_neg hoff]
    simp only [hon.1, ne_eq, hon.2, not_false_eq_true, forall_const]
    cases hfont : loadFontArc imaging config.font with
    | error e => simp
    | ok font =>
      simp only [Except.ok.injEq, forall_eq']
      rw [← parseRgba_panicked]
      cases hcolor : parseRgba config.color with
      | outOfFuel => exact absurd hcolor (parseRgba_ends _)
      | panicked => simp
      | returned parsed =>
        cases parsed with
        | error e => simp
        | ok color =>
          simp only [Run.returned_andThen, reduceCtorEq, not_false_eq_true, Run.returned.injEq,
            Except.ok.injEq, forall_eq', true_and]
          have hplaced := calculatePosition_returned imaging img.width.toFloat32.toUInt32
            img.height.toFloat32.toUInt32 config.text (fontSizeOn img config) font config.position
            config.marginX config.marginY
          cases hpos : config.position with
          | tile =>
            rw [if_pos rfl, ← drawTiled_returned imaging
              { img with pixels := imaging.toRgba8 img.pixels } font config.text
              (fontSizeOn img config) color]
            exact exists_congr fun fuel => Run.exists_returned
          | _ =>
            rw [hpos] at hplaced
            rw [if_neg (by simp), ← hplaced]
            exact (exists_const ℕ).trans Run.exists_returned

/-! ## Two configs that stop a worker -/

/-- Every font loads and each character is ten pixels wide. -/
def monospaced : Imaging Unit Unit where
  tryFromVec _ := some ()
  toRgba8 := id
  textSize _ _ text := (10 * UInt32.ofNat text.length, 20)
  drawTextMut _ _ _ _ _ _ _ := ()

def smallImage : Image Unit := ⟨200, 150, ()⟩

def euroColor : WatermarkConfig := { enabled := true, text := "pichost", color := "#€€" }

def flatTile : WatermarkConfig :=
  { enabled := true, text := "pichost", fontSize := 0, position := .tile }

/-- The first slice of the colour ends inside a euro sign; the rows of the tiling are not apart. -/
theorem worker_stopped :
    (¬ ∃ fuel result, applyWatermark monospaced fuel smallImage euroColor = .returned result) ∧
    ¬ ∃ fuel result, applyWatermark monospaced fuel smallImage flatTile = .returned result := by
  have hcolor : parseRgba euroColor.color = .panicked := by decide +kernel
  constructor
  · rintro ⟨fuel, result, h⟩
    unfold applyWatermark at h
    rw [hcolor] at h
    cases h
  · rintro ⟨fuel, result, h⟩
    have hwhite : parseRgba flatTile.color = .returned (.ok ⟨255, 255, 255, 127⟩) := by
      decide +kernel
    have hflat : ceilToUInt32 (fontSizeOn smallImage flatTile) = 0 := by decide +kernel
    have hfont : loadFontArc monospaced flatTile.font = .ok () := by decide +kernel
    unfold applyWatermark at h
    rw [if_neg (by decide), hfont, hwhite] at h
    simp only [Run.returned_andThen] at h
    obtain ⟨canvas, hdraw, -⟩ := Run.andThen_returned.mp h
    have hend := (drawTiled_returned monospaced smallImage () flatTile.text
      (fontSizeOn smallImage flatTile) ⟨255, 255, 255, 127⟩).mp ⟨fuel, canvas, hdraw⟩
    rw [tilesEnd_iff (by decide) (by decide), ← ceilToUInt32_ne_zero_iff] at hend
    rcases hend with h150 | ⟨-, hpos⟩
    · exact absurd h150 (by decide)
    · exact hpos hflat

end PicHost.Watermark
