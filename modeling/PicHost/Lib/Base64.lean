import PicHost.Lib.Codec

/-!
# Base64

The standard alphabet with padding. A reader refuses a text whose last group is not full, and one
in which the bits left over are not zero.
-/

namespace Base64

open Serialised

/-- The character of a value below 64. -/
def digit (n : ℕ) : Char :=
  if n < 26 then Char.ofNat (65 + n)
  else if n < 52 then Char.ofNat (71 + n)
  else if n < 62 then Char.ofNat (n - 4)
  else if n = 62 then '+'
  else '/'

def value (c : Char) : Option ℕ :=
  if 'A' ≤ c ∧ c ≤ 'Z' then some (c.toNat - 65)
  else if 'a' ≤ c ∧ c ≤ 'z' then some (c.toNat - 71)
  else if '0' ≤ c ∧ c ≤ '9' then some (c.toNat + 4)
  else if c = '+' then some 62
  else if c = '/' then some 63
  else none

def encode : List UInt8 → List Char
  | a :: b :: c :: rest =>
    digit (a.toNat / 4) :: digit (a.toNat % 4 * 16 + b.toNat / 16) ::
      digit (b.toNat % 16 * 4 + c.toNat / 64) :: digit (c.toNat % 64) :: encode rest
  | [a, b] =>
    [digit (a.toNat / 4), digit (a.toNat % 4 * 16 + b.toNat / 16), digit (b.toNat % 16 * 4), '=']
  | [a] => [digit (a.toNat / 4), digit (a.toNat % 4 * 16), '=', '=']
  | [] => []

/-- Two characters before the padding. -/
def decodeOne (a b : Char) : Option (List UInt8) := do
  let a ← value a
  let b ← value b
  if b % 16 = 0 then some [UInt8.ofNat (4 * a + b / 16)] else none

/-- Three characters before the padding. -/
def decodeTwo (a b c : Char) : Option (List UInt8) := do
  let a ← value a
  let b ← value b
  let c ← value c
  if c % 4 = 0 then some [UInt8.ofNat (4 * a + b / 16), UInt8.ofNat (b % 16 * 16 + c / 4)]
  else none

def decodeThree (a b c d : Char) : Option (List UInt8) := do
  let a ← value a
  let b ← value b
  let c ← value c
  let d ← value d
  some [UInt8.ofNat (4 * a + b / 16), UInt8.ofNat (b % 16 * 16 + c / 4),
    UInt8.ofNat (c % 4 * 64 + d)]

def decode : List Char → Option (List UInt8)
  | [] => some []
  | a :: b :: c :: d :: rest =>
    if rest = [] ∧ d = '=' then if c = '=' then decodeOne a b else decodeTwo a b c
    else (decodeThree a b c d).bind fun bytes => (decode rest).map (bytes ++ ·)
  | _ => none

theorem value_digit : ∀ n < 64, value (digit n) = some n := by decide

/-- The padding is no digit. -/
theorem digit_ne_pad {n : ℕ} (h : n < 64) : digit n ≠ '=' := by
  intro heq
  have hvalue := value_digit n h
  rw [heq] at hvalue
  cases hvalue

theorem ofNat_eq {n : ℕ} {b : UInt8} (h : n = b.toNat) : UInt8.ofNat n = b := by
  rw [h, UInt8.ofNat_toNat]

theorem decodeOne_digits (a : UInt8) :
    decodeOne (digit (a.toNat / 4)) (digit (a.toNat % 4 * 16)) = some [a] := by
  have ha := a.toNat_lt
  rw [decodeOne, value_digit _ (by omega), value_digit _ (by omega)]
  show (if a.toNat % 4 * 16 % 16 = 0 then _ else none) = _
  rw [if_pos (by omega), ofNat_eq (b := a) (by omega)]

theorem decodeTwo_digits (a b : UInt8) :
    decodeTwo (digit (a.toNat / 4)) (digit (a.toNat % 4 * 16 + b.toNat / 16))
      (digit (b.toNat % 16 * 4)) = some [a, b] := by
  have ha := a.toNat_lt
  have hb := b.toNat_lt
  rw [decodeTwo, value_digit _ (by omega), value_digit _ (by omega), value_digit _ (by omega)]
  show (if b.toNat % 16 * 4 % 4 = 0 then _ else none) = _
  rw [if_pos (by omega), ofNat_eq (b := a) (by omega), ofNat_eq (b := b) (by omega)]

theorem decodeThree_digits (a b c : UInt8) :
    decodeThree (digit (a.toNat / 4)) (digit (a.toNat % 4 * 16 + b.toNat / 16))
      (digit (b.toNat % 16 * 4 + c.toNat / 64)) (digit (c.toNat % 64)) = some [a, b, c] := by
  have ha := a.toNat_lt
  have hb := b.toNat_lt
  have hc := c.toNat_lt
  rw [decodeThree, value_digit _ (by omega), value_digit _ (by omega), value_digit _ (by omega),
    value_digit _ (by omega)]
  show some _ = _
  rw [ofNat_eq (b := a) (by omega), ofNat_eq (b := b) (by omega), ofNat_eq (b := c) (by omega)]

theorem decode_encode (bytes : List UInt8) : decode (encode bytes) = some bytes := by
  induction bytes using encode.induct with
  | case1 a b c rest ih =>
    have hpad := digit_ne_pad (n := c.toNat % 64) (Nat.mod_lt _ (by decide))
    rw [encode, decode, if_neg fun h => hpad h.2, decodeThree_digits, ih]
    rfl
  | case2 a b =>
    have hpad := digit_ne_pad (n := b.toNat % 16 * 4) (by omega)
    rw [encode, decode, if_pos ⟨rfl, rfl⟩, if_neg hpad, decodeTwo_digits]
  | case3 a => rw [encode, decode, if_pos ⟨rfl, rfl⟩, if_pos rfl, decodeOne_digits]
  | case4 => rfl

/-- The text of some bytes. -/
def codec : Codec (List UInt8) String where
  encode bytes := String.ofList (encode bytes)
  decode s := decode s.toList
  decode_encode bytes := by rw [String.toList_ofList, decode_encode]

end Base64
