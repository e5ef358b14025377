import PicHost.Lib.Radix

/-! # UUIDs and their text -/

namespace PicHost

/-- A 128-bit identifier. -/
abbrev Uuid := BitVec 128

instance : LawfulBEq Uuid := inferInstance

namespace Uuid

/-- `Uuid::nil()`. -/
def nil : Uuid := 0

def isNil (u : Uuid) : Bool := u == nil

/-- `8-4-4-4-12`. -/
def hyphenate (cs : List Char) : List Char :=
  cs.take 8 ++ '-' :: ((cs.drop 8).take 4 ++ '-' :: ((cs.drop 12).take 4 ++ '-' ::
    ((cs.drop 16).take 4 ++ '-' :: cs.drop 20)))

/-- `Uuid::to_string`: 32 lower-case digits, hyphenated. -/
def toText (u : Uuid) : String := String.ofList (hyphenate (Radix.hex.encode 32 u.toNat))

def parseSimple (cs : List Char) : Option Uuid :=
  if cs.length = 32 then (Radix.hex.decode cs).map (BitVec.ofNat 128) else none

def parseHyphenated (cs : List Char) : Option Uuid :=
  if cs[8]? = some '-' ∧ cs[13]? = some '-' ∧ cs[18]? = some '-' ∧ cs[23]? = some '-' then
    parseSimple (cs.take 8 ++ ((cs.drop 9).take 4 ++ ((cs.drop 14).take 4 ++
      ((cs.drop 19).take 4 ++ cs.drop 24))))
  else none

/-- `Uuid::parse_str`: bare digits, hyphenated, in braces, or as a URN. -/
def parseStr (s : String) : Option Uuid :=
  let cs := s.toList
  if cs.length = 32 then parseSimple cs
  else if cs.length = 36 then parseHyphenated cs
  else if cs.length = 38 ∧ cs.head? = some '{' ∧ cs.getLast? = some '}' then
    parseHyphenated ((cs.drop 1).take 36)
  else if cs.length = 45 ∧ cs.take 9 = "urn:uuid:".toList then parseHyphenated (cs.drop 9)
  else none

theorem hyphenate_parts {a b c d e : List Char} (ha : a.length = 8) (hb : b.length = 4)
    (hc : c.length = 4) (hd : d.length = 4) :
    hyphenate (a ++ (b ++ (c ++ (d ++ e)))) =
      a ++ '-' :: (b ++ '-' :: (c ++ '-' :: (d ++ '-' :: e))) := by
  simp [hyphenate, List.drop_append, ha, hb, hc, hd, List.drop_of_length_le]

theorem exists_parts {cs : List Char} (h : cs.length = 32) :
    ∃ a b c d e : List Char, cs = a ++ (b ++ (c ++ (d ++ e))) ∧ a.length = 8 ∧ b.length = 4 ∧
      c.length = 4 ∧ d.length = 4 ∧ e.length = 12 := by
  refine ⟨cs.take 8, (cs.drop 8).take 4, (cs.drop 12).take 4, (cs.drop 16).take 4, cs.drop 20,
    ?_, by simp [h], by simp [h], by simp [h], by simp [h], by simp [h]⟩
  have h4 : cs.drop 16 = (cs.drop 16).take 4 ++ cs.drop 20 := by
    conv_lhs => rw [← List.take_append_drop 4 (cs.drop 16), List.drop_drop]
  have h3 : cs.drop 12 = (cs.drop 12).take 4 ++ cs.drop 16 := by
    conv_lhs => rw [← List.take_append_drop 4 (cs.drop 12), List.drop_drop]
  have h2 : cs.drop 8 = (cs.drop 8).take 4 ++ cs.drop 12 := by
    conv_lhs => rw [← List.take_append_drop 4 (cs.drop 8), List.drop_drop]
  rw [← h4, ← h3, ← h2, List.take_append_drop]

theorem parseHyphenated_hyphenate {cs : List Char} (h : cs.length = 32) :
    parseHyphenated (hyphenate cs) = parseSimple cs := by
  obtain ⟨a, b, c, d, e, rfl, ha, hb, hc, hd, he⟩ := exists_parts h
  rw [hyphenate_parts ha hb hc hd]
  simp [parseHyphenated, List.getElem?_append, List.drop_append, ha, hb, hc, hd,
    List.drop_of_length_le]

theorem length_hyphenate {cs : List Char} (h : cs.length = 32) :
    (hyphenate cs).length = 36 := by
  simp [hyphenate, h]

/-- Reading back the text of an identifier. -/
theorem parseStr_toText (u : Uuid) : parseStr (toText u) = some u := by
  have hl : (Radix.hex.encode 32 u.toNat).length = 32 := Radix.hex.length_encode _ _
  have hu : u.toNat < 16 ^ 32 := u.isLt
  simp only [parseStr, toText, String.toList_ofList, length_hyphenate hl]
  rw [if_neg (by decide), if_pos trivial, parseHyphenated_hyphenate hl, parseSimple, if_pos hl,
    Radix.hex.decode_encode hu, Option.map_some, BitVec.ofNat_toNat, BitVec.setWidth_eq]

theorem toText_injective : Function.Injective toText := by
  intro u v h
  have hp := congrArg parseStr h
  rw [parseStr_toText, parseStr_toText] at hp
  exact Option.some.inj hp

theorem length_toText (u : Uuid) : (toText u).length = 36 := by
  rw [← String.length_toList, toText, String.toList_ofList]
  exact length_hyphenate (Radix.hex.length_encode _ _)

/-- A shorter or longer name is no identifier. -/
theorem toText_ne {u : Uuid} {s : String} (h : s.length ≠ 36) : toText u ≠ s := by
  rintro rfl
  exact h (length_toText u)

/-- The text of an identifier holds digits and hyphens only. -/
theorem notMem_toText {c : Char} (hhyphen : c ≠ '-') (hdigit : ∀ v < 16, Radix.hex.digit v ≠ c)
    (u : Uuid) : c ∉ (toText u).toList := by
  have hd : c ∉ Radix.hex.encode 32 u.toNat := Radix.hex.not_mem_encode hdigit _ _
  have ht : ∀ n m, c ∉ ((Radix.hex.encode 32 u.toNat).drop n).take m := fun n m h =>
    hd (List.mem_of_mem_drop (List.mem_of_mem_take h))
  simp only [toText, String.toList_ofList, hyphenate, List.mem_append, List.mem_cons, not_or]
  exact ⟨fun h => hd (List.mem_of_mem_take h), hhyphen, ht 8 4, hhyphen, ht 12 4, hhyphen,
    ht 16 4, hhyphen, fun h => hd (List.mem_of_mem_drop h)⟩

attribute [irreducible] toText

end Uuid

end PicHost
