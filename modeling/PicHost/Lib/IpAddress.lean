import Mathlib.Data.Nat.Notation
import Mathlib.Tactic.NormNum
import PicHost.Lib.IntText

/-!
# Internet addresses

Blocks of addresses, which addresses are public, and the text of an address.
-/

namespace IpAddress

structure Ipv4 where
  a : UInt8
  b : UInt8
  c : UInt8
  d : UInt8
deriving DecidableEq

structure Ipv6 where
  s0 : UInt16
  s1 : UInt16
  s2 : UInt16
  s3 : UInt16
  s4 : UInt16
  s5 : UInt16
  s6 : UInt16
  s7 : UInt16
deriving DecidableEq

inductive IpAddr
  | v4 (address : Ipv4)
  | v6 (address : Ipv6)
deriving DecidableEq

def Ipv4.toNat (x : Ipv4) : ℕ :=
  x.a.toNat * 2 ^ 24 + x.b.toNat * 2 ^ 16 + x.c.toNat * 2 ^ 8 + x.d.toNat

def Ipv6.toNat (x : Ipv6) : ℕ :=
  [x.s0, x.s1, x.s2, x.s3, x.s4, x.s5, x.s6, x.s7].foldl (fun n s => n * 2 ^ 16 + s.toNat) 0

/-- The addresses that differ from `base` in their last `hostBits` bits only. -/
structure Block where
  base : ℕ
  hostBits : ℕ

def Block.contains (block : Block) (n : ℕ) : Bool :=
  n / 2 ^ block.hostBits == block.base / 2 ^ block.hostBits

namespace Ipv4

def block (x : Ipv4) (length : ℕ) : Block := ⟨x.toNat, 32 - length⟩

/-- This network, private networks, shared address space, loopback, link-local, protocol
assignments, documentation, benchmarks, multicast and the reserved rest. -/
def reserved : List Block :=
  [block ⟨0, 0, 0, 0⟩ 8, block ⟨10, 0, 0, 0⟩ 8, block ⟨100, 64, 0, 0⟩ 10,
    block ⟨127, 0, 0, 0⟩ 8, block ⟨169, 254, 0, 0⟩ 16, block ⟨172, 16, 0, 0⟩ 12,
    block ⟨192, 0, 0, 0⟩ 24, block ⟨192, 0, 2, 0⟩ 24, block ⟨192, 168, 0, 0⟩ 16,
    block ⟨198, 18, 0, 0⟩ 15, block ⟨198, 51, 100, 0⟩ 24, block ⟨203, 0, 113, 0⟩ 24,
    block ⟨224, 0, 0, 0⟩ 4, block ⟨240, 0, 0, 0⟩ 4]

def isPublic (x : Ipv4) : Bool := reserved.all fun block => !block.contains x.toNat

/-! Membership in a block whose length ends in the first, the second or the third octet. -/

theorem toNat_div_octet (x : Ipv4) : x.toNat / 2 ^ 24 = x.a.toNat ∧
    x.toNat / 2 ^ 16 = x.a.toNat * 2 ^ 8 + x.b.toNat ∧
    x.toNat / 2 ^ 8 = (x.a.toNat * 2 ^ 8 + x.b.toNat) * 2 ^ 8 + x.c.toNat := by
  have hb := x.b.toNat_lt
  have hc := x.c.toNat_lt
  have hd := x.d.toNat_lt
  simp only [toNat]
  omega

theorem contains_block_one (x : Ipv4) (p : UInt8) {length : ℕ} (h : length ≤ 8) :
    (block ⟨p, 0, 0, 0⟩ length).contains x.toNat =
      decide (x.a.toNat / 2 ^ (8 - length) = p.toNat / 2 ^ (8 - length)) := by
  have hbits : 2 ^ (32 - length) = 2 ^ 24 * 2 ^ (8 - length) := by
    rw [← Nat.pow_add]
    congr 1
    omega
  simp only [Block.contains, block, hbits, ← Nat.div_div_eq_div_mul, (toNat_div_octet _).1]
  rfl

theorem contains_block_two (x : Ipv4) (p q : UInt8) {length : ℕ} (h : 8 < length)
    (h' : length ≤ 16) : (block ⟨p, q, 0, 0⟩ length).contains x.toNat =
      decide (x.a = p ∧ x.b.toNat / 2 ^ (16 - length) = q.toNat / 2 ^ (16 - length)) := by
  have hbits : 2 ^ (32 - length) = 2 ^ 16 * 2 ^ (16 - length) := by
    rw [← Nat.pow_add]
    congr 1
    omega
  have hbyte : 2 ^ 8 = 2 ^ (length - 8) * 2 ^ (16 - length) := by
    rw [← Nat.pow_add]
    congr 1
    omega
  have hquotient : ∀ n r : ℕ, (n * 2 ^ 8 + r) / 2 ^ (16 - length) =
      n * 2 ^ (length - 8) + r / 2 ^ (16 - length) := by
    intro n r
    rw [hbyte, ← Nat.mul_assoc, Nat.mul_comm _ (2 ^ (16 - length)),
      Nat.mul_add_div (Nat.two_pow_pos _)]
  have hrest : ∀ r : UInt8, r.toNat / 2 ^ (16 - length) < 2 ^ (length - 8) := fun r =>
    Nat.div_lt_of_lt_mul (by rw [Nat.mul_comm, ← hbyte]; exact r.toNat_lt)
  rw [Bool.eq_iff_iff, decide_eq_true_eq, Block.contains, beq_iff_eq]
  simp only [block, hbits, ← Nat.div_div_eq_div_mul, (toNat_div_octet _).2.1, hquotient,
    ← UInt8.toNat_inj]
  constructor
  · intro heq
    have hfirst : x.a.toNat = p.toNat := by
      have hdiv := congrArg (· / 2 ^ (length - 8)) heq
      simpa [Nat.mul_comm _ (2 ^ (length - 8)), Nat.mul_add_div (Nat.two_pow_pos _),
        Nat.div_eq_of_lt (hrest _)] using hdiv
    rw [hfirst] at heq
    exact ⟨hfirst, Nat.add_left_cancel heq⟩
  · rintro ⟨hfirst, hsecond⟩
    rw [hfirst, hsecond]

theorem contains_block_three (x : Ipv4) (p q r : UInt8) :
    (block ⟨p, q, r, 0⟩ 24).contains x.toNat = decide (x.a = p ∧ x.b = q ∧ x.c = r) := by
  have hb := x.b.toNat_lt
  have hc := x.c.toNat_lt
  have hq := q.toNat_lt
  have hr := r.toNat_lt
  rw [Bool.eq_iff_iff, decide_eq_true_eq, Block.contains, beq_iff_eq]
  simp only [block, (toNat_div_octet _).2.2, ← UInt8.toNat_inj, Nat.reduceSub]
  omega

end Ipv4

namespace Ipv6

def block (x : Ipv6) (length : ℕ) : Block := ⟨x.toNat, 128 - length⟩

/-- Unspecified, loopback, unique local, link-local, multicast and documentation. -/
def reserved : List Block :=
  [block ⟨0, 0, 0, 0, 0, 0, 0, 0⟩ 128, block ⟨0, 0, 0, 0, 0, 0, 0, 1⟩ 128,
    block ⟨0xfc00, 0, 0, 0, 0, 0, 0, 0⟩ 7, block ⟨0xfe80, 0, 0, 0, 0, 0, 0, 0⟩ 10,
    block ⟨0xff00, 0, 0, 0, 0, 0, 0, 0⟩ 8, block ⟨0x2001, 0xdb8, 0, 0, 0, 0, 0, 0⟩ 32]

/-- The blocks whose addresses carry one of the other family: compatible, mapped, translated. -/
def embedding : List Block :=
  [block ⟨0, 0, 0, 0, 0, 0, 0, 0⟩ 96, block ⟨0, 0, 0, 0, 0, 0xffff, 0, 0⟩ 96,
    block ⟨0x64, 0xff9b, 0, 0, 0, 0, 0, 0⟩ 96]

/-- The last 32 bits. -/
def lastIpv4 (x : Ipv6) : Ipv4 :=
  ⟨(x.s6 >>> 8).toUInt8, x.s6.toUInt8, (x.s7 >>> 8).toUInt8, x.s7.toUInt8⟩

def isPublic (x : Ipv6) : Bool :=
  reserved.all (fun block => !block.contains x.toNat) &&
    (!embedding.any (·.contains x.toNat) || x.lastIpv4.isPublic)

end Ipv6

def IpAddr.isPublic : IpAddr → Bool
  | .v4 x => x.isPublic
  | .v6 x => x.isPublic

/-- The mapped loopback address. -/
example : IpAddr.isPublic (.v6 ⟨0, 0, 0, 0, 0, 0xffff, 0x7f00, 1⟩) = false := by decide

/-! ## The text of an address -/

namespace Ipv4

/-- The decimal numbers of the octets, with full stops between them. -/
def text (x : Ipv4) : String :=
  String.ofList (['.'].intercalate
    ([x.a, x.b, x.c, x.d].map fun octet => Nat.toDigits 10 octet.toNat))

theorem toList_text (x : Ipv4) : x.text.toList =
    Nat.toDigits 10 x.a.toNat ++ '.' :: (Nat.toDigits 10 x.b.toNat ++ '.' ::
      (Nat.toDigits 10 x.c.toNat ++ '.' :: Nat.toDigits 10 x.d.toNat)) := by
  simp [text, List.intercalate_cons_cons]

theorem isDigit_of_mem_octet {octet : UInt8} {c : Char}
    (h : c ∈ Nat.toDigits 10 octet.toNat) : c.isDigit = true :=
  Nat.isDigit_of_mem_toDigits (by decide) (by decide) h

theorem isDigit_or_of_mem_text {x : Ipv4} {c : Char} (h : c ∈ x.text.toList) :
    c.isDigit = true ∨ c = '.' := by
  rw [toList_text] at h
  simp only [List.mem_append, List.mem_cons] at h
  rcases h with h | rfl | h | rfl | h | rfl | h
  · exact .inl (isDigit_of_mem_octet h)
  · exact .inr rfl
  · exact .inl (isDigit_of_mem_octet h)
  · exact .inr rfl
  · exact .inl (isDigit_of_mem_octet h)
  · exact .inr rfl
  · exact .inl (isDigit_of_mem_octet h)

theorem octet_injective {m n : UInt8}
    (h : Nat.toDigits 10 m.toNat = Nat.toDigits 10 n.toNat) : m = n := by
  have hdigits := congrArg IntText.digits h
  rw [IntText.digits_toDigits, IntText.digits_toDigits] at hdigits
  exact UInt8.toNat_inj.mp (Option.some.inj hdigits)

/-- Lists with one separator after what has none. -/
theorem separated_inj {α : Type*} {sep : α} {l l' r r' : List α} (hl : sep ∉ l) (hl' : sep ∉ l')
    (h : l ++ sep :: r = l' ++ sep :: r') : l = l' ∧ r = r' := by
  induction l generalizing l' with
  | nil =>
    cases l' with
    | nil => exact ⟨rfl, (List.cons.inj h).2⟩
    | cons a l' => exact absurd ((List.cons.inj h).1 ▸ List.mem_cons_self) hl'
  | cons a l ih =>
    cases l' with
    | nil => exact absurd ((List.cons.inj h).1 ▸ List.mem_cons_self) hl
    | cons b l' =>
      obtain ⟨rfl, htail⟩ := List.cons.inj h
      obtain ⟨rfl, hr⟩ := ih (fun hmem => hl (List.mem_cons_of_mem _ hmem))
        (fun hmem => hl' (List.mem_cons_of_mem _ hmem)) htail
      exact ⟨rfl, hr⟩

theorem text_injective : Function.Injective text := by
  intro x y h
  have hstop (octet : UInt8) : '.' ∉ Nat.toDigits 10 octet.toNat := fun hmem =>
    absurd (isDigit_of_mem_octet hmem) (by decide)
  have hl := congrArg String.toList h
  rw [toList_text, toList_text] at hl
  obtain ⟨ha, hl⟩ := separated_inj (hstop _) (hstop _) hl
  obtain ⟨hb, hl⟩ := separated_inj (hstop _) (hstop _) hl
  obtain ⟨hc, hd⟩ := separated_inj (hstop _) (hstop _) hl
  exact (Ipv4.mk.injEq ..).mpr
    ⟨octet_injective ha, octet_injective hb, octet_injective hc, octet_injective hd⟩

end Ipv4

end IpAddress
