import Mathlib.Algebra.Ring.Nat
import Mathlib.Data.Fin.VecNotation
import Mathlib.Data.Fintype.Basic
import Mathlib.Data.List.Basic

/-!
# Blocks of IP addresses

An address is a string of four or sixteen bytes. A block is an address and the length of
a prefix: it holds the addresses that agree with it on so many bits. Of two blocks that
meet, one lies in the other, and `mem_iff_base_mem` says which: whether an address of the
longer block is in the shorter one is a question about the base of the longer one.

The second half says which addresses are *public*: globally routable unicast addresses,
by the registries of special-purpose addresses, and which IPv4 addresses an IPv6 address
carries in one of the standard forms.
-/

namespace Ip

open Nat

abbrev Addr (n : Nat) := Fin n → UInt8

-- the numbers of bytes and of segments, for the literals that index them
scoped instance neZero_four : NeZero (4 : Nat) := ⟨by decide⟩

scoped instance neZero_eight : NeZero (8 : Nat) := ⟨by decide⟩

scoped instance neZero_sixteen : NeZero (16 : Nat) := ⟨by decide⟩

structure Block (n : Nat) where
  base : Addr n
  len : Nat

def Agree (k : Nat) (a b : UInt8) : Prop := a.toNat / 2 ^ (8 - k) = b.toNat / 2 ^ (8 - k)

instance (k : Nat) (a b : UInt8) : Decidable (Agree k a b) := inferInstanceAs (Decidable (_ = _))

def covered (len i : Nat) : Nat := min 8 (len - 8 * i)

variable {n : Nat}

instance : Membership (Addr n) (Block n) :=
  ⟨fun block a => ∀ i : Fin n, Agree (covered block.len i) (a i) (block.base i)⟩

theorem mem_iff {a : Addr n} {block : Block n} :
    a ∈ block ↔ ∀ i : Fin n, Agree (covered block.len i) (a i) (block.base i) := Iff.rfl

instance (a : Addr n) (block : Block n) : Decidable (a ∈ block) :=
  inferInstanceAs (Decidable (∀ i : Fin n, Agree (covered block.len i) (a i) (block.base i)))

theorem Agree.symm (h : Agree k a b) : Agree k b a := Eq.symm h

theorem Agree.trans (hab : Agree k a b) (hbc : Agree k b c) :
    Agree k a c := Eq.trans hab hbc

theorem Agree.mono (hle : k ≤ l) (h : Agree l a b) : Agree k a b := by
  obtain ⟨d, hd⟩ : ∃ d, 8 - k = (8 - l) + d := ⟨(8 - k) - (8 - l), by omega⟩
  unfold Agree at h ⊢
  rw [hd, Nat.pow_add, ← Nat.div_div_eq_div_mul, ← Nat.div_div_eq_div_mul, h]

@[simp] theorem agree_zero (a b : UInt8) : Agree 0 a b := by
  unfold Agree
  rw [div_eq_of_lt a.toNat_lt, div_eq_of_lt b.toNat_lt]

@[simp] theorem agree_eight : Agree 8 a b ↔ a = b := by
  simp [Agree, UInt8.toNat_inj]

theorem covered_mono (hle : k ≤ l) (i : Nat) : covered k i ≤ covered l i := by
  unfold covered
  omega

theorem mem_iff_base_mem {a : Addr n} {short long : Block n} (hlen : short.len ≤ long.len)
    (ha : a ∈ long) : a ∈ short ↔ long.base ∈ short := by
  have hag : ∀ i : Fin n, Agree (covered short.len i) (a i) (long.base i) := fun i =>
    (ha i).mono (covered_mono hlen i)
  constructor
  · intro h i
    exact (hag i).symm.trans (h i)
  · intro h i
    exact (hag i).trans (h i)

theorem mem_of_base_mem {a : Addr n} {short long : Block n} (hlen : short.len ≤ long.len)
    (hbs : long.base ∈ short) (ha : a ∈ long) : a ∈ short :=
  (mem_iff_base_mem hlen ha).mpr hbs

def Apart (b c : Block n) : Prop :=
  (c.len ≤ b.len ∧ b.base ∉ c) ∨ (b.len ≤ c.len ∧ c.base ∉ b)

instance (b c : Block n) : Decidable (Apart b c) := inferInstanceAs (Decidable (_ ∨ _))

theorem Apart.not_mem {a : Addr n} {b c : Block n} (h : Apart b c) (hb : a ∈ b) : a ∉ c := by
  intro hc
  rcases h with ⟨hlen, hbs⟩ | ⟨hlen, hbs⟩
  · exact hbs ((mem_iff_base_mem hlen hb).mp hc)
  · exact hbs ((mem_iff_base_mem hlen hc).mp hb)

theorem mem_host {a base : Addr n} : a ∈ (⟨base, 8 * n⟩ : Block n) ↔ a = base := by
  have hcv : ∀ i : Fin n, covered (8 * n) i = 8 := fun i => by
    unfold covered
    omega
  rw [mem_iff, funext_iff]
  simp only [hcv, agree_eight]

theorem and_mask (x m j : Nat) : x &&& ((2 ^ m - 1) * 2 ^ j) = x / 2 ^ j % 2 ^ m * 2 ^ j := by
  apply eq_of_testBit_eq
  intro i
  rw [testBit_and, testBit_mul_two_pow, testBit_mul_two_pow,
    testBit_two_pow_sub_one, testBit_mod_two_pow, testBit_div_two_pow]
  by_cases hi : j ≤ i
  · simp [hi, Bool.and_comm]
  · simp [hi]

theorem and_eq_iff_agree (hk : k ≤ 8) (hms : mask.toNat = (2 ^ k - 1) * 2 ^ (8 - k))
    (hc : c.toNat % 2 ^ (8 - k) = 0) :
    b &&& mask = c ↔ Agree k b c := by
  have hpow : 2 ^ (8 - k) * 2 ^ k = 2 ^ 8 := by rw [← pow_add]; congr 1; omega
  have hlt : b.toNat / 2 ^ (8 - k) < 2 ^ k := by
    rw [Nat.div_lt_iff_lt_mul (Nat.two_pow_pos _), Nat.mul_comm, hpow]
    exact b.toNat_lt
  rw [← UInt8.toNat_inj, UInt8.toNat_and, hms, and_mask, mod_eq_of_lt hlt]
  unfold Agree
  constructor
  · intro h
    rw [← h, Nat.mul_div_cancel _ (Nat.two_pow_pos _)]
  · intro h
    rw [h, Nat.div_mul_cancel (Nat.dvd_of_mod_eq_zero hc)]

inductive IP where
  | v4 (a : Addr 4)
  | v6 (a : Addr 16)

def groups (g : Fin 8 → Nat) : Addr 16 := fun i =>
  if i.val % 2 = 0 then UInt8.ofNat (g ⟨i.val / 2, by omega⟩ / 256)
  else UInt8.ofNat (g ⟨i.val / 2, by omega⟩)

def low (a : Addr 16) : Addr 4 := ![a 12, a 13, a 14, a 15]

def thisNetwork : Block 4 := ⟨![0, 0, 0, 0], 8⟩
def private10 : Block 4 := ⟨![10, 0, 0, 0], 8⟩
def shared : Block 4 := ⟨![100, 64, 0, 0], 10⟩
def loopback4 : Block 4 := ⟨![127, 0, 0, 0], 8⟩
def linkLocal4 : Block 4 := ⟨![169, 254, 0, 0], 16⟩
def private172 : Block 4 := ⟨![172, 16, 0, 0], 12⟩
def protocol4 : Block 4 := ⟨![192, 0, 0, 0], 24⟩
def documentation1 : Block 4 := ⟨![192, 0, 2, 0], 24⟩
def private192 : Block 4 := ⟨![192, 168, 0, 0], 16⟩
def benchmarking4 : Block 4 := ⟨![198, 18, 0, 0], 15⟩
def documentation2 : Block 4 := ⟨![198, 51, 100, 0], 24⟩
def documentation3 : Block 4 := ⟨![203, 0, 113, 0], 24⟩
def multicast4 : Block 4 := ⟨![224, 0, 0, 0], 4⟩
def reserved4 : Block 4 := ⟨![240, 0, 0, 0], 4⟩

def special4 : List (Block 4) :=
  [thisNetwork, private10, shared, loopback4, linkLocal4, private172, protocol4,
    documentation1, private192, benchmarking4, documentation2, documentation3, multicast4,
    reserved4]

/-- A globally routable unicast address. -/
def Public4 (a : Addr 4) : Prop := ∀ block ∈ special4, a ∉ block

instance (a : Addr 4) : Decidable (Public4 a) :=
  inferInstanceAs (Decidable (∀ block ∈ special4, a ∉ block))

def unspecified6 : Block 16 := ⟨groups ![0, 0, 0, 0, 0, 0, 0, 0], 128⟩
def loopback6 : Block 16 := ⟨groups ![0, 0, 0, 0, 0, 0, 0, 1], 128⟩
def mapped : Block 16 := ⟨groups ![0, 0, 0, 0, 0, 0xffff, 0, 0], 96⟩
def compatible : Block 16 := ⟨groups ![0, 0, 0, 0, 0, 0, 0, 0], 96⟩
def nat64 : Block 16 := ⟨groups ![0x64, 0xff9b, 0, 0, 0, 0, 0, 0], 96⟩
def nat64Local : Block 16 := ⟨groups ![0x64, 0xff9b, 1, 0, 0, 0, 0, 0], 48⟩
def globalUnicast : Block 16 := ⟨groups ![0x2000, 0, 0, 0, 0, 0, 0, 0], 3⟩
def protocol6 : Block 16 := ⟨groups ![0x2001, 0, 0, 0, 0, 0, 0, 0], 23⟩
def teredo : Block 16 := ⟨groups ![0x2001, 0, 0, 0, 0, 0, 0, 0], 32⟩
def documentation6 : Block 16 := ⟨groups ![0x2001, 0xdb8, 0, 0, 0, 0, 0, 0], 32⟩
def sixToFour : Block 16 := ⟨groups ![0x2002, 0, 0, 0, 0, 0, 0, 0], 16⟩
def documentation20 : Block 16 := ⟨groups ![0x3fff, 0, 0, 0, 0, 0, 0, 0], 20⟩
def uniqueLocal : Block 16 := ⟨groups ![0xfc00, 0, 0, 0, 0, 0, 0, 0], 7⟩
def linkLocal6 : Block 16 := ⟨groups ![0xfe80, 0, 0, 0, 0, 0, 0, 0], 10⟩
def multicast6 : Block 16 := ⟨groups ![0xff00, 0, 0, 0, 0, 0, 0, 0], 8⟩

def reachable6 : List (Block 16) :=
  [teredo,
    ⟨groups ![0x2001, 1, 0, 0, 0, 0, 0, 1], 128⟩, ⟨groups ![0x2001, 1, 0, 0, 0, 0, 0, 2], 128⟩,
    ⟨groups ![0x2001, 1, 0, 0, 0, 0, 0, 3], 128⟩, ⟨groups ![0x2001, 3, 0, 0, 0, 0, 0, 0], 32⟩,
    ⟨groups ![0x2001, 4, 0x112, 0, 0, 0, 0, 0], 48⟩, ⟨groups ![0x2001, 0x20, 0, 0, 0, 0, 0, 0], 28⟩,
    ⟨groups ![0x2001, 0x30, 0, 0, 0, 0, 0, 0], 28⟩]

/-- Set aside for protocols, and not reachable. -/
def Protocol6 (a : Addr 16) : Prop := a ∈ protocol6 ∧ ∀ block ∈ reachable6, a ∉ block

/-- A globally routable unicast address. Translation addresses count as such. -/
def Global6 (a : Addr 16) : Prop :=
  a ∈ nat64 ∨
    (a ∈ globalUnicast ∧ ¬ Protocol6 a ∧ a ∉ documentation6 ∧ a ∉ documentation20)

def router (a : Addr 16) : Addr 4 := ![a 2, a 3, a 4, a 5]

def server (a : Addr 16) : Addr 4 := ![a 4, a 5, a 6, a 7]

def client (a : Addr 16) : Addr 4 :=
  ![a 12 ^^^ 0xff, a 13 ^^^ 0xff, a 14 ^^^ 0xff, a 15 ^^^ 0xff]

/-- The standard forms that carry an IPv4 address, each with where it stands. Under a
prefix of 48 bits it goes around the ninth byte; a Teredo address carries two. -/
def forms : List (Block 16 × (Addr 16 → Addr 4)) :=
  [(mapped, low), (compatible, low), (nat64, low),
    (nat64Local, fun a => ![a 6, a 7, a 9, a 10]),
    (sixToFour, router), (teredo, server), (teredo, client)]

/-- A globally routable unicast address; a mapped address is the IPv4 address in it. -/
def Routable : IP → Prop
  | .v4 a => Public4 a
  | .v6 a => if a ∈ mapped then Public4 (low a) else Global6 a

/-- No form of the address carries an IPv4 address that is not public. -/
def CarriesPublic : IP → Prop
  | .v4 _ => True
  | .v6 a => ∀ form ∈ forms, a ∈ form.1 → Public4 (form.2 a)

/-- What may be dialled. -/
def Public (ip : IP) : Prop := Routable ip ∧ CarriesPublic ip

instance (a : Addr 16) : Decidable (Protocol6 a) := inferInstanceAs (Decidable (_ ∧ _))

instance (a : Addr 16) : Decidable (Global6 a) := inferInstanceAs (Decidable (_ ∨ _))

instance : (ip : IP) → Decidable (Routable ip)
  | .v4 a => inferInstanceAs (Decidable (Public4 a))
  | .v6 a => inferInstanceAs (Decidable (if a ∈ mapped then Public4 (low a) else Global6 a))

instance : (ip : IP) → Decidable (CarriesPublic ip)
  | .v4 _ => inferInstanceAs (Decidable True)
  | .v6 a => inferInstanceAs (Decidable (∀ form ∈ forms, a ∈ form.1 → Public4 (form.2 a)))

instance (ip : IP) : Decidable (Public ip) := inferInstanceAs (Decidable (_ ∧ _))

end Ip
