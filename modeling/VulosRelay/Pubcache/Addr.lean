import Mathlib.Data.Vector.Basic
import VulosRelay.Lib.Base64

/-!
# Content addresses

The model of `tunnel/pubcache/addr.go`, with the error values and object kinds
the rest of the package shares.

An address is the 33-byte value `0x1e ‖ BLAKE3-256(…)` and travels as unpadded
base64url. BLAKE3 is a library the package calls, so the hash is a parameter of
every definition that uses it: any function from byte strings to 32 bytes.
-/

namespace VulosRelay.Pubcache

open Base64 String

abbrev Bytes := List UInt8

abbrev Digest := List.Vector UInt8 32

def Digest.ofBytes (b : Bytes) (h : b.length = 32) : Digest := ⟨b, h⟩

@[simp] theorem Digest.toList_ofBytes (b : Bytes) (h : b.length = 32) :
    (Digest.ofBytes b h).toList = b := rfl

abbrev Addr := List.Vector UInt8 33

def Addr.ofBytes (b : Bytes) (h : b.length = 33) : Addr := ⟨b, h⟩

@[simp] theorem Addr.toList_ofBytes (b : Bytes) (h : b.length = 33) :
    (Addr.ofBytes b h).toList = b := rfl

def hashPrefixBLAKE3 : UInt8 := 0x1e

def digestLen : Nat := 32

def addrLen : Nat := 1 + digestLen

def maxAddrB64Len : Nat := 64

inductive Sentinel where
  | badAddr
  | addrMismatch
  | malformedObject
  | manifestKeyPresent
  | proofRange
  | proofInvalid
  | pinBudget
  | pinNotFound
  | pinForbidden
  | pinIndex
  | notServed
  | io
  deriving DecidableEq, Repr

structure GoError where
  sentinel : Sentinel
  text : String
  deriving DecidableEq, Repr

def hex2 (b : UInt8) : String :=
  String.ofList [Nat.digitChar (b.toNat / 16), Nat.digitChar (b.toNat % 16)]

inductive Kind where
  | announce
  | manifest
  | chunk
  deriving DecidableEq, Repr

def Kind.string : Kind → String
  | .announce => "announce"
  | .manifest => "manifest"
  | .chunk => "chunk"

theorem Kind.string_injective {k l : Kind} (h : k.string = l.string) : k = l := by
  revert h
  cases k <;> cases l <;> decide

def Addr.string (a : Addr) : String := String.ofList (Base64.encode a.toList)

def Addr.hashPrefix (a : Addr) : UInt8 := a.head

def parseAddr (s : String) : Except GoError Addr :=
  if s = "" ∨ s.utf8ByteSize > maxAddrB64Len then .error ⟨.badAddr, ""⟩
  else
    match Base64.decode s.toList with
    | none => .error ⟨.badAddr, "illegal base64 data"⟩
    | some raw =>
      if h : raw.length = 33 then
        let a : Addr := ⟨raw, h⟩
        if a.hashPrefix ≠ hashPrefixBLAKE3 then
          .error ⟨.badAddr, s!"unsupported hash prefix 0x{hex2 a.hashPrefix}"⟩
        else if a.string ≠ s then .error ⟨.badAddr, "non-canonical encoding"⟩
        else .ok a
      else .error ⟨.badAddr, s!"got {raw.length} bytes, want {addrLen}"⟩

def hashBytes (blake3 : Bytes → Digest) (b : Bytes) : Addr := hashPrefixBLAKE3 ::ᵥ blake3 b

theorem Addr.string_injective {a b : Addr} (h : a.string = b.string) : a = b := by
  apply List.Vector.eq
  exact encode_injective (ofList_injective h)

theorem Addr.string_toList_length (a : Addr) : a.string.toList.length = 44 := by
  rw [Addr.string, toList_ofList, encode_length, a.toList_length]

theorem Addr.mem_string {a : Addr} {c : Char} (h : c ∈ a.string.toList) : c ∈ alphabet := by
  rw [Addr.string, toList_ofList, encode] at h
  obtain ⟨n, hn, rfl⟩ := List.mem_map.mp h
  have hlt := sextets_lt _ n hn
  have hall : ∀ i : Fin 64, char i.val ∈ alphabet := by decide +kernel
  exact hall ⟨n, hlt⟩

theorem Addr.string_ne_empty (a : Addr) : a.string ≠ "" := by
  intro h
  have hlen := a.string_toList_length
  rw [h] at hlen
  simp at hlen

theorem Addr.decode_string (a : Addr) : decode a.string.toList = some a.toList := by
  rw [Addr.string, toList_ofList, decode_encode]

theorem utf8Size_of_mem_alphabet {c : Char} (h : c ∈ alphabet) : c.utf8Size = 1 := by
  have hall : (alphabet.all fun d => d.utf8Size == 1) = true := by decide
  exact beq_iff_eq.mp (List.all_eq_true.mp hall c h)

theorem utf8ByteSize_ofList : ∀ l : List Char, (∀ c ∈ l, c.utf8Size = 1) →
    (ofList l).utf8ByteSize = l.length
  | [], _ => rfl
  | c :: l, h => by
    have ih := utf8ByteSize_ofList l fun d hd => h d (.tail _ hd)
    have hc := h c (.head _)
    rw [ofList_cons, utf8ByteSize_append, ih, utf8ByteSize_singleton, hc,
      List.length_cons, Nat.add_comm]

theorem Addr.string_utf8ByteSize (a : Addr) : a.string.utf8ByteSize = 44 := by
  have h := utf8ByteSize_ofList a.string.toList fun c hc =>
    utf8Size_of_mem_alphabet (Addr.mem_string hc)
  rwa [ofList_toList, a.string_toList_length] at h

theorem parseAddr_string (h : a.hashPrefix = hashPrefixBLAKE3) : parseAddr a.string = .ok a := by
  have hfit : ¬ (a.string = "" ∨ a.string.utf8ByteSize > maxAddrB64Len) := by
    rw [a.string_utf8ByteSize, maxAddrB64Len]
    exact not_or.mpr ⟨a.string_ne_empty, by omega⟩
  rw [parseAddr, if_neg hfit, a.decode_string]
  dsimp only
  rw [dif_pos a.toList_length]
  show (if a.hashPrefix ≠ hashPrefixBLAKE3 then _ else if a.string ≠ a.string then _ else _) = _
  rw [if_neg (not_not.mpr h), if_neg (not_not.mpr rfl)]
  rfl

theorem parseAddr_eq_ok (h : parseAddr s = .ok a) :
    a.string = s ∧ a.hashPrefix = hashPrefixBLAKE3 := by
  unfold parseAddr at h
  split at h
  · simp at h
  split at h
  · simp at h
  split at h
  · dsimp only at h
    split at h
    · simp at h
    rename_i hp
    split at h
    · simp at h
    rename_i hs
    cases h
    exact ⟨not_not.mp hs, not_not.mp hp⟩
  · simp at h

end VulosRelay.Pubcache
