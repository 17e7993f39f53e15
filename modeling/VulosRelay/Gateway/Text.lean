import Mathlib.Algebra.Ring.Nat
import Mathlib.Data.Bool.AllAny
import Mathlib.Data.List.Basic

/-!
# Texts

What the gateway does with strings, as the standard library of Rust does it. A string is
the list of its characters.
-/

namespace VulosRelay.Gateway

open List

abbrev Str := List Char

def upperChar (c : Char) : Char := if 'a' ≤ c ∧ c ≤ 'z' then Char.ofNat (c.toNat - 32) else c

def toAsciiUppercase (s : Str) : Str := s.map upperChar

def eqIgnoreAsciiCase (a b : Str) : Bool := toAsciiUppercase a == toAsciiUppercase b

def lowerChar (c : Char) : Char := if 'A' ≤ c ∧ c ≤ 'Z' then Char.ofNat (c.toNat + 32) else c

def toAsciiLowercase (s : Str) : Str := s.map lowerChar

def splitOnce (c : Char) : Str → Option (Str × Str)
  | [] => none
  | d :: rest => if d = c then some ([], rest) else (splitOnce c rest).map fun r => (d :: r.1, r.2)

def trimEndMatches (c : Char) (s : Str) : Str := (s.reverse.dropWhile (· == c)).reverse

def trimBrackets (s : Str) : Str := trimEndMatches '>' (s.dropWhile (· == '<'))

def stripPrefix : (start s : Str) → Option Str
  | [], s => some s
  | c :: start, d :: s => if c = d then stripPrefix start s else none
  | _ :: _, [] => none

def stripSuffix (ending s : Str) : Option Str :=
  (stripPrefix ending.reverse s.reverse).map List.reverse

def splitWhen (p : Char → Bool) : Str → List Str
  | [] => [[]]
  | c :: rest =>
    if p c then [] :: splitWhen p rest
    else (c :: (splitWhen p rest).headD []) :: (splitWhen p rest).tail

def splitAt (c : Char) : Str → List Str := splitWhen (· == c)

def splitCrlf : Str → List Str
  | [] => [[]]
  | '\r' :: '\n' :: rest => [] :: splitCrlf rest
  | c :: rest => (c :: (splitCrlf rest).headD []) :: (splitCrlf rest).tail

def splitBytes : Nat → Str → Option (Str × Str)
  | 0, s => some ([], s)
  | _ + 1, [] => none
  | n + 1, c :: rest =>
    if c.utf8Size ≤ n + 1 then (splitBytes (n + 1 - c.utf8Size) rest).map fun r => (c :: r.1, r.2)
    else none

def byteLen (s : Str) : Nat := (s.map Char.utf8Size).sum

def textLines (s : Str) : List Str :=
  (splitAt '\n' s).dropLast.map (fun line => (stripSuffix ['\r'] line).getD line)
    ++ (splitAt '\n' s).getLast?.toList.filter (· ≠ [])

def isWhitespace (c : Char) : Bool :=
  decide (0x09 ≤ c.toNat ∧ c.toNat ≤ 0x0D) || c.toNat == 0x20 || c.toNat == 0x85
    || c.toNat == 0xA0 || c.toNat == 0x1680 || decide (0x2000 ≤ c.toNat ∧ c.toNat ≤ 0x200A)
    || c.toNat == 0x2028 || c.toNat == 0x2029 || c.toNat == 0x202F || c.toNat == 0x205F
    || c.toNat == 0x3000

def trimStart (s : Str) : Str := s.dropWhile isWhitespace

def trimEnd (s : Str) : Str := (s.reverse.dropWhile isWhitespace).reverse

def trim (s : Str) : Str := trimEnd (trimStart s)

def splitWhitespace (s : Str) : List Str := (splitWhen isWhitespace s).filter (· ≠ [])

def digitOf (c : Char) : Option Nat :=
  if '0' ≤ c ∧ c ≤ '9' then some (c.toNat - '0'.toNat) else none

def readDigits (bound : Nat) : Nat → Str → Option Nat
  | n, [] => some n
  | n, c :: rest => do
      let d ← digitOf c
      if 10 * n + d ≤ bound then readDigits bound (10 * n + d) rest else none

def parseUnsigned (bound : Nat) (s : Str) : Option Nat :=
  match s with
  | [] => none
  | ['+'] => none
  | '+' :: rest => readDigits bound 0 rest
  | s => readDigits bound 0 s

def StartsSolid (s : Str) : Prop := ∃ c rest, s = c :: rest ∧ isWhitespace c = false

def EndsSolid (s : Str) : Prop := ∃ start c, s = start ++ [c] ∧ isWhitespace c = false

theorem StartsSolid.append (h : StartsSolid s) (t : Str) : StartsSolid (s ++ t) := by
  obtain ⟨c, rest, rfl, hc⟩ := h
  exact ⟨c, rest ++ t, rfl, hc⟩

theorem EndsSolid.append (h : EndsSolid t) (s : Str) : EndsSolid (s ++ t) := by
  obtain ⟨start, c, rfl, hc⟩ := h
  exact ⟨s ++ start, c, (append_assoc ..).symm, hc⟩

theorem startsSolid_of_word (hne : s ≠ []) (h : ∀ c ∈ s, isWhitespace c = false) :
    StartsSolid s := by
  cases s with
  | nil => exact absurd rfl hne
  | cons c rest => exact ⟨c, rest, rfl, h c (.head _)⟩

theorem endsSolid_of_word (hne : s ≠ []) (h : ∀ c ∈ s, isWhitespace c = false) : EndsSolid s :=
  ⟨s.dropLast, s.getLast hne, (dropLast_append_getLast hne).symm, h _ (getLast_mem hne)⟩

theorem trimStart_space (h : ∀ c ∈ space, isWhitespace c = true) (s : Str) :
    trimStart (space ++ s) = trimStart s := by
  induction space with
  | nil => rfl
  | cons c space ih =>
    rw [trimStart, cons_append, dropWhile_cons_of_pos (h c (.head _))]
    exact ih fun d hd => h d (.tail _ hd)

theorem trimStart_solid (h : StartsSolid s) : trimStart s = s := by
  obtain ⟨c, rest, rfl, hc⟩ := h
  rw [trimStart, dropWhile_cons_of_neg (by rw [hc]; exact Bool.false_ne_true)]

theorem trimEnd_append (h : EndsSolid s) (hsp : ∀ c ∈ space, isWhitespace c = true) :
    trimEnd (s ++ space) = s := by
  obtain ⟨start, c, rfl, hc⟩ := h
  have hsp' : trimStart (space.reverse ++ (start ++ [c]).reverse)
      = trimStart (start ++ [c]).reverse :=
    trimStart_space (fun d hd => hsp d (mem_reverse.mp hd)) _
  have hsl : trimStart (start ++ [c]).reverse = (start ++ [c]).reverse :=
    trimStart_solid ⟨c, start.reverse, by simp, hc⟩
  rw [trimEnd, reverse_append]
  exact (congrArg reverse (hsp'.trans hsl)).trans (reverse_reverse _)

theorem trim_around {before s after : Str} (hpre : ∀ c ∈ before, isWhitespace c = true)
    (hst : StartsSolid s) (hen : EndsSolid s)
    (haf : ∀ c ∈ after, isWhitespace c = true) : trim (before ++ s ++ after) = s := by
  rw [trim, append_assoc, trimStart_space hpre, trimStart_solid (hst.append after),
    trimEnd_append hen haf]

theorem trim_word {s : Str} (h : ∀ c ∈ s, isWhitespace c = false) : trim s = s := by
  by_cases hne : s = []
  · rw [hne]
    rfl
  have htr := @trim_around [] s [] nofun (startsSolid_of_word hne h)
    (endsSolid_of_word hne h) nofun
  rwa [nil_append, append_nil] at htr

theorem stripPrefix_append (h : start.length = word.length) (s : Str) :
    stripPrefix start (word ++ s) = if start = word then some s else none := by
  induction start generalizing word with
  | nil =>
    cases word with
    | nil => rfl
    | cons d word => cases h
  | cons c start ih =>
    cases word with
    | nil => cases h
    | cons d word =>
      rw [cons_append, stripPrefix]
      by_cases hc : c = d
      · rw [if_pos hc, ih (Nat.succ.inj h), hc]
        simp only [cons.injEq, true_and]
      · rw [if_neg hc, if_neg fun heq => hc (cons.inj heq).1]

theorem splitOnce_append (h : c ∉ s) (rest : Str) :
    splitOnce c (s ++ c :: rest) = some (s, rest) := by
  induction s with
  | nil => rw [nil_append, splitOnce, if_pos rfl]
  | cons d s ih =>
    rw [mem_cons, not_or] at h
    rw [cons_append, splitOnce, if_neg fun hd => h.1 hd.symm, ih h.2]
    rfl

theorem splitOnce_none (h : c ∉ s) : splitOnce c s = none := by
  induction s with
  | nil => rfl
  | cons d s ih =>
    rw [mem_cons, not_or] at h
    rw [splitOnce, if_neg fun hd => h.1 hd.symm, ih h.2]
    rfl

theorem upperChar_space (h : isWhitespace c = true) : upperChar c = c := by
  rw [upperChar]
  split
  · rename_i hlt
    have hlow : 97 ≤ c.toNat := hlt.1
    have hhg : c.toNat ≤ 122 := hlt.2
    simp only [isWhitespace, Bool.or_eq_true, decide_eq_true_eq, beq_iff_eq] at h
    omega
  · rfl

theorem word_of_upper (h : toAsciiUppercase s = word) (hwr : ∀ c ∈ word, isWhitespace c = false) :
    ∀ c ∈ s, isWhitespace c = false := by
  intro c hc
  cases hsp : isWhitespace c with
  | false => rfl
  | true =>
    have hmem : upperChar c ∈ word := h ▸ mem_map_of_mem hc
    rw [upperChar_space hsp] at hmem
    rw [← hsp]
    exact hwr c hmem

end VulosRelay.Gateway
