import Mathlib.Data.List.Basic
import Mathlib.Data.List.Infix

/-!
# Lines that end with CRLF

Byte strings cut at each carriage return with a line feed behind it, never at one of the two
alone. Cutting goes through a concatenation where no such pair is made by it (`split_append`),
so a line without a pair in it is a line again after it was joined with others.
-/

namespace Crlf

def isWsp (b : UInt8) : Bool := b == 32 || b == 9

def consHead (b : UInt8) (ls : List (List UInt8)) : List (List UInt8) :=
  (b :: ls.headD []) :: ls.tail

def split : List UInt8 → List (List UInt8)
  | [] => [[]]
  | [b] => [[b]]
  | b :: c :: rest =>
    if b = 13 ∧ c = 10 then [] :: split rest else consHead b (split (c :: rest))

def NoCrlf (l : List UInt8) : Prop := ¬ [13, 10] <:+: l

def glue : List (List UInt8) → List (List UInt8) → List (List UInt8)
  | [], rs => rs
  | [l], rs => (l ++ rs.headD []) :: rs.tail
  | l :: l' :: ls, rs => l :: glue (l' :: ls) rs

@[elab_as_elim]
theorem bytesInduction {P : List UInt8 → Prop} (nil : P [])
    (pair : ∀ rest, P rest → P (13 :: 10 :: rest))
    (byte : ∀ b rest, ¬ (b = 13 ∧ rest.head? = some 10) → P rest → P (b :: rest))
    (l : List UInt8) : P l := by
  induction l using split.induct with
  | case1 => exact nil
  | case2 b => exact byte b [] (fun h => absurd h.2 nofun) nil
  | case3 b c rest hpr ih =>
    obtain ⟨rfl, rfl⟩ := hpr
    exact pair rest ih
  | case4 b c rest hpr ih => exact byte b (c :: rest) (by simpa using hpr) ih

@[simp] theorem split_pair (rest : List UInt8) : split (13 :: 10 :: rest) = [] :: split rest := by
  rw [split, if_pos ⟨rfl, rfl⟩]

theorem split_byte {b : UInt8} {rest : List UInt8} (h : ¬ (b = 13 ∧ rest.head? = some 10)) :
    split (b :: rest) = consHead b (split rest) := by
  cases rest with
  | nil => rfl
  | cons c rest => rw [split, if_neg (by simpa using h)]

theorem split_ne_nil (l : List UInt8) : split l ≠ [] := by
  induction l using bytesInduction with
  | nil => exact nofun
  | pair rest _ =>
    rw [split_pair]
    exact nofun
  | byte b rest h _ =>
    rw [split_byte h]
    exact nofun

theorem headD_cons_tail (h : ls ≠ []) : ls.headD [] :: ls.tail = ls := by
  cases ls with
  | nil => exact absurd rfl h
  | cons l ls => rfl

theorem glue_cons (h : ls ≠ []) (l : List UInt8) (rs : List (List UInt8)) :
    glue (l :: ls) rs = l :: glue ls rs := by
  cases ls with
  | nil => exact absurd rfl h
  | cons l' ls => rfl

theorem consHead_glue (b : UInt8) (h : ls ≠ []) (rs : List (List UInt8)) :
    consHead b (glue ls rs) = glue (consHead b ls) rs := by
  match ls with
  | [] => exact absurd rfl h
  | [l] => rfl
  | l :: l' :: ls => rfl

theorem split_append {x y : List UInt8} (h : y.head? ≠ some 10) :
    split (x ++ y) = glue (split x) (split y) := by
  induction x using bytesInduction with
  | nil => exact (headD_cons_tail (split_ne_nil y)).symm
  | pair rest ih =>
    rw [List.cons_append, List.cons_append, split_pair, split_pair, ih, glue_cons (split_ne_nil _)]
  | byte b rest hpr ih =>
    have hpr' : ¬ (b = 13 ∧ (rest ++ y).head? = some 10) := by
      cases rest with
      | nil => exact fun hb => h hb.2
      | cons c rest => exact hpr
    rw [List.cons_append, split_byte hpr', ih, split_byte hpr, consHead_glue _ (split_ne_nil _)]

theorem NoCrlf.of_infix (h : NoCrlf m) (hmid : l <:+: m) : NoCrlf l :=
  fun hpr => h (hpr.trans hmid)

theorem noCrlf_of_not_mem (h : (13 : UInt8) ∉ l) : NoCrlf l := fun hpr =>
  h (hpr.subset (.head _))

theorem split_noCrlf {l : List UInt8} (h : NoCrlf l) : split l = [l] := by
  induction l using bytesInduction with
  | nil => rfl
  | pair rest _ => exact absurd (List.prefix_append [13, 10] rest).isInfix h
  | byte b rest hpr ih =>
    rw [split_byte hpr, ih (h.of_infix (List.suffix_cons b _).isInfix)]
    rfl

theorem split_line (h : NoCrlf l) (rest : List UInt8) :
    split (l ++ 13 :: 10 :: rest) = l :: split rest := by
  rw [split_append (by simp), split_noCrlf h, split_pair]
  simp [glue]

end Crlf
