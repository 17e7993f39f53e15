import VulosRelay.Lib.JsText
import Mathlib.Algebra.Ring.Nat

/-!
# JSON values and their text

The values that `JSON.parse` produces and the text that `JSON.stringify` makes of them.
The numbers are a parameter: a type of finite numbers with the text the language gives
each. A literal that is too large for a number is parsed as an infinity, which is written
back as `null`; `norm` puts `null` in its place. Up to that, the text determines the value
(`stringify_inj`), and since strings are written with their lone surrogates escaped, so do
the bytes of the text (`encode_stringify_inj`).

The argument goes over texts that are followed by something: equal ones split alike.
-/

namespace Json

open JsText List

mutual

inductive Value (N : Type) where
  | null
  | bool (b : Bool)
  | num (n : N)
  | infinite (negative : Bool)
  | str (s : Text)
  | arr (items : Items N)
  | obj (members : Members N)
  deriving DecidableEq

inductive Items (N : Type) where
  | nil
  | cons (head : Value N) (tail : Items N)
  deriving DecidableEq

inductive Members (N : Type) where
  | nil
  | cons (key : Text) (value : Value N) (rest : Members N)
  deriving DecidableEq

end

structure Numbers (N : Type) where
  render : N → Text
  value : N → Rat

def isNumeric (c : UInt16) : Bool :=
  (0x30 ≤ c && c ≤ 0x39) || c = 0x2B || c = 0x2D || c = 0x2E || c = 0x65

/-- Numbers have texts of their own, made of digits, signs, points and exponents. -/
structure Numbers.Lawful {N : Type} (numbers : Numbers N) : Prop where
  inj : Function.Injective numbers.render
  ne_nil : ∀ n, numbers.render n ≠ []
  numeric : ∀ n, ∀ c ∈ numbers.render n, isNumeric c = true

/-! ## Properties -/

variable {N : Type}

def Members.get (key : Text) : Members N → Option (Value N)
  | .nil => none
  | .cons k value rest => if k = key then some value else rest.get key

def Value.get (key : Text) : Value N → Option (Value N)
  | .obj members => members.get key
  | _ => none

def Value.truthy (numbers : Numbers N) : Value N → Bool
  | .null => false
  | .bool b => b
  | .num n => numbers.value n ≠ 0
  | .infinite _ => true
  | .str s => s ≠ []
  | .arr _ => true
  | .obj _ => true

/-! ## Strings in quotes -/

def hexDigit (n : Nat) : UInt16 := UInt16.ofNat (if n < 10 then 0x30 + n else 0x57 + n)

def unicodeEscape (c : UInt16) : Text :=
  [0x5C, 0x75, hexDigit (c.toNat / 4096), hexDigit (c.toNat / 256 % 16),
    hexDigit (c.toNat / 16 % 16), hexDigit (c.toNat % 16)]

def shortEscape (c : UInt16) : Option UInt16 :=
  if c = 0x08 then some 0x62
  else if c = 0x09 then some 0x74
  else if c = 0x0A then some 0x6E
  else if c = 0x0C then some 0x66
  else if c = 0x0D then some 0x72
  else if c = 0x22 then some 0x22
  else if c = 0x5C then some 0x5C
  else none

def escapeUnit (c : UInt16) : Text :=
  match shortEscape c with
  | some e => [0x5C, e]
  | none => if c < 0x20 || isSurrogate c then unicodeEscape c else [c]

def escape : Text → Text
  | [] => []
  | [c] => escapeUnit c
  | hi :: lo :: rest =>
    if isHigh hi && isLow lo then hi :: lo :: escape rest
    else escapeUnit hi ++ escape (lo :: rest)

def quote (s : Text) : Text := 0x22 :: (escape s ++ [0x22])

/-! ## The text of a value -/

section Stringify

variable (numbers : Numbers N)

mutual

def stringify : Value N → Text
  | .null => literal "null"
  | .bool true => literal "true"
  | .bool false => literal "false"
  | .num n => numbers.render n
  | .infinite _ => literal "null"
  | .str s => quote s
  | .arr items => 0x5B :: openItems items
  | .obj members => 0x7B :: openMembers members

def openItems : Items N → Text
  | .nil => [0x5D]
  | .cons v rest => stringify v ++ moreItems rest

def moreItems : Items N → Text
  | .nil => [0x5D]
  | .cons v rest => 0x2C :: (stringify v ++ moreItems rest)

def openMembers : Members N → Text
  | .nil => [0x7D]
  | .cons key v rest => quote key ++ 0x3A :: (stringify v ++ moreMembers rest)

def moreMembers : Members N → Text
  | .nil => [0x7D]
  | .cons key v rest => 0x2C :: (quote key ++ 0x3A :: (stringify v ++ moreMembers rest))

end

end Stringify

mutual

def Value.norm : Value N → Value N
  | .null => .null
  | .bool b => .bool b
  | .num n => .num n
  | .infinite _ => .null
  | .str s => .str s
  | .arr items => .arr items.norm
  | .obj members => .obj members.norm

def Items.norm : Items N → Items N
  | .nil => .nil
  | .cons v rest => .cons v.norm rest.norm

def Members.norm : Members N → Members N
  | .nil => .nil
  | .cons key v rest => .cons key v.norm rest.norm

end

/-! ## Escapes are told apart -/

inductive Code (c : UInt16) : Text → Prop where
  | raw : c ≠ 0x22 → c ≠ 0x5C → Code c [c]
  | short {e : UInt16} : shortEscape c = some e → Code c [0x5C, e]
  | unicode : Code c (unicodeEscape c)

inductive Spelled : Text → Text → Prop where
  | nil : Spelled [] []
  | cons {c : UInt16} {s code t : Text} : Code c code → Spelled s t → Spelled (c :: s) (code ++ t)

theorem hexDigit_inj (hm : m < 16) (hn : n < 16) (h : hexDigit m = hexDigit n) : m = n := by
  have hall : ∀ i j : Fin 16, hexDigit i.val = hexDigit j.val → i = j := by decide
  exact congrArg Fin.val (hall ⟨m, hm⟩ ⟨n, hn⟩ h)

variable {numbers : Numbers N} {c : UInt16} {s r : Text}

theorem unicodeEscape_inj (h : unicodeEscape c = unicodeEscape d) : c = d := by
  have hc : c.toNat < 65536 := c.toNat_lt
  have hd : d.toNat < 65536 := d.toNat_lt
  simp only [unicodeEscape, cons.injEq, true_and, and_true] at h
  obtain ⟨h1, h2, h3, h4⟩ := h
  have e1 := hexDigit_inj (by omega) (by omega) h1
  have e2 := hexDigit_inj (by omega) (by omega) h2
  have e3 := hexDigit_inj (by omega) (by omega) h3
  have e4 := hexDigit_inj (by omega) (by omega) h4
  apply UInt16.toNat_inj.mp
  omega

def shortUnit (e : UInt16) : UInt16 :=
  if e = 0x62 then 0x08
  else if e = 0x74 then 0x09
  else if e = 0x6E then 0x0A
  else if e = 0x66 then 0x0C
  else if e = 0x72 then 0x0D
  else e

theorem shortUnit_of_escape (h : shortEscape c = some e) : shortUnit e = c ∧ e ≠ 0x75 := by
  unfold shortEscape at h
  iterate 7
    split at h
    · rename_i hc
      rw [← Option.some.inj h, hc]
      exact ⟨rfl, by decide⟩
  cases h

theorem shortEscape_inj (hc : shortEscape c = some e) (hd : shortEscape d = some e) : c = d :=
  (shortUnit_of_escape hc).1.symm.trans (shortUnit_of_escape hd).1

theorem Code.split (hc : Code c code) (hd : Code d code') (h : code ++ t = code' ++ t') :
    c = d ∧ t = t' := by
  cases hc with
  | raw hc1 hc2 =>
    cases hd with
    | raw hd1 hd2 =>
      injection h with hcd ht
      exact ⟨hcd, ht⟩
    | short he | unicode =>
      injection h with hcd ht
      exact absurd hcd hc2
  | short he =>
    cases hd with
    | raw hd1 hd2 =>
      injection h with hcd ht
      exact absurd hcd.symm hd2
    | short he' =>
      injection h with _ h
      injection h with hee ht
      rw [hee] at he
      exact ⟨shortEscape_inj he he', ht⟩
    | unicode =>
      injection h with _ h
      injection h with hu ht
      exact absurd hu (shortUnit_of_escape he).2
  | unicode =>
    cases hd with
    | raw hd1 hd2 =>
      injection h with hcd ht
      exact absurd hcd.symm hd2
    | short he =>
      injection h with _ h
      injection h with hu ht
      exact absurd hu.symm (shortUnit_of_escape he).2
    | unicode =>
      have hpr := append_inj h rfl
      exact ⟨unicodeEscape_inj hpr.1, hpr.2⟩

theorem Code.head_ne_quote (h : Code c code) : 0x22 :: r ≠ code ++ t := by
  intro heq
  cases h with
  | raw h1 h2 =>
    injection heq with hc _
    exact h1 hc.symm
  | short he => injection heq with hc _; exact absurd hc (by decide)
  | unicode => injection heq with hc _; exact absurd hc (by decide)

theorem Spelled.split (hs : Spelled s t) (hs' : Spelled s' t')
    (h : t ++ 0x22 :: r = t' ++ 0x22 :: r') : s = s' ∧ r = r' := by
  induction hs generalizing s' t' with
  | nil =>
    cases hs' with
    | nil =>
      injection h with _ hr
      exact ⟨rfl, hr⟩
    | cons hcd hrs =>
      rw [append_assoc] at h
      exact absurd h hcd.head_ne_quote
  | cons hcd hrs ih =>
    cases hs' with
    | nil =>
      rw [append_assoc] at h
      exact absurd h.symm hcd.head_ne_quote
    | cons hcd' hrs' =>
      rw [append_assoc, append_assoc] at h
      obtain ⟨hc, ht⟩ := hcd.split hcd' h
      obtain ⟨hs, hr⟩ := ih hrs' ht
      exact ⟨by rw [hc, hs], hr⟩

theorem isSurrogate_ne (h : isSurrogate c = true) : c ≠ 0x22 ∧ c ≠ 0x5C := by
  constructor
  all_goals
    rintro rfl
    cases h

variable {c : UInt16}

theorem code_escapeUnit : Code c (escapeUnit c) := by
  rw [escapeUnit]
  cases hsh : shortEscape c with
  | some e => exact .short hsh
  | none =>
    dsimp only
    split
    · exact .unicode
    refine .raw ?_ ?_
    all_goals
      rintro rfl
      cases hsh

theorem spelled_escape : Spelled s (escape s) := by
  fun_induction escape s with
  | case1 => exact .nil
  | case2 c =>
    have hsp : Spelled [c] (escapeUnit c ++ []) := .cons code_escapeUnit .nil
    rw [append_nil] at hsp
    exact hsp
  | case3 hi lo rest hpr ih =>
    rw [Bool.and_eq_true] at hpr
    have hhi := isSurrogate_ne (c := hi) (by rw [isSurrogate, hpr.1, Bool.true_or])
    have hlo := isSurrogate_ne (c := lo) (by rw [isSurrogate, hpr.2, Bool.or_true])
    exact .cons (.raw hhi.1 hhi.2) (.cons (.raw hlo.1 hlo.2) ih)
  | case4 hi lo rest hpr ih => exact .cons code_escapeUnit ih

theorem quote_split (h : quote s ++ r = quote s' ++ r') : s = s' ∧ r = r' := by
  rw [quote, quote, cons_append, cons_append, append_assoc, append_assoc] at h
  injection h with _ h
  exact spelled_escape.split spelled_escape h

/-! ## Texts are told apart -/

def Ends (r : Text) : Prop := ∀ c ∈ r.head?, isNumeric c = false

theorem numeric_split (hx : ∀ c ∈ x, isNumeric c = true) (hy : ∀ c ∈ y, isNumeric c = true)
    (hr : Ends r) (hs : Ends s) (h : x ++ r = y ++ s) :
    x = y ∧ r = s := by
  induction x generalizing y with
  | nil =>
    cases y with
    | nil => exact ⟨rfl, h⟩
    | cons d y =>
      have hd : isNumeric d = false := hr d (by rw [nil_append] at h; rw [h]; rfl)
      rw [hy d (.head _)] at hd
      cases hd
  | cons c x ih =>
    cases y with
    | nil =>
      have hc : isNumeric c = false := hs c (by rw [nil_append] at h; rw [← h]; rfl)
      rw [hx c (.head _)] at hc
      cases hc
    | cons d y =>
      injection h with hcd h
      obtain ⟨hxy, hrs⟩ := ih (fun c hc => hx c (.tail _ hc))
        (fun d hd => hy d (.tail _ hd)) h
      exact ⟨by rw [hcd, hxy], hrs⟩

inductive Kind where
  | null
  | true
  | false
  | num
  | str
  | arr
  | obj
  deriving DecidableEq

def Value.kind : Value N → Kind
  | .null => .null
  | .bool true => .true
  | .bool false => .false
  | .num _ => .num
  | .infinite _ => .null
  | .str _ => .str
  | .arr _ => .arr
  | .obj _ => .obj

def kindOf (c : UInt16) : Kind :=
  if isNumeric c then .num
  else if c = 0x6E then .null
  else if c = 0x74 then .true
  else if c = 0x66 then .false
  else if c = 0x22 then .str
  else if c = 0x5B then .arr
  else .obj

theorem ends_moreItems {numbers : Numbers N} {xs : Items N} {r : Text} :
    Ends (moreItems numbers xs ++ r) := by
  intro c hc
  cases xs with
  | nil | cons v rest =>
    cases hc
    rfl

theorem ends_moreMembers {numbers : Numbers N} {ms : Members N} {r : Text} :
    Ends (moreMembers numbers ms ++ r) := by
  intro c hc
  cases ms with
  | nil | cons key v rest =>
    cases hc
    rfl

section Split

variable {numbers : Numbers N} (hnum : numbers.Lawful)

include hnum

theorem stringify_head (v : Value N) :
    ∃ c rest, stringify numbers v = c :: rest ∧ kindOf c = v.kind ∧ c ≠ 0x5D := by
  cases v with
  | null => exact ⟨0x6E, literal "ull", by rw [stringify]; decide, rfl, by decide⟩
  | bool b =>
    cases b with
    | true => exact ⟨0x74, literal "rue", by rw [stringify]; decide, rfl, by decide⟩
    | false => exact ⟨0x66, literal "alse", by rw [stringify]; decide, rfl, by decide⟩
  | num n =>
    rw [stringify]
    cases hrn : numbers.render n with
    | nil => exact absurd hrn (hnum.ne_nil n)
    | cons c rest =>
      have hc := hnum.numeric n c (by rw [hrn]; exact mem_cons_self)
      refine ⟨c, rest, rfl, by rw [kindOf, hc]; rfl, ?_⟩
      rintro rfl
      cases hc
  | infinite negative =>
    exact ⟨0x6E, literal "ull", by rw [stringify]; decide, rfl, by decide⟩
  | str s => exact ⟨0x22, _, by rw [stringify, quote], rfl, by decide⟩
  | arr items => exact ⟨0x5B, _, by rw [stringify], rfl, by decide⟩
  | obj members => exact ⟨0x7B, _, by rw [stringify], rfl, by decide⟩

theorem kind_eq (h : stringify numbers v ++ r = stringify numbers w ++ s) : v.kind = w.kind := by
  obtain ⟨c, rest, hv, hc, -⟩ := stringify_head hnum v
  obtain ⟨d, rest', hw, hd, -⟩ := stringify_head hnum w
  rw [hv, hw, cons_append, cons_append] at h
  injection h with hcd _
  rw [← hc, ← hd, hcd]

theorem bracket_ne : 0x5D :: r ≠ stringify numbers v ++ s := by
  intro h
  obtain ⟨c, rest, hv, -, hc⟩ := stringify_head hnum v
  rw [hv] at h
  injection h with hbr _
  exact hc hbr.symm

theorem moreItems_of_open (h : openItems numbers xs ++ r = openItems numbers ys ++ s) :
    moreItems numbers xs ++ r = moreItems numbers ys ++ s := by
  cases xs with
  | nil =>
    cases ys with
    | nil => exact h
    | cons w rest' =>
      rw [openItems, openItems, append_assoc] at h
      exact absurd h (bracket_ne hnum)
  | cons v rest =>
    cases ys with
    | nil =>
      rw [openItems, openItems, append_assoc] at h
      exact absurd h.symm (bracket_ne hnum)
    | cons w rest' => exact congrArg (0x2C :: ·) h

end Split

theorem moreMembers_of_open (h : openMembers numbers xs ++ r = openMembers numbers ys ++ s) :
    moreMembers numbers xs ++ r = moreMembers numbers ys ++ s := by
  cases xs with
  | nil =>
    cases ys with
    | nil => exact h
    | cons key w rest' =>
      injection h with hhd _
      cases hhd
  | cons key v rest =>
    cases ys with
    | nil =>
      injection h with hhd _
      cases hhd
    | cons key' w rest' => exact congrArg (0x2C :: ·) h

mutual

/-- **Equal texts split alike**: the values are equal up to `norm`, and so is what follows. -/
theorem stringify_split (hnum : numbers.Lawful) {v w : Value N}
    {r s : Text} (hr : Ends r) (hs : Ends s)
    (h : stringify numbers v ++ r = stringify numbers w ++ s) : v.norm = w.norm ∧ r = s := by
  have hkn := kind_eq hnum h
  match v, w with
  | .null, .null | .null, .infinite _ | .infinite _, .null | .infinite _, .infinite _ =>
    exact ⟨rfl, append_cancel_left h⟩
  | .bool true, .bool true | .bool false, .bool false =>
    exact ⟨rfl, append_cancel_left h⟩
  | .num m, .num n =>
    rw [stringify, stringify] at h
    obtain ⟨htx, hrs⟩ := numeric_split (hnum.numeric m) (hnum.numeric n) hr hs h
    rw [hnum.inj htx]
    exact ⟨rfl, hrs⟩
  | .str x, .str y =>
    rw [stringify, stringify] at h
    obtain ⟨htx, hrs⟩ := quote_split h
    rw [htx]
    exact ⟨rfl, hrs⟩
  | .arr xs, .arr ys =>
    rw [stringify, stringify, cons_append, cons_append] at h
    injection h with _ h
    obtain ⟨hitm, hrs⟩ := moreItems_split hnum (moreItems_of_open hnum h)
    rw [Value.norm, Value.norm, hitm]
    exact ⟨rfl, hrs⟩
  | .obj xs, .obj ys =>
    rw [stringify, stringify, cons_append, cons_append] at h
    injection h with _ h
    obtain ⟨hmb, hrs⟩ := moreMembers_split hnum (moreMembers_of_open h)
    rw [Value.norm, Value.norm, hmb]
    exact ⟨rfl, hrs⟩

theorem moreItems_split (hnum : numbers.Lawful) {xs ys : Items N}
    {r s : Text} (h : moreItems numbers xs ++ r = moreItems numbers ys ++ s) :
    xs.norm = ys.norm ∧ r = s := by
  match xs, ys with
  | .nil, .nil =>
    injection h with _ h
    exact ⟨rfl, h⟩
  | .nil, .cons _ _ | .cons _ _, .nil =>
    injection h with hhd _
    cases hhd
  | .cons v rest, .cons w rest' =>
    rw [moreItems, moreItems, cons_append, cons_append, append_assoc, append_assoc] at h
    injection h with _ h
    obtain ⟨hvw, h⟩ := stringify_split hnum ends_moreItems
      ends_moreItems h
    obtain ⟨hrs, h⟩ := moreItems_split hnum h
    rw [Items.norm, Items.norm, hvw, hrs]
    exact ⟨rfl, h⟩

theorem moreMembers_split (hnum : numbers.Lawful) {xs ys : Members N}
    {r s : Text} (h : moreMembers numbers xs ++ r = moreMembers numbers ys ++ s) :
    xs.norm = ys.norm ∧ r = s := by
  match xs, ys with
  | .nil, .nil =>
    injection h with _ h
    exact ⟨rfl, h⟩
  | .nil, .cons _ _ _ | .cons _ _ _, .nil =>
    injection h with hhd _
    cases hhd
  | .cons key v rest, .cons key' w rest' =>
    rw [moreMembers, moreMembers, cons_append, cons_append, append_assoc, append_assoc] at h
    injection h with _ h
    obtain ⟨hkey, h⟩ := quote_split h
    rw [cons_append, cons_append, append_assoc, append_assoc] at h
    injection h with _ h
    obtain ⟨hvw, h⟩ := stringify_split hnum ends_moreMembers
      ends_moreMembers h
    obtain ⟨hrs, h⟩ := moreMembers_split hnum h
    rw [Members.norm, Members.norm, hkey, hvw, hrs]
    exact ⟨rfl, h⟩

end

theorem stringify_inj (hnum : numbers.Lawful) (h : stringify numbers v = stringify numbers w) :
    v.norm = w.norm := by
  have hen : Ends [] := nofun
  refine (stringify_split hnum hen hen ?_).1
  rw [append_nil, append_nil, h]

/-! ## Texts have no lone surrogates -/

theorem isSurrogate_hexDigit (h : n < 16) : isSurrogate (hexDigit n) = false := by
  have hall : ∀ i : Fin 16, isSurrogate (hexDigit i.val) = false := by decide
  exact hall ⟨n, h⟩

theorem paired_unicodeEscape : Paired (unicodeEscape c) := by
  have hc : c.toNat < 65536 := c.toNat_lt
  refine .unit (by decide) (.unit (by decide) ?_)
  refine .unit (isSurrogate_hexDigit (by omega)) (.unit (isSurrogate_hexDigit (by omega)) ?_)
  exact .unit (isSurrogate_hexDigit (by omega)) (.unit (isSurrogate_hexDigit (by omega)) .nil)

theorem isSurrogate_shortEscape (h : shortEscape c = some e) : isSurrogate e = false := by
  unfold shortEscape at h
  iterate 7
    split at h
    · cases h
      decide
  cases h

theorem paired_escapeUnit : Paired (escapeUnit c) := by
  rw [escapeUnit]
  cases hsh : shortEscape c with
  | some e => exact .unit (by decide) (.unit (isSurrogate_shortEscape hsh) .nil)
  | none =>
    dsimp only
    split
    · exact paired_unicodeEscape
    rename_i hraw
    rw [Bool.or_eq_true, not_or] at hraw
    exact .unit (Bool.not_eq_true _ ▸ hraw.2) .nil

theorem paired_escape : Paired (escape s) := by
  fun_induction escape s with
  | case1 => exact .nil
  | case2 c => exact paired_escapeUnit
  | case3 hi lo rest hpr ih =>
    rw [Bool.and_eq_true] at hpr
    exact .pair hpr.1 hpr.2 ih
  | case4 hi lo rest hpr ih => exact paired_escapeUnit.append ih

theorem paired_quote (s : Text) : Paired (quote s) :=
  .unit (by decide) (paired_escape.append (.unit (by decide) .nil))

theorem isSurrogate_of_numeric (h : isNumeric c = true) : isSurrogate c = false := by
  unfold isNumeric at h
  unfold isSurrogate isHigh isLow
  grind

theorem paired_openItems (h : Paired (moreItems numbers xs)) : Paired (openItems numbers xs) := by
  cases xs with
  | nil => exact h
  | cons v rest =>
    rw [moreItems] at h
    exact h.of_cons (by decide)

theorem paired_openMembers (h : Paired (moreMembers numbers ms)) :
    Paired (openMembers numbers ms) := by
  cases ms with
  | nil => exact h
  | cons key v rest =>
    rw [moreMembers] at h
    exact h.of_cons (by decide)

mutual

theorem paired_stringify (hnum : numbers.Lawful) (v : Value N) : Paired (stringify numbers v) := by
  match v with
  | .null | .infinite _ | .bool true | .bool false =>
    rw [stringify]
    exact .of_all (by decide)
  | .num n =>
    rw [stringify]
    exact .of_units fun c hc => isSurrogate_of_numeric (hnum.numeric n c hc)
  | .str s =>
    rw [stringify]
    exact paired_quote s
  | .arr xs =>
    rw [stringify]
    exact .unit (by decide) (paired_openItems (paired_moreItems hnum))
  | .obj ms =>
    rw [stringify]
    exact .unit (by decide) (paired_openMembers (paired_moreMembers hnum))

theorem paired_moreItems (hnum : numbers.Lawful) :
    Paired (moreItems numbers xs) := by
  match xs with
  | .nil => exact .unit (by decide) .nil
  | .cons v rest =>
    rw [moreItems]
    exact .unit (by decide) ((paired_stringify hnum v).append (paired_moreItems hnum))

theorem paired_moreMembers (hnum : numbers.Lawful) :
    Paired (moreMembers numbers ms) := by
  match ms with
  | .nil => exact .unit (by decide) .nil
  | .cons key v rest =>
    rw [moreMembers]
    refine .unit (by decide) ((paired_quote key).append (.unit (by decide) ?_))
    exact (paired_stringify hnum v).append (paired_moreMembers hnum)

end

theorem encode_stringify_inj (hnum : numbers.Lawful)
    (h : encode (stringify numbers v) = encode (stringify numbers w)) : v.norm = w.norm :=
  stringify_inj hnum (encode_inj (paired_stringify hnum v) (paired_stringify hnum w) h)

/-! ## Strings that are written as they are -/

def isVerbatim (c : UInt16) : Bool := 0x20 ≤ c && c < 0x80 && c ≠ 0x22 && c ≠ 0x5C

theorem isVerbatim_lt (h : isVerbatim c = true) : c < 0x80 := by
  unfold isVerbatim at h
  grind

theorem escapeUnit_verbatim (h : isVerbatim c = true) : escapeUnit c = [c] := by
  unfold isVerbatim at h
  have hsh : shortEscape c = none := by
    unfold shortEscape
    grind
  have hraw : ¬ (c < 0x20 || isSurrogate c) = true := by
    unfold isSurrogate isHigh isLow
    grind
  rw [escapeUnit, hsh]
  exact if_neg hraw

theorem escape_verbatim (h : ∀ c ∈ s, isVerbatim c = true) : escape s = s := by
  fun_induction escape s with
  | case1 => rfl
  | case2 c => exact escapeUnit_verbatim (h c mem_cons_self)
  | case3 hi lo rest hpr ih =>
    rw [ih fun c hc => h c (.tail _ (.tail _ hc))]
  | case4 hi lo rest hpr ih =>
    rw [ih fun c hc => h c (.tail _ hc), escapeUnit_verbatim (h hi mem_cons_self), singleton_append]

theorem quote_verbatim (h : ∀ c ∈ s, isVerbatim c = true) : quote s = 0x22 :: (s ++ [0x22]) := by
  rw [quote, escape_verbatim h]

/-! ## Values that are read back -/

def Members.keys : Members N → List Text
  | .nil => []
  | .cons key _ rest => key :: rest.keys

def beginsWithDigit (key : Text) : Bool := key.head?.any fun c => 0x30 ≤ c && c ≤ 0x39

mutual

/-- The objects of the value have different keys, in an order that parsing does not change. -/
def Value.Ordered : Value N → Prop
  | .arr items => items.Ordered
  | .obj members => members.keys.Nodup ∧ members.keys.all (!beginsWithDigit ·) = true
      ∧ members.Ordered
  | _ => True

def Items.Ordered : Items N → Prop
  | .nil => True
  | .cons v rest => v.Ordered ∧ rest.Ordered

def Members.Ordered : Members N → Prop
  | .nil => True
  | .cons _ v rest => v.Ordered ∧ rest.Ordered

end

/-- `parse` gives back every value from its text, up to `norm`. -/
def ReadsBack (numbers : Numbers N) (parse : Text → Option (Value N)) : Prop :=
  ∀ v : Value N, v.Ordered → parse (stringify numbers v) = some v.norm

theorem exists_readsBack (hnum : numbers.Lawful) :
    ∃ parse, ReadsBack numbers parse := by
  classical
  refine ⟨fun t => if h : ∃ v, stringify numbers v = t then some h.choose.norm else none, ?_⟩
  intro v _
  have hex : ∃ w, stringify numbers w = stringify numbers v := ⟨v, rfl⟩
  dsimp only
  rw [dif_pos hex, stringify_inj hnum hex.choose_spec]

end Json
