import VulosRelay.Gateway.Dkim
import Mathlib.Data.List.DropRight
import Mathlib.Data.List.TakeWhile

/-!
# The tag list of a signature

What `parse_tags` and `empty_b_value` make of the value of a `DKIM-Signature` field. Both are
described by the parts of the list between its semicolons: one reads a name and a value from a
part, the other takes the value out of a part that is a `b` tag. The tags that `sign` writes
are the tags that are read (`parseTags_signature`).
-/

namespace VulosRelay.Gateway.Dkim

open List

open Crlf (isWsp)

/-! ## Tag lists -/

variable {c : Char} {p tail : List UInt8}

theorem trimStart_append_solid (p : Str) (hc : isWhitespace c = false) (q : Str) :
    trimStart (p ++ c :: q) = trimStart p ++ c :: q := by
  induction p with
  | nil => exact trimStart_solid ⟨c, q, rfl, hc⟩
  | cons d p ih =>
    rw [trimStart, trimStart, cons_append, dropWhile_cons, dropWhile_cons]
    split
    · exact ih
    · rfl

theorem trimEnd_append_solid {p : Str} (hc : isWhitespace c = false) {q : Str} :
    trimEnd (p ++ c :: q) = p ++ c :: trimEnd q := by
  have h := trimStart_append_solid q.reverse hc p.reverse
  rw [trimEnd, reverse_append, reverse_cons, append_assoc, singleton_append]
  change (trimStart (q.reverse ++ c :: p.reverse)).reverse = _
  rw [h, reverse_append, reverse_cons, reverse_reverse, append_assoc, singleton_append]
  rfl

theorem trim_append_solid {p : Str} (hc : isWhitespace c = false) {q : Str} :
    trim (p ++ c :: q) = trimStart p ++ c :: trimEnd q := by
  rw [trim, trimStart_append_solid p hc, trimEnd_append_solid hc]

theorem trim_trimStart : trim (trimStart s) = trim s := by
  rw [trim, trimStart, trimStart, dropWhile_idempotent]
  rfl

def solid (s : Str) : Str := s.filter fun c => !isWhitespace c

theorem solid_trimStart (s : Str) : solid (trimStart s) = solid s := by
  induction s with
  | nil => rfl
  | cons c s ih =>
    cases hc : isWhitespace c with
    | true =>
      have hcn : trimStart (c :: s) = trimStart s := dropWhile_cons_of_pos hc
      rw [hcn, ih, solid, solid, filter_cons_of_neg (by simp [hc])]
    | false => rw [trimStart_solid ⟨c, s, rfl, hc⟩]

theorem solid_trimEnd : solid (trimEnd s) = solid s := by
  have h := solid_trimStart s.reverse
  unfold solid at h ⊢
  rw [trimEnd, filter_reverse]
  change (filter _ (trimStart s.reverse)).reverse = _
  rw [h, filter_reverse, reverse_reverse]

theorem mem_of_mem_trim (h : c ∈ trim s) : c ∈ s := by
  have hst : c ∈ trimStart s :=
    mem_reverse.mp ((dropWhile_sublist _).subset (mem_reverse.mp h))
  exact (dropWhile_sublist _).subset hst

theorem parseTag_eq {part : Str} :
    parseTag part = (splitOnce '=' part).map fun r => (trim r.1, solid r.2) := by
  by_cases hmem : '=' ∈ part
  · obtain ⟨p, q, rfl, hp⟩ := eq_append_cons_of_mem hmem
    have hp' : '=' ∉ trimStart p := fun h => hp ((dropWhile_sublist _).subset h)
    have hne : trimStart p ++ '=' :: trimEnd q ≠ [] := by simp
    rw [parseTag, trim_append_solid (by decide), if_neg hne, splitOnce_append hp',
      splitOnce_append hp]
    change some (trim (trimStart p), solid (trimEnd q)) = some (trim p, solid q)
    rw [trim_trimStart, solid_trimEnd]
  · rw [parseTag, splitOnce_none hmem, splitOnce_none fun h => hmem (mem_of_mem_trim h)]
    split <;> rfl

theorem splitAt_cons {p : Str} (h : c ∉ p) {rest : Str} :
    splitAt c (p ++ c :: rest) = p :: splitAt c rest := by
  induction p with
  | nil => simp [splitAt, splitWhen]
  | cons d p ih =>
    rw [mem_cons, not_or] at h
    have hd : (d == c) = false := by simpa using fun hd => h.1 hd.symm
    unfold splitAt at ih ⊢
    rw [cons_append, splitWhen, hd, ih h.2]
    rfl

theorem splitAt_last {p : Str} (h : c ∉ p) : splitAt c p = [p] := by
  induction p with
  | nil => rfl
  | cons d p ih =>
    rw [mem_cons, not_or] at h
    have hd : (d == c) = false := by simpa using fun hd => h.1 hd.symm
    unfold splitAt at ih ⊢
    rw [splitWhen, hd, ih h.2]
    rfl

theorem splitAt_intercalate : ∀ {ps : List Str}, ps ≠ [] → (∀ p ∈ ps, c ∉ p) →
    splitAt c ([c].intercalate ps) = ps
  | [], hne, _ => absurd rfl hne
  | [p], _, h => by
    rw [intercalate_singleton]
    exact splitAt_last (h p (mem_singleton_self p))
  | p :: q :: ps, _, h => by
    rw [forall_mem_cons] at h
    rw [intercalate_cons_cons, append_assoc, singleton_append, splitAt_cons h.1,
      splitAt_intercalate (cons_ne_nil q ps) h.2]

theorem mem_intercalate (h : c ∈ [sep].intercalate ps) : c = sep ∨ ∃ p ∈ ps, c ∈ p := by
  induction ps with
  | nil => cases h
  | cons p ps ih =>
    cases ps with
    | nil =>
      rw [intercalate_singleton] at h
      exact .inr ⟨p, mem_singleton_self p, h⟩
    | cons q ps =>
      rw [intercalate_cons_cons, mem_append, mem_append, mem_singleton] at h
      rcases h with (h | h) | h
      · exact .inr ⟨p, .head _, h⟩
      · exact .inl h
      rcases ih h with h | ⟨r, hr, h⟩
      · exact .inl h
      · exact .inr ⟨r, .tail _ hr, h⟩

theorem parseTag_tag (h : '=' ∉ name) :
    parseTag (name ++ '=' :: value) = some (trim name, solid value) := by
  rw [parseTag_eq, splitOnce_append h]
  rfl

/-! ## The tags of a signature -/

section
variable {κ : Type} {key : DkimKey κ} {t : Nat} {names : List Str} {bh b : Str}

def signatureTags (key : DkimKey κ) (t : Nat) (names : List Str) (bh b : Str) : List (Str × Str) :=
  [("v".toList, "1".toList), ("a".toList, "ed25519-sha256".toList),
    ("c".toList, "relaxed/relaxed".toList), ("d".toList, solid key.domain),
    ("s".toList, solid key.selector), ("t".toList, solid (Nat.toDigits 10 t)),
    ("h".toList, solid ([':'].intercalate names)), ("bh".toList, solid bh),
    ("b".toList, solid b)]

def signatureParts (key : DkimKey κ) (t : Nat) (names : List Str) (bh b : Str) : List Str :=
  ["v=1".toList, " a=ed25519-sha256".toList, " c=relaxed/relaxed".toList,
    " d=".toList ++ key.domain, " s=".toList ++ key.selector, " t=".toList ++ Nat.toDigits 10 t,
    " h=".toList ++ [':'].intercalate names, " bh=".toList ++ bh, " b=".toList ++ b]

theorem nine_parts (v a c : Str) {d t h bh b domain selector time names hash signature : Str} :
    (v ++ [';'] ++ a ++ [';'] ++ c ++ ([';'] ++ d)) ++ domain ++ ([';'] ++ s) ++ selector
        ++ ([';'] ++ t) ++ time ++ ([';'] ++ h) ++ names ++ ([';'] ++ bh) ++ hash
        ++ ([';'] ++ b) ++ signature
      = [';'].intercalate [v, a, c, d ++ domain, s ++ selector, t ++ time, h ++ names, bh ++ hash,
          b ++ signature] := by
  simp only [intercalate_cons_cons, intercalate_singleton, append_assoc]

theorem signatureBase_append :
    signatureBase key t names bh ++ b = [';'].intercalate (signatureParts key t names bh b) :=
  nine_parts "v=1".toList " a=ed25519-sha256".toList " c=relaxed/relaxed".toList

theorem digits_plain (t : Nat) :
    ∀ c ∈ Nat.toDigits 10 t, c ≠ ';' ∧ isWhitespace c = false ∧ c.toNat < 128 := by
  intro c hc
  have hdg := Nat.isDigit_of_mem_toDigits (by decide) (by decide) hc
  have hrn : 48 ≤ c.toNat ∧ c.toNat ≤ 57 := by
    simp only [Char.isDigit, ge_iff_le, Bool.and_eq_true, decide_eq_true_eq] at hdg
    exact hdg
  refine ⟨?_, ?_, by omega⟩
  · rintro rfl
    exact absurd hrn.2 (by decide)
  · simp only [isWhitespace, Bool.or_eq_false_iff, decide_eq_false_iff_not, beq_eq_false_iff_ne]
    omega

theorem parseTag_literal (written : Str) (hlit : literal = written ++ ['=']) (h : '=' ∉ written)
    (hnm : trim written = name) :
    parseTag (literal ++ value) = some (name, solid value) := by
  rw [hlit, append_assoc, singleton_append, parseTag_tag h, hnm]

theorem filterMap_of_forall₂ (h : List.Forall₂ (fun x y => f x = some y) xs ys) :
    xs.filterMap f = ys := by
  induction h with
  | nil => rfl
  | cons hxy _ ih => rw [filterMap_cons_some hxy, ih]

theorem signatureParts_tags :
    List.Forall₂ (fun part tag => parseTag part = some tag) (signatureParts key t names bh b)
      (signatureTags key t names bh b) :=
  .cons rfl <| .cons rfl <| .cons rfl <|
    .cons (parseTag_literal " d".toList rfl (by decide) rfl) <|
    .cons (parseTag_literal " s".toList rfl (by decide) rfl) <|
    .cons (parseTag_literal " t".toList rfl (by decide) rfl) <|
    .cons (parseTag_literal " h".toList rfl (by decide) rfl) <|
    .cons (parseTag_literal " bh".toList rfl (by decide) rfl) <|
    .cons (parseTag_literal " b".toList rfl (by decide) rfl) .nil

def signatureLiterals : List Str :=
  ["v=1".toList, " a=ed25519-sha256".toList, " c=relaxed/relaxed".toList, " d=".toList,
    " s=".toList, " t=".toList, " h=".toList, " bh=".toList, " b=".toList]

theorem not_mem_signatureParts (hlt : ∀ part ∈ signatureLiterals, x ∉ part)
    (hdg : x ∉ Nat.toDigits 10 t) (hdom : x ∉ key.domain) (hsel : x ∉ key.selector)
    (hnm : x ∉ [':'].intercalate names) (hbh : x ∉ bh) (hb : x ∉ b) :
    ∀ part ∈ signatureParts key t names bh b, x ∉ part := by
  simp only [signatureLiterals, forall_mem_cons] at hlt
  obtain ⟨hv, ha, hc, hd, hs, ht, hh, hbh', hb', -⟩ := hlt
  simp only [signatureParts, forall_mem_cons, mem_append, not_or]
  exact ⟨hv, ha, hc, ⟨hd, hdom⟩, ⟨hs, hsel⟩, ⟨ht, hdg⟩, ⟨hh, hnm⟩, ⟨hbh', hbh⟩, ⟨hb', hb⟩, nofun⟩

theorem signatureParts_plain (hdom : ';' ∉ key.domain) (hsel : ';' ∉ key.selector)
    (hnm : ';' ∉ [':'].intercalate names) (hbh : ';' ∉ bh) (hb : ';' ∉ b) :
    ∀ part ∈ signatureParts key t names bh b, ';' ∉ part :=
  not_mem_signatureParts (by decide) (fun h => (digits_plain t _ h).1 rfl) hdom hsel hnm
    hbh hb

theorem signatureBase_no_cr (hdom : '\r' ∉ key.domain) (hsel : '\r' ∉ key.selector)
    (hnm : '\r' ∉ [':'].intercalate names) (hbh : '\r' ∉ bh) (hb : '\r' ∉ b) :
    '\r' ∉ signatureBase key t names bh ++ b := by
  rw [signatureBase_append]
  intro hmem
  rcases mem_intercalate hmem with h | ⟨part, hpr, h⟩
  · cases h
  refine not_mem_signatureParts (by decide) (fun hdg => ?_) hdom hsel hnm hbh hb
    part hpr h
  exact absurd (digits_plain t _ hdg).2.1 (by decide)

theorem parseTags_signature (hdom : ';' ∉ key.domain) (hsel : ';' ∉ key.selector)
    (hnm : ';' ∉ [':'].intercalate names) (hbh : ';' ∉ bh) (hb : ';' ∉ b) :
    parseTags (signatureBase key t names bh ++ b) = signatureTags key t names bh b := by
  have hne : signatureParts key t names bh b ≠ [] := cons_ne_nil _ _
  rw [signatureBase_append, parseTags, splitAt_intercalate hne
    (signatureParts_plain hdom hsel hnm hbh hb)]
  exact filterMap_of_forall₂ signatureParts_tags

end

theorem parseTags_space (x : Str) : parseTags (' ' :: x) = parseTags x := by
  have hsp : splitAt ';' (' ' :: x)
      = (' ' :: (splitAt ';' x).headD []) :: (splitAt ';' x).tail := rfl
  have htag : ∀ p, parseTag (' ' :: p) = parseTag p := fun p => by
    have htr : trim (' ' :: p) = trim p := by
      rw [trim, trim, trimStart, dropWhile_cons_of_pos (by decide)]
      rfl
    rw [parseTag, htr, parseTag]
  rw [parseTags, hsp, filterMap_cons, htag, ← filterMap_cons, parseTags]
  congr 1
  cases hx : splitAt ';' x with
  | nil => cases x <;> simp [splitAt, splitWhen] at hx; split at hx <;> cases hx
  | cons p ps => rfl

/-! ## Emptying the `b` tag

`empty_b_value` works on each part of the tag list by itself: a part that is a `b` tag loses
what follows its equals sign.
-/

def startsB : List UInt8 → Bool
  | [] => false
  | b :: rest => b == 0x62 && (rest.dropWhile isWsp).head? == some 0x3D

def emptyPart (first : Bool) (p : List UInt8) : List UInt8 :=
  let ws := if first then [] else p.takeWhile isWsp
  if startsB (p.drop ws.length) then ws ++ [0x62, 0x3D] else p

def EndsPart (tail : List UInt8) : Prop := tail = [] ∨ ∃ rest, tail = 0x3B :: rest

theorem emptyBFrom_semicolon {skipping : Bool} :
    emptyBFrom skipping before (0x3B :: rest) = 0x3B :: emptyBFrom false (0x3B :: before) rest := by
  cases skipping with
  | true => rw [emptyBFrom, if_pos rfl]
  | false => simp [emptyBFrom]

theorem emptyBFrom_tail (h : EndsPart tail) :
    emptyBFrom true before tail = emptyBFrom false before tail := by
  rcases h with rfl | ⟨rest, rfl⟩
  · rw [emptyBFrom, emptyBFrom]
  · rw [emptyBFrom_semicolon, emptyBFrom_semicolon]

theorem emptyBFrom_skip (h : (0x3B : UInt8) ∉ p) :
    emptyBFrom true before (p ++ tail) = emptyBFrom true (p.reverse ++ before) tail := by
  induction p generalizing before with
  | nil => rfl
  | cons b p ih =>
    rw [mem_cons, not_or] at h
    rw [cons_append, emptyBFrom, if_neg fun hb => h.1 hb.symm, ih h.2, reverse_cons, append_assoc]
    rfl

theorem emptyBFrom_keep (h : (0x3B : UInt8) ∉ p) (hne : before ≠ [])
    (hpre : (before.dropWhile isWsp).head? ≠ some 0x3B) :
    emptyBFrom false before (p ++ tail) = p ++ emptyBFrom false (p.reverse ++ before) tail := by
  induction p generalizing before with
  | nil => rfl
  | cons b p ih =>
    rw [mem_cons, not_or] at h
    have hbd : atBoundary before = false := by
      simp [atBoundary, hne, hpre]
    have hnx : ((b :: before).dropWhile isWsp).head? ≠ some 0x3B := by
      rw [dropWhile_cons]
      split
      · exact hpre
      · simpa using fun hb => h.1 hb.symm
    rw [cons_append, emptyBFrom, hbd, Bool.false_and, Bool.false_and,
      if_neg Bool.false_ne_true, ih h.2 (cons_ne_nil _ _) hnx, reverse_cons,
      append_assoc]
    rfl

theorem head_dropWhile_append (htl : EndsPart tail) :
    (((p ++ tail).dropWhile isWsp).head? == some 0x3D)
      = ((p.dropWhile isWsp).head? == some 0x3D) := by
  induction p with
  | nil =>
    rcases htl with rfl | ⟨rest, rfl⟩ <;> rfl
  | cons b p ih =>
    rw [cons_append, dropWhile_cons, dropWhile_cons]
    split
    · exact ih
    · rfl

theorem emptyBFrom_tag (h : (0x3B : UInt8) ∉ p) (hst : startsB p = true)
    (hbd : atBoundary before = true) (htl : EndsPart tail) :
    emptyBFrom false before (p ++ tail)
      = [0x62, 0x3D] ++ emptyBFrom false (p.reverse ++ before) tail := by
  cases p with
  | nil => cases hst
  | cons b p =>
    rw [mem_cons, not_or] at h
    rw [startsB, Bool.and_eq_true] at hst
    rw [cons_append, emptyBFrom, hbd, hst.1, head_dropWhile_append htl,
      hst.2, if_pos (by decide), emptyBFrom_skip h.2, emptyBFrom_tail htl,
      reverse_cons, append_assoc]
    rfl

theorem emptyBFrom_other (hst : startsB (b :: p) = false) (htl : EndsPart tail) :
    emptyBFrom false before (b :: p ++ tail)
      = b :: emptyBFrom false (b :: before) (p ++ tail) := by
  rw [startsB] at hst
  rw [cons_append, emptyBFrom, head_dropWhile_append htl, Bool.and_assoc, hst,
    Bool.and_false, if_neg Bool.false_ne_true]

theorem emptyBFrom_first (h : (0x3B : UInt8) ∉ p) (htl : EndsPart tail) :
    emptyBFrom false [] (p ++ tail) = emptyPart true p ++ emptyBFrom false p.reverse tail := by
  cases p with
  | nil => rfl
  | cons b p =>
    simp only [emptyPart, if_true, length_nil, drop_zero, nil_append]
    cases hst : startsB (b :: p) with
    | true =>
      rw [emptyBFrom_tag h hst rfl htl, append_nil]
      rfl
    | false =>
      rw [mem_cons, not_or] at h
      have hpre : (([b] : List UInt8).dropWhile isWsp).head? ≠ some 0x3B := by
        rw [dropWhile_cons]
        split
        · exact nofun
        · simpa using fun hb => h.1 hb.symm
      rw [emptyBFrom_other hst htl, emptyBFrom_keep h.2 (cons_ne_nil _ _) hpre, reverse_cons]
      rfl

theorem emptyBFrom_part (h : (0x3B : UInt8) ∉ p)
    (hpre : (before.dropWhile isWsp).head? = some 0x3B) (htl : EndsPart tail) :
    emptyBFrom false before (p ++ tail)
      = emptyPart false p ++ emptyBFrom false (p.reverse ++ before) tail := by
  have hbd : ∀ bs : List UInt8, (bs.dropWhile isWsp).head? = some 0x3B →
      atBoundary bs = true := fun bs hbs => by simp [atBoundary, hbs]
  induction p generalizing before with
  | nil => rfl
  | cons b p ih =>
    have hmem := h
    rw [mem_cons, not_or] at h
    cases hb : isWsp b with
    | true =>
      have hst : startsB (b :: p) = false := by
        have hne : (b == 0x62) = false := by
          cases hcs : b == 0x62 with
          | false => rfl
          | true =>
            rw [beq_iff_eq.mp hcs] at hb
            cases hb
        rw [startsB, hne, Bool.false_and]
      have hnx : ((b :: before).dropWhile isWsp).head? = some 0x3B := by
        rw [dropWhile_cons_of_pos hb]
        exact hpre
      have hpr : emptyPart false (b :: p) = b :: emptyPart false p := by
        simp only [emptyPart, Bool.false_eq_true, if_false, takeWhile_cons, hb, if_true,
          length_cons, drop_succ_cons]
        split <;> rfl
      rw [emptyBFrom_other hst htl, ih h.2 hnx, hpr, reverse_cons, append_assoc]
      rfl
    | false =>
      have hws : (b :: p).takeWhile isWsp = [] := takeWhile_cons_of_neg (by simp [hb])
      simp only [emptyPart, Bool.false_eq_true, if_false, hws, length_nil, drop_zero, nil_append]
      cases hst : startsB (b :: p) with
      | true =>
        rw [emptyBFrom_tag hmem hst (hbd before hpre) htl]
        rfl
      | false =>
        have hkp : ((b :: before).dropWhile isWsp).head? ≠ some 0x3B := by
          rw [dropWhile_cons_of_neg (by simp [hb])]
          simpa using fun hb => h.1 hb.symm
        rw [emptyBFrom_other hst htl,
          emptyBFrom_keep h.2 (cons_ne_nil _ _) hkp, reverse_cons,
          append_assoc]
        rfl

theorem emptyBFrom_parts : ∀ (ps : List (List UInt8)), (∀ p ∈ ps, (0x3B : UInt8) ∉ p) →
    ∀ {before : List UInt8}, (before.dropWhile isWsp).head? = some 0x3B →
      emptyBFrom false before ([0x3B].intercalate ps)
        = [0x3B].intercalate (ps.map (emptyPart false))
  | [], _, _, _ => rfl
  | [p], h, before, hpre => by
    have hpr := emptyBFrom_part (h p (mem_singleton_self p)) hpre (.inl rfl)
    rw [append_nil] at hpr
    rw [map_singleton, intercalate_singleton, intercalate_singleton, hpr, emptyBFrom, append_nil]
  | p :: q :: ps, h, before, hpre => by
    rw [forall_mem_cons] at h
    have hrs : emptyBFrom false (0x3B :: (p.reverse ++ before)) ([0x3B].intercalate (q :: ps))
        = [0x3B].intercalate ((q :: ps).map (emptyPart false)) :=
      emptyBFrom_parts (q :: ps) h.2 rfl
    rw [intercalate_cons_cons, append_assoc, singleton_append,
      emptyBFrom_part h.1 hpre (.inr ⟨_, rfl⟩), emptyBFrom_semicolon, hrs,
      map_cons, map_cons, map_cons, intercalate_cons_cons,
      append_assoc]
    rfl

theorem emptyBValue_parts (hp : (0x3B : UInt8) ∉ p) (hps : ∀ q ∈ ps, (0x3B : UInt8) ∉ q) :
    emptyBValue ([0x3B].intercalate (p :: ps))
      = [0x3B].intercalate (emptyPart true p :: ps.map (emptyPart false)) := by
  cases ps with
  | nil =>
    have hpr := emptyBFrom_first hp (.inl rfl : EndsPart [])
    rw [append_nil] at hpr
    rw [emptyBValue, map_nil, intercalate_singleton, intercalate_singleton, hpr,
      emptyBFrom, append_nil]
  | cons q qs =>
    rw [emptyBValue, intercalate_cons_cons, append_assoc, singleton_append,
      emptyBFrom_first hp (.inr ⟨_, rfl⟩), emptyBFrom_semicolon,
      emptyBFrom_parts (q :: qs) hps rfl, map_cons, intercalate_cons_cons,
      append_assoc]
    rfl

end VulosRelay.Gateway.Dkim
