import VulosRelay.Gateway.Dkim

/-!
# The fields of a message

How the header block of a message is cut into fields, line by line. A field in front of a
message becomes the first of its fields (`splitHeadersBody_line`).
-/

namespace VulosRelay.Gateway.Dkim

open List Option Crlf

open Crlf (isWsp)

/-- A line that starts a field. -/
def IsFieldLine (raw : List UInt8) : Prop :=
  (∃ b rest, raw = b :: rest ∧ isWsp b = false) ∧ (0x3A : UInt8) ∈ raw

def fieldOf (raw : List UInt8) : Field :=
  (Utf8.decodeLossy (raw.takeWhile (· != 0x3A)), (raw.dropWhile (· != 0x3A)).drop 1)

theorem addLine_field (h : IsFieldLine raw) :
    addLine out raw = out ++ [fieldOf raw] := by
  obtain ⟨⟨b, rest, rfl, hb⟩, hcl⟩ := h
  simp only [addLine]
  rw [if_neg (by rw [hb]; exact nofun), if_pos (contains_iff_mem.mpr hcl)]
  rfl

theorem extendLast_append (h : out ≠ []) :
    extendLast (init ++ out) raw = init ++ extendLast out raw := by
  have hls : (init ++ out).getLast? = out.getLast? := getLast?_append_of_ne_nil _ h
  rw [extendLast, extendLast, hls]
  cases out.getLast? with
  | none => rfl
  | some field =>
    simp only
    rw [dropLast_append_of_ne_nil h, append_assoc]

theorem addLine_append (h : out ≠ []) :
    addLine (init ++ out) raw = init ++ addLine out raw := by
  unfold addLine
  split
  · rfl
  split
  · exact extendLast_append h
  split
  · exact append_assoc ..
  · rfl

theorem addLine_ne_nil (h : out ≠ []) : addLine out raw ≠ [] := by
  unfold addLine
  split
  · exact h
  split
  · unfold extendLast
    split
    · exact h
    · simp
  · split
    · simp
    · exact h

theorem foldl_addLine_append (init : List Field) (lines : List (List UInt8)) :
    ∀ {out : List Field}, out ≠ [] →
      lines.foldl addLine (init ++ out) = init ++ lines.foldl addLine out := by
  induction lines with
  | nil => exact fun _ => rfl
  | cons raw lines ih =>
    intro out h
    rw [foldl_cons, foldl_cons, addLine_append h, ih (addLine_ne_nil h)]

/-- The message starts with a header field. -/
def StartsWithField (message : List UInt8) : Prop :=
  ∃ line lines, Crlf.split message = line :: lines ∧ IsFieldLine line

variable {message body : List UInt8}

theorem splitBlankLine_some {head : List UInt8} (h : splitBlankLine message = some (head, body)) :
    message = head ++ [13, 10, 13, 10] ++ body := by
  induction message generalizing head body with
  | nil => cases h
  | cons b rest ih =>
    rw [splitBlankLine] at h
    split at h
    · rename_i hpr
      obtain ⟨more, hmr⟩ := hpr
      obtain ⟨rfl, rfl⟩ := cons.inj hmr
      obtain ⟨rfl, rfl⟩ := Prod.mk.inj (some.inj h)
      rfl
    · obtain ⟨⟨head', body'⟩, hrs, heq⟩ := map_eq_some_iff.mp h
      obtain ⟨rfl, rfl⟩ := Prod.mk.inj heq
      rw [ih hrs]
      rfl

theorem splitBlankLine_line (hln : (13 : UInt8) ∉ line) (hmsg : ¬ [13, 10] <+: message) :
    splitBlankLine (line ++ 13 :: 10 :: message)
      = (splitBlankLine message).map fun r => (line ++ 13 :: 10 :: r.1, r.2) := by
  induction line with
  | nil =>
    have h10 : splitBlankLine (10 :: message)
        = (splitBlankLine message).map fun r => (10 :: r.1, r.2) := by
      rw [splitBlankLine, if_neg]
      rintro ⟨more, hmr⟩
      cases hmr
    rw [nil_append, splitBlankLine, if_neg, h10, Option.map_map]
    · rfl
    · rintro ⟨more, hmr⟩
      exact hmsg ⟨more, (cons.inj (cons.inj hmr).2).2⟩
  | cons b line ih =>
    rw [mem_cons, not_or] at hln
    rw [cons_append, splitBlankLine, if_neg, ih hln.2, Option.map_map]
    · rfl
    · rintro ⟨more, hmr⟩
      exact hln.1 (cons.inj hmr).1

theorem StartsWithField.not_prefix (h : StartsWithField message) : ¬ [13, 10] <+: message := by
  rintro ⟨more, rfl⟩
  obtain ⟨line, lines, hsp, ⟨b, rest, rfl, _⟩, _⟩ := h
  have hpr : split ([13, 10] ++ more) = [] :: split more := split_pair more
  rw [hpr] at hsp
  cases hsp

theorem StartsWithField.head {head : List UInt8}
    (h : StartsWithField (head ++ [13, 10, 13, 10] ++ body)) : StartsWithField head := by
  obtain ⟨line, lines, hsp, hfl⟩ := h
  have hap : split (head ++ [13, 10, 13, 10] ++ body)
      = glue (split head) (split (13 :: 10 :: 13 :: 10 :: body)) := by
    rw [append_assoc]
    exact split_append (by simp)
  rw [hap, split_pair] at hsp
  cases hhd : split head with
  | nil => exact absurd hhd (split_ne_nil head)
  | cons l ls =>
    rw [hhd] at hsp
    cases ls with
    | nil =>
      simp only [glue, headD_cons, append_nil, cons.injEq] at hsp
      exact ⟨l, [], hhd, hsp.1 ▸ hfl⟩
    | cons l' ls =>
      rw [glue_cons (cons_ne_nil _ _)] at hsp
      exact ⟨l, l' :: ls, hhd, (cons.inj hsp).1 ▸ hfl⟩

theorem parseHeaders_line {line head : List UInt8} (hcr : (13 : UInt8) ∉ line)
    (hln : IsFieldLine line) (hhd : StartsWithField head) :
    parseHeaders (line ++ 13 :: 10 :: head) = fieldOf line :: parseHeaders head := by
  obtain ⟨first, lines, hsp, hfst⟩ := hhd
  rw [parseHeaders, split_line (noCrlf_of_not_mem hcr), parseHeaders, hsp]
  simp only [foldl_cons]
  rw [addLine_field hln, addLine_field hfst, addLine_field hfst]
  exact foldl_addLine_append [fieldOf line] lines (cons_ne_nil _ _)

/-- **A field in front of a message** becomes its first field, and the body stays. -/
theorem splitHeadersBody_line (hcr : (13 : UInt8) ∉ line) (hln : IsFieldLine line)
    (hmsg : StartsWithField message) :
    splitHeadersBody (line ++ 13 :: 10 :: message)
      = (fieldOf line :: (splitHeadersBody message).1, (splitHeadersBody message).2) := by
  rw [splitHeadersBody, splitBlankLine_line hcr hmsg.not_prefix, splitHeadersBody]
  cases hbl : splitBlankLine message with
  | none =>
    simp only [map_none]
    rw [parseHeaders_line hcr hln hmsg]
  | some r =>
    obtain ⟨head, body⟩ := r
    have hhd : StartsWithField head := by
      rw [splitBlankLine_some hbl] at hmsg
      exact hmsg.head
    simp only [map_some]
    rw [parseHeaders_line hcr hln hhd]

theorem verify_of_tags (hsp : splitHeadersBody message = (headers, body))
    (hfn : findHeader headers "dkim-signature".toList = some field)
    (htg : checkTags (parseTags (Utf8.decodeLossy field.2)) (bodyHash crypto body)
      = .ok (names, b)) :
    verify crypto message publicKey
      = checkSignature crypto (signingInput headers names (emptyBValue field.2)) publicKey b := by
  unfold verify
  simp only [hsp, hfn, htg]
  rfl

theorem signingDomainSelector_of_tags (hsp : splitHeadersBody message = (headers, body))
    (hfn : findHeader headers "dkim-signature".toList = some field)
    (htg : parseTags (Utf8.decodeLossy field.2) = tags) (hd : getTag tags "d".toList = some d)
    (hs : getTag tags "s".toList = some s) : signingDomainSelector message = some (d, s) := by
  subst htg
  unfold signingDomainSelector
  simp only [hsp, hfn, bind_eq_bind, bind_some, hd, hs]
  rfl

end VulosRelay.Gateway.Dkim
