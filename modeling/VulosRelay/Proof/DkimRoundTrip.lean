import VulosRelay.Proof.DkimTags
import VulosRelay.Proof.DkimHeaders

/-!
# A signature verifies

`sign` writes the signing input from a formatted value and the header list of the message;
`verify` finds the value among the parsed headers, reads its tags, empties `b=` in its bytes
and canonicalizes it anew. For a message with the signature in front the two inputs are the
same:

* the signature becomes the first field and no name in `h=` is its own, so the same fields are
  collected (`assembleSignedHeaders_cons`);
* the tags that are read are those that were written, and of their parts only the last is a
  `b` tag (`emptyBValue_signature`);
* the space behind the colon goes away in canonicalization.
-/

namespace VulosRelay.Gateway.Dkim

open List Utf8

open Crlf (isWsp)

/-- Ed25519 verifies its own signatures. -/
structure Crypto.Lawful {κ : Type} (crypto : Crypto κ) : Prop where
  /-- Public keys are 32 bytes that the verifier takes for a key. -/
  public_length : ∀ k, (crypto.publicBytes k).length = 32
  public_isKey : ∀ k, crypto.isKey (crypto.publicBytes k) = true
  /-- Signatures are 64 bytes. -/
  sign_length : ∀ k digest, (crypto.sign k digest).length = 64
  /-- A signature verifies under the key that made it. -/
  verify_sign : ∀ k digest,
    crypto.verify (crypto.publicBytes k) digest (crypto.sign k digest) = true

/-- A word for a tag: no semicolon, no equals sign and no white space. -/
def IsToken (s : Str) : Prop := ∀ c ∈ s, c ≠ ';' ∧ c ≠ '=' ∧ isWhitespace c = false

theorem solid_eq_self (h : ∀ c ∈ s, isWhitespace c = false) : solid s = s := by
  rw [solid, filter_eq_self]
  intro c hc
  rw [h c hc]
  rfl

/-! ## The names in `h=` -/

variable {headers : List Field}

theorem mem_headerNames (h : name ∈ headerNames headers) : name ∈ signedHeaders := by
  rcases mem_append.mp h with h | h
  · exact mem_of_mem_filter h
  · rw [mem_singleton.mp h]
    exact .head _

theorem signedHeaders_plain : ∀ name ∈ signedHeaders,
    name ≠ [] ∧ ∀ c ∈ name, c ≠ ':' ∧ c ≠ ';' ∧ isWhitespace c = false := by
  simp only [← all_iff_forall_prop]
  decide

theorem splitNames_intercalate (hne : names ≠ []) (h : ∀ name ∈ names, name ∈ signedHeaders) :
    splitNames ([':'].intercalate names) = names := by
  have hpl := fun name hnm => signedHeaders_plain name (h name hnm)
  have hcl : ∀ name ∈ names, ':' ∉ name := fun name hnm hmem =>
    ((hpl name hnm).2 _ hmem).1 rfl
  have htr : names.map trim = names :=
    (map_congr_left fun name hnm => trim_word fun c hc =>
      ((hpl name hnm).2 c hc).2.2).trans (map_id names)
  rw [splitNames, splitAt_intercalate hne hcl, htr, filter_eq_self]
  intro name hnm
  exact decide_eq_true (hpl name hnm).1

theorem intercalate_plain (h : ∀ name ∈ names, name ∈ signedHeaders) :
    ∀ c ∈ [':'].intercalate names, c ≠ ';' ∧ isWhitespace c = false := by
  intro c hc
  rcases mem_intercalate hc with rfl | ⟨name, hnm, hmem⟩
  · decide
  · exact ((signedHeaders_plain name (h name hnm)).2 c hmem).2

/-! ## The field of the signature -/

theorem not_isNamed_signature (value : List UInt8) : ∀ name ∈ signedHeaders,
    isNamed (trim name) ("DKIM-Signature".toList, value) = false := by
  have h : ∀ name ∈ signedHeaders,
      eqIgnoreAsciiCase (trim "DKIM-Signature".toList) (trim name) = false := by decide
  exact h

theorem instanceOf_cons (h : isNamed (trim name) field = false) :
    instanceOf (field :: headers) earlier name = instanceOf headers earlier name := by
  rw [instanceOf, reverse_cons, filter_append,
    filter_cons_of_neg (by rw [h]; exact nofun), filter_nil, append_nil]
  rfl

theorem assembleSignedHeaders_cons (h : ∀ name ∈ names, isNamed (trim name) field = false) :
    assembleSignedHeaders (field :: headers) names = assembleSignedHeaders headers names := by
  have hfr : ∀ earlier, assembleFrom (field :: headers) earlier names
      = assembleFrom headers earlier names := by
    induction names with
    | nil => exact fun _ => rfl
    | cons name names ih =>
      rw [forall_mem_cons] at h
      intro earlier
      rw [assembleFrom, instanceOf_cons h.1, ih h.2, assembleFrom]
  exact hfr []

theorem findHeader_cons (hnm : isNamed name field = true) (hno : findHeader headers name = none) :
    findHeader (field :: headers) name = some field := by
  rw [findHeader] at hno ⊢
  rw [reverse_cons, find?_append, hno, Option.none_or, find?_singleton, hnm]
  rfl

theorem relaxFrom_not_started {inWsp : Bool} :
    relaxFrom inWsp false value = relaxFrom false false value := by
  induction value using Crlf.split.induct with
  | case1 => rw [relaxFrom, relaxFrom]
  | case2 b => simp only [relaxFrom, Bool.and_false]
  | case3 b c rest hpr ih => rw [relaxFrom, if_pos hpr, ih, relaxFrom, if_pos hpr]
  | case4 b c rest hpr _ =>
    rw [relaxFrom, if_neg hpr, relaxFrom, if_neg hpr, Bool.and_false, Bool.and_false]

theorem relaxValue_space : relaxValue (32 :: value) = relaxValue value := by
  cases value with
  | nil => rfl
  | cons c rest =>
    rw [relaxValue, relaxFrom, if_neg (fun h => absurd h.1 (by decide)), if_pos (by decide),
      relaxFrom_not_started]
    rfl

/-! ## Emptying `b=` -/

theorem encode_intercalate : ∀ parts : List Str,
    encode ([';'].intercalate parts) = [0x3B].intercalate (parts.map encode)
  | [] => rfl
  | [p] => by
    rw [map_singleton, intercalate_singleton, intercalate_singleton]
  | p :: q :: parts => by
    rw [intercalate_cons_cons, encode_append, encode_append,
      encode_intercalate (q :: parts), map_cons, map_cons, map_cons,
      intercalate_cons_cons]
    rfl

theorem encode_no_semicolon (h : ';' ∉ s) : (0x3B : UInt8) ∉ encode s :=
  fun hmem => h (mem_of_mem_encode hmem (by decide))

theorem emptyPart_other (hc : isWsp c = false) (h : startsB (c :: rest) = false) :
    emptyPart false (32 :: c :: rest) = 32 :: c :: rest := by
  have hws : (32 :: c :: rest).takeWhile isWsp = [32] := by
    rw [takeWhile_cons_of_pos (by decide), takeWhile_cons_of_neg (by simp [hc])]
  simp only [emptyPart, Bool.false_eq_true, if_false, hws, length_singleton,
    drop_succ_cons, drop_zero, h]

section
variable {κ : Type} {key : DkimKey κ} {t : Nat} {names : List Str} {bh b : Str}

def valueParts (key : DkimKey κ) (t : Nat) (names : List Str) (bh b : Str) : List Str :=
  (' ' :: "v=1".toList) :: (signatureParts key t names bh b).tail

theorem space_signatureBase :
    ' ' :: (signatureBase key t names bh ++ b)
      = [';'].intercalate (valueParts key t names bh b) := by
  rw [signatureBase_append]
  rfl

theorem map_of_forall₂ (h : List.Forall₂ (fun x y => f x = g y) xs ys) : xs.map f = ys.map g := by
  induction h with
  | nil => rfl
  | cons hxy _ ih => rw [map_cons, map_cons, hxy, ih]

theorem emptyPart_signature :
    (signatureParts key t names bh b).tail.map (fun p => emptyPart false (encode p))
      = (signatureParts key t names bh []).tail.map encode := by
  have hoth : ∀ (c : UInt8) (literal rest : Str), isWsp c = false → (c == 0x62) = false →
      encode literal = [32, c, 0x3D] →
      emptyPart false (encode (literal ++ rest)) = encode (literal ++ rest) :=
    fun c literal rest hc hb hlit => by
      rw [encode_append, hlit]
      exact emptyPart_other hc (by rw [startsB, hb, Bool.false_and])
  have hhs : emptyPart false (encode (" bh=".toList ++ bh))
      = encode (" bh=".toList ++ bh) := by
    rw [encode_append]
    exact emptyPart_other (by decide) rfl
  have hsig : emptyPart false (encode (" b=".toList ++ b))
      = encode (" b=".toList ++ []) := by
    rw [encode_append, encode_append]
    rfl
  apply map_of_forall₂
  exact .cons rfl <| .cons rfl <|
    .cons (hoth 0x64 " d=".toList _ rfl rfl rfl) <|
    .cons (hoth 0x73 " s=".toList _ rfl rfl rfl) <|
    .cons (hoth 0x74 " t=".toList _ rfl rfl rfl) <|
    .cons (hoth 0x68 " h=".toList _ rfl rfl rfl) <|
    .cons hhs <| .cons hsig .nil

theorem emptyBValue_signature (hdom : ';' ∉ key.domain) (hsel : ';' ∉ key.selector)
    (hnm : ';' ∉ [':'].intercalate names) (hbh : ';' ∉ bh) (hb : ';' ∉ b) :
    emptyBValue (encode (' ' :: (signatureBase key t names bh ++ b)))
      = encode (' ' :: signatureBase key t names bh) := by
  have hbs : ' ' :: signatureBase key t names bh
      = [';'].intercalate (valueParts key t names bh []) := by
    rw [← space_signatureBase, append_nil]
  have hpr : ∀ p ∈ (signatureParts key t names bh b).tail.map encode,
      (0x3B : UInt8) ∉ p := by
    intro p hp
    obtain ⟨part, hprt, rfl⟩ := mem_map.mp hp
    exact encode_no_semicolon
      (signatureParts_plain hdom hsel hnm hbh hb part (mem_of_mem_tail hprt))
  rw [hbs, space_signatureBase, encode_intercalate, encode_intercalate, valueParts, valueParts,
    map_cons, map_cons, emptyBValue_parts (encode_no_semicolon (by decide)) hpr,
    map_map]
  change [0x3B].intercalate (_ :: (signatureParts key t names bh b).tail.map
    (fun p => emptyPart false (encode p))) = _
  rw [emptyPart_signature]
  rfl

theorem checkTags_signature (hnm : splitNames (solid ([':'].intercalate names)) = names)
    (hfr : "from".toList ∈ names) (hbh : solid bh = bh) :
    checkTags (signatureTags key t names bh b) bh = .ok (names, solid b) := by
  have ha : getTag (signatureTags key t names bh b) "a".toList = some "ed25519-sha256".toList := rfl
  have hc : getTag (signatureTags key t names bh b) "c".toList
      = some "relaxed/relaxed".toList := rfl
  have hbh' : getTag (signatureTags key t names bh b) "bh".toList = some (solid bh) := rfl
  have hh : getTag (signatureTags key t names bh b) "h".toList
      = some (solid ([':'].intercalate names)) := rfl
  have hb : getTag (signatureTags key t names bh b) "b".toList = some (solid b) := rfl
  have hany : (names.any fun n => eqIgnoreAsciiCase n "from".toList) = true :=
    any_eq_true.mpr ⟨_, hfr, by decide⟩
  rw [checkTags, ha, if_neg (not_not_intro rfl), hc, if_neg (fun h => h.2 rfl), hbh']
  dsimp only
  rw [hbh, if_neg (not_not_intro rfl), hh, hb]
  dsimp only
  rw [hnm, if_pos hany]

end

/-! ## The round trip -/

section
variable {κ : Type} {crypto : Crypto κ} {key : DkimKey κ}

def signatureLine (value : Str) : Str := "DKIM-Signature:".toList ++ ' ' :: value

theorem encode_sign :
    encode (sign crypto key message t) ++ message
      = encode (signatureLine (signedBase crypto key message t
          ++ B64.encode (crypto.sign key.signing
            (crypto.sha256 (signedInput crypto key message t)))))
        ++ 13 :: 10 :: message := by
  have has : ∀ name base b ending : Str,
      (name ++ [' ']) ++ base ++ b ++ ending = (name ++ ' ' :: (base ++ b)) ++ ending := by simp
  have hsg : sign crypto key message t = signatureLine (signedBase crypto key message t
      ++ B64.encode (crypto.sign key.signing
        (crypto.sha256 (signedInput crypto key message t)))) ++ "\r\n".toList :=
    has "DKIM-Signature:".toList _ _ "\r\n".toList
  rw [hsg, encode_append, append_assoc]
  rfl

theorem fieldOf_signatureLine :
    fieldOf (encode (signatureLine value))
      = ("DKIM-Signature".toList, encode (' ' :: value)) := by
  unfold signatureLine
  rw [encode_append]
  rfl

theorem isFieldLine_signatureLine :
    IsFieldLine (encode (signatureLine value)) := by
  unfold signatureLine
  rw [encode_append]
  refine ⟨⟨0x44, _, rfl, rfl⟩, mem_append_left _ ?_⟩
  decide

theorem signatureLine_no_cr (h : '\r' ∉ value) :
    (13 : UInt8) ∉ encode (signatureLine value) := by
  intro hmem
  have hcr : '\r' ∈ signatureLine value := mem_of_mem_encode hmem (by decide)
  rcases mem_append.mp hcr with hnm | hvl
  · exact absurd hnm (by decide)
  rcases mem_cons.mp hvl with hsp | hvl
  · cases hsp
  · exact h hvl

theorem IsToken.not_mem (h : IsToken s) (hc : c = ';' ∨ isWhitespace c = true) : c ∉ s := by
  intro hmem
  rcases hc with rfl | hc
  · exact (h _ hmem).1 rfl
  · rw [(h c hmem).2.2] at hc
    cases hc

theorem intercalate_not_mem (hc : c = ';' ∨ isWhitespace c = true) :
    c ∉ [':'].intercalate (headerNames headers) := by
  intro hmem
  have hpl := intercalate_plain (fun _ => mem_headerNames) c hmem
  rcases hc with hc | hc
  · exact hpl.1 hc
  · rw [hpl.2] at hc
    cases hc

theorem encode_not_mem (hc : c = ';' ∨ isWhitespace c = true) : c ∉ B64.encode bytes := by
  intro hmem
  have hpl := B64.encode_plain bytes c hmem
  rcases hc with hc | hc
  · exact hpl.1 hc
  · rw [hpl.2.1] at hc
    cases hc

theorem signedBase_eq (hsp : splitHeadersBody message = (headers, body)) :
    signedBase crypto key message t
      = signatureBase key t (headerNames headers) (bodyHash crypto body) := by
  simp only [signedBase, hsp]

theorem signedInput_eq (hsp : splitHeadersBody message = (headers, body)) :
    signedInput crypto key message t = signingInput headers (headerNames headers)
      (encode (signatureBase key t (headerNames headers) (bodyHash crypto body))) := by
  simp only [signedInput, signedBase, hsp]

theorem splitHeadersBody_signed (hdom : IsToken key.domain) (hsel : IsToken key.selector)
    (hfl : StartsWithField message) (hsp : splitHeadersBody message = (headers, body))
    (t : Nat)
    (hsig : crypto.sign key.signing (crypto.sha256 (signedInput crypto key message t))
      = signature) :
    splitHeadersBody (encode (sign crypto key message t) ++ message)
      = (("DKIM-Signature".toList, encode (' ' ::
          (signatureBase key t (headerNames headers) (bodyHash crypto body)
            ++ B64.encode signature))) :: headers, body) := by
  have hcr : '\r' ∉ signatureBase key t (headerNames headers) (bodyHash crypto body)
      ++ B64.encode signature :=
    signatureBase_no_cr (hdom.not_mem (.inr rfl)) (hsel.not_mem (.inr rfl))
      (intercalate_not_mem (.inr rfl)) (encode_not_mem (.inr rfl))
      (encode_not_mem (.inr rfl))
  rw [encode_sign, hsig, signedBase_eq hsp,
    splitHeadersBody_line (signatureLine_no_cr hcr) isFieldLine_signatureLine hfl, hsp,
    fieldOf_signatureLine]

theorem isNamed_signature (value : List UInt8) :
    isNamed "dkim-signature".toList ("DKIM-Signature".toList, value) = true := by
  have h : eqIgnoreAsciiCase (trim "DKIM-Signature".toList) "dkim-signature".toList = true := by
    decide
  exact h

theorem checkSignature_sign (hcr : crypto.Lawful)
    (hb : b = B64.encode (crypto.sign k (crypto.sha256 input))) :
    checkSignature crypto input (crypto.publicBytes k) b = .ok () := by
  have hkey : ¬ ((crypto.publicBytes k).length ≠ 32 ∨
      crypto.isKey (crypto.publicBytes k) = false) := by
    rintro (h | h)
    · exact h (hcr.public_length k)
    · rw [hcr.public_isKey] at h
      cases h
  rw [checkSignature, if_neg hkey, hb, B64.decode_encode]
  dsimp only
  rw [if_neg (not_not_intro (hcr.sign_length k _)), hcr.verify_sign, if_pos rfl]

theorem signingInput_signed :
    signingInput (("DKIM-Signature".toList, value) :: headers) (headerNames headers) (32 :: base)
      = signingInput headers (headerNames headers) base := by
  have hnm : ∀ name ∈ headerNames headers,
      isNamed (trim name) ("DKIM-Signature".toList, value) = false := fun name hnma =>
    not_isNamed_signature value name (mem_headerNames hnma)
  unfold signingInput canonicalizeHeader relaxLine
  rw [assembleSignedHeaders_cons hnm, relaxValue_space]

/-- **What was signed verifies**, and the signature names its key. -/
theorem sign_verifies {κ : Type} (crypto : Crypto κ) (key : DkimKey κ)
    (hcrypto : crypto.Lawful) (hdomain : IsToken key.domain) (hselector : IsToken key.selector)
    (message : List UInt8) (t : Nat) (hfield : StartsWithField message)
    (hunsigned : findHeader (splitHeadersBody message).1 "dkim-signature".toList = none) :
    verify crypto (encode (sign crypto key message t) ++ message)
        (crypto.publicBytes key.signing) = .ok () ∧
      signingDomainSelector (encode (sign crypto key message t) ++ message)
        = some (key.domain, key.selector) := by
  obtain ⟨headers, body, hsp⟩ : ∃ headers body, splitHeadersBody message = (headers, body) :=
    ⟨_, _, rfl⟩
  obtain ⟨signature, hsig⟩ : ∃ signature, crypto.sign key.signing
      (crypto.sha256 (signedInput crypto key message t)) = signature := ⟨_, rfl⟩
  have hsgn := splitHeadersBody_signed hdomain hselector hfield hsp t hsig
  rw [hsp] at hunsigned
  have hfn := findHeader_cons (isNamed_signature (encode (' ' ::
    (signatureBase key t (headerNames headers) (bodyHash crypto body) ++ B64.encode signature))))
    hunsigned
  have hnm : ∀ name ∈ headerNames headers, name ∈ signedHeaders := fun _ => mem_headerNames
  -- the tags are those that were written
  have htg : parseTags (decodeLossy (encode (' ' ::
        (signatureBase key t (headerNames headers) (bodyHash crypto body)
          ++ B64.encode signature))))
      = signatureTags key t (headerNames headers) (bodyHash crypto body)
          (B64.encode signature) := by
    rw [decodeLossy_encode, parseTags_space]
    exact parseTags_signature (hdomain.not_mem (.inl rfl)) (hselector.not_mem (.inl rfl))
      (intercalate_not_mem (.inl rfl)) (encode_not_mem (.inl rfl))
      (encode_not_mem (.inl rfl))
  have hsl : ∀ bytes, solid (B64.encode bytes) = B64.encode bytes := fun bytes =>
    solid_eq_self fun c hc => (B64.encode_plain bytes c hc).2.1
  have hchk : checkTags (signatureTags key t (headerNames headers) (bodyHash crypto body)
      (B64.encode signature)) (bodyHash crypto body)
      = .ok (headerNames headers, B64.encode signature) := by
    have hls : splitNames (solid ([':'].intercalate (headerNames headers)))
        = headerNames headers := by
      rw [solid_eq_self fun c hc => (intercalate_plain hnm c hc).2]
      exact splitNames_intercalate (append_ne_nil_of_right_ne_nil _ (cons_ne_nil _ _))
        hnm
    have hbh : solid (bodyHash crypto body) = bodyHash crypto body := hsl _
    rw [checkTags_signature hls (mem_append_right _ (mem_singleton_self _)) hbh, hsl]
  constructor
  · rw [verify_of_tags hsgn hfn (by rw [htg]; exact hchk)]
    have hemp : emptyBValue (encode (' ' ::
          (signatureBase key t (headerNames headers) (bodyHash crypto body)
            ++ B64.encode signature)))
        = 32 :: encode
            (signatureBase key t (headerNames headers) (bodyHash crypto body)) :=
      emptyBValue_signature (hdomain.not_mem (.inl rfl)) (hselector.not_mem (.inl rfl))
        (intercalate_not_mem (.inl rfl)) (encode_not_mem (.inl rfl))
        (encode_not_mem (.inl rfl))
    rw [hemp, signingInput_signed]
    apply checkSignature_sign hcrypto
    rw [← signedInput_eq hsp, hsig]
  · have hd : solid key.domain = key.domain := solid_eq_self fun c hc => (hdomain c hc).2.2
    have hs : solid key.selector = key.selector := solid_eq_self fun c hc => (hselector c hc).2.2
    have hslc := signingDomainSelector_of_tags hsgn hfn htg rfl rfl
    rwa [hd, hs] at hslc

end

def sampleCrypto : Crypto Unit where
  sha256 := fun bytes => bytes
  publicBytes := fun _ => List.replicate 32 1
  sign := fun _ _ => List.replicate 64 2
  isKey := fun bytes => bytes == List.replicate 32 1
  verify := fun _ _ signature => signature == List.replicate 64 2

theorem sampleCrypto_lawful : sampleCrypto.Lawful where
  public_length := fun _ => rfl
  public_isKey := fun _ => rfl
  sign_length := fun _ _ => rfl
  verify_sign := fun _ _ => rfl

def sampleKey : DkimKey Unit := ⟨"sender.example".toList, "s1".toList, ()⟩

def sampleMessage : List UInt8 :=
  Utf8.encode "From: a@sender.example\r\nSubject: a\r\n\tb\r\nX: ".toList ++ [0xE9]
    ++ Utf8.encode "\r\n\r\nhello\r\n".toList

theorem sampleMessage_verifies :
    verify sampleCrypto (encode (sign sampleCrypto sampleKey sampleMessage 7)
        ++ sampleMessage) (List.replicate 32 1) = .ok () ∧
      signingDomainSelector (encode (sign sampleCrypto sampleKey sampleMessage 7)
        ++ sampleMessage) = some ("sender.example".toList, "s1".toList) :=
  sign_verifies _ _ sampleCrypto_lawful (all_iff_forall_prop.mp (by decide))
    (all_iff_forall_prop.mp (by decide))
    sampleMessage 7 ⟨_, _, rfl, ⟨_, _, rfl, rfl⟩, by decide⟩ (by decide)

end VulosRelay.Gateway.Dkim
