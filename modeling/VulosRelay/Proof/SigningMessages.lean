import Mathlib
import VulosRelay.Keyauth.Canonical

/-!
# A signing message says which request it is for

Every segment announces its own length, so the segments can be read back off a
message one after another: the domain tag first, which tells the kind of request,
and then its fields, however many the client has put at the end. The numbers are
read back from their decimal forms.
-/

namespace VulosRelay.Keyauth

open List SignedRequest

/-- A string whose length a `uint32` holds. -/
def Short (s : GoString) : Prop := s.length < 2 ^ 32

theorem segment_append_inj (ha : Short a) (hb : Short b) (h : segment a ++ xs = segment b ++ ys) :
    a = b ∧ xs = ys := by
  rw [segment, segment, append_assoc, append_assoc] at h
  obtain ⟨hlen, hrs⟩ := Wire.beBytes_append_inj ha hb h
  exact append_inj hrs hlen

theorem segment_ne_nil (a : GoString) : segment a ≠ [] := by
  intro h
  have hlen := congrArg length h
  rw [segment, length_append, Wire.beBytes_length, length_nil] at hlen
  omega

theorem segments_inj : ∀ {fields fields' : List GoString}, (∀ f ∈ fields, Short f) →
    (∀ f ∈ fields', Short f) → fields.flatMap segment = fields'.flatMap segment → fields = fields'
  | [], [], _, _, _ => rfl
  | [], f :: fs, _, _, h => by
    rw [flatMap_nil, flatMap_cons] at h
    exact absurd (append_eq_nil_iff.mp h.symm).1 (segment_ne_nil f)
  | f :: fs, [], _, _, h => by
    rw [flatMap_nil, flatMap_cons] at h
    exact absurd (append_eq_nil_iff.mp h).1 (segment_ne_nil f)
  | f :: fs, f' :: fs', hs, hs', h => by
    rw [flatMap_cons, flatMap_cons] at h
    obtain ⟨hf, hrs⟩ :=
      segment_append_inj (hs f mem_cons_self) (hs' f' mem_cons_self) h
    rw [hf, segments_inj (fun g hg => hs g (mem_cons_of_mem f hg))
      (fun g hg => hs' g (mem_cons_of_mem f' hg)) hrs]

theorem canonicalMessage_inj (hd : Short domain) (hd' : Short domain') (hf : ∀ f ∈ fields, Short f)
    (hf' : ∀ f ∈ fields', Short f)
    (h : canonicalMessage domain fields = canonicalMessage domain' fields') :
    domain = domain' ∧ fields = fields' := by
  obtain ⟨hdom, hrs⟩ := segment_append_inj hd hd' h
  exact ⟨hdom, segments_inj hf hf' hrs⟩

theorem literal_inj (h : literal s = literal t) : s = t :=
  String.toByteArray_inj.mp (ByteArray.ext (Array.toList_inj.mp h))

theorem formatInt_inj (h : formatInt n = formatInt m) : n = m :=
  Int64.toInt_inj.mp (Int.repr_injective (literal_inj h))

theorem utf8Len_le : ∀ cs : List Char, String.utf8Len cs ≤ 4 * cs.length
  | [] => le_rfl
  | c :: cs => by
    have hc := c.utf8Size_le_four
    have hcs := utf8Len_le cs
    rw [String.utf8Len_cons, length_cons]
    omega

theorem literal_repr_length (h : n < 10 ^ 20) : (literal n.repr).length ≤ 80 := by
  have hdg := (Nat.length_toDigits_le_iff (b := 10) (k := 20) (by omega) (by omega)).mpr h
  have hutf8 := utf8Len_le (Nat.toDigits 10 n)
  show n.repr.utf8ByteSize ≤ 80
  rw [Nat.repr_eq_ofList_toDigits, String.utf8ByteSize_ofList]
  omega

theorem short_formatInt (n : Int64) : Short (formatInt n) := by
  have hlow := n.le_toInt
  have hhg := n.toInt_lt
  unfold Short formatInt
  rw [Int.repr_eq_if]
  split
  · have hlen := literal_repr_length (n := n.toInt.toNat) (by omega)
    omega
  have hlen : (-n.toInt).toNat.repr.utf8ByteSize ≤ 80 := literal_repr_length (by omega)
  have hsz := @String.utf8ByteSize_append "-" (-n.toInt).toNat.repr
  have hmn : ("-" : String).utf8ByteSize = 1 := rfl
  show ("-" ++ (-n.toInt).toNat.repr).utf8ByteSize < 2 ^ 32
  omega

inductive RequestKind where
  | announce
  | withdraw
  | deposit (box : Box)
  | poll (box : Box)
  | ack (box : Box)
  | pin
  | unpin
  deriving DecidableEq

def RequestKind.tag : RequestKind → GoString
  | announce => domainAnnounce
  | withdraw => domainWithdraw
  | deposit .signal => domainSignalDeposit
  | deposit .mailbox => domainMailboxDeposit
  | poll .signal => domainSignalPoll
  | poll .mailbox => domainMailboxPoll
  | ack .signal => domainSignalAck
  | ack .mailbox => domainMailboxAck
  | pin => domainPin
  | unpin => domainUnpin

def RequestKind.all : List RequestKind :=
  [announce, withdraw, deposit .signal, deposit .mailbox, poll .signal, poll .mailbox, ack .signal,
    ack .mailbox, pin, unpin]

theorem RequestKind.mem_all : ∀ k : RequestKind, k ∈ RequestKind.all
  | announce | withdraw | deposit .signal | deposit .mailbox | poll .signal | poll .mailbox
  | ack .signal | ack .mailbox | pin | unpin => by decide

theorem RequestKind.tag_inj {k k' : RequestKind} (h : k.tag = k'.tag) : k = k' := by
  have htb : ∀ k ∈ all, ∀ k' ∈ all, k.tag = k'.tag → k = k' := by decide
  exact htb k k.mem_all k' k'.mem_all h

theorem RequestKind.short_tag (k : RequestKind) : Short k.tag := by
  have htb : ∀ k ∈ all, k.tag.length < 2 ^ 32 := by decide
  exact htb k k.mem_all

namespace SignedRequest

def kind : SignedRequest → RequestKind
  | announce _ => .announce
  | withdraw _ => .withdraw
  | deposit box _ => .deposit box
  | poll box _ => .poll box
  | ack box _ => .ack box
  | pin _ => .pin
  | unpin _ => .unpin

def fields : SignedRequest → List GoString
  | announce req =>
    [req.key, formatInt req.timestamp, formatInt req.ttl, req.nonce, req.metadata]
      ++ req.endpoints
  | withdraw req => [req.key, formatInt req.timestamp, req.nonce]
  | deposit _ req =>
    [req.sender, req.recipient, formatInt req.timestamp, formatInt req.ttl, req.nonce,
      req.payload]
  | poll _ req => [req.key, formatInt req.timestamp, req.nonce]
  | ack _ req => [req.key, formatInt req.timestamp, req.nonce] ++ req.ids
  | pin req => [req.key, formatInt req.timestamp, req.nonce, req.kind, req.addr]
  | unpin req => [req.key, formatInt req.timestamp, req.nonce, req.kind, req.addr]

def strings : SignedRequest → List GoString
  | announce req => [req.key, req.nonce, req.metadata] ++ req.endpoints
  | withdraw req => [req.key, req.nonce]
  | deposit _ req => [req.sender, req.recipient, req.nonce, req.payload]
  | poll _ req => [req.key, req.nonce]
  | ack _ req => [req.key, req.nonce] ++ req.ids
  | pin req => [req.key, req.nonce, req.kind, req.addr]
  | unpin req => [req.key, req.nonce, req.kind, req.addr]

def signed : SignedRequest → SignedRequest
  | announce req => announce { req with sig := [] }
  | withdraw req => withdraw { req with sig := [] }
  | deposit box req => deposit box { req with sig := [] }
  | poll box req => poll box { req with sig := [], wait := 0 }
  | ack box req => ack box { req with sig := [] }
  | pin req => pin { req with sig := [] }
  | unpin req => unpin { req with sig := [] }

theorem signingMessage_eq (r : SignedRequest) :
    r.signingMessage = canonicalMessage r.kind.tag r.fields := by
  cases r with
  | announce req | withdraw req | pin req | unpin req => rfl
  | deposit box req | poll box req | ack box req => cases box <;> rfl

theorem short_fields {r : SignedRequest} (h : ∀ s ∈ r.strings, Short s) :
    ∀ f ∈ r.fields, Short f := by
  cases r with
  | announce req =>
    simp only [strings, fields, forall_mem_append, forall_mem_cons] at h ⊢
    obtain ⟨⟨hkey, hnc, hmt, hnil⟩, hen⟩ := h
    exact ⟨⟨hkey, short_formatInt _, short_formatInt _, hnc, hmt, hnil⟩, hen⟩
  | withdraw req | poll box req =>
    simp only [strings, fields, forall_mem_cons] at h ⊢
    obtain ⟨hkey, hnc, hnil⟩ := h
    exact ⟨hkey, short_formatInt _, hnc, hnil⟩
  | deposit box req =>
    simp only [strings, fields, forall_mem_cons] at h ⊢
    obtain ⟨hsnd, hto, hnc, hpy, hnil⟩ := h
    exact ⟨hsnd, hto, short_formatInt _, short_formatInt _, hnc, hpy, hnil⟩
  | ack box req =>
    simp only [strings, fields, forall_mem_append, forall_mem_cons] at h ⊢
    obtain ⟨⟨hkey, hnc, hnil⟩, hids⟩ := h
    exact ⟨⟨hkey, short_formatInt _, hnc, hnil⟩, hids⟩
  | pin req | unpin req =>
    simp only [strings, fields, forall_mem_cons] at h ⊢
    obtain ⟨hkey, hnc, hkn, had, hnil⟩ := h
    exact ⟨hkey, short_formatInt _, hnc, hkn, had, hnil⟩

/-- The kind tells how the fields are to be read. A list at the end starts where the fixed fields
stop, so its boundary is not in doubt. -/
theorem signed_of_fields {r r' : SignedRequest} (hkn : r.kind = r'.kind)
    (h : r.fields = r'.fields) : r.signed = r'.signed := by
  cases r <;> cases r' <;>
    simp only [kind, reduceCtorEq, RequestKind.deposit.injEq, RequestKind.poll.injEq,
      RequestKind.ack.injEq] at hkn <;>
    simp only [fields, cons_append, nil_append, cons.injEq, and_true] at h
  case announce.announce req req' =>
    obtain ⟨hkey, hts, httl, hnc, hmt, hen⟩ := h
    simp only [signed, hkey, formatInt_inj hts, formatInt_inj httl, hnc, hmt, hen]
  case withdraw.withdraw req req' =>
    obtain ⟨hkey, hts, hnc⟩ := h
    simp only [signed, hkey, formatInt_inj hts, hnc]
  case deposit.deposit box req box' req' =>
    obtain ⟨hsnd, hto, hts, httl, hnc, hpy⟩ := h
    simp only [signed, hkn, hsnd, hto, formatInt_inj hts, formatInt_inj httl, hnc, hpy]
  case poll.poll box req box' req' =>
    obtain ⟨hkey, hts, hnc⟩ := h
    simp only [signed, hkn, hkey, formatInt_inj hts, hnc]
  case ack.ack box req box' req' =>
    obtain ⟨hkey, hts, hnc, hids⟩ := h
    simp only [signed, hkn, hkey, formatInt_inj hts, hnc, hids]
  case pin.pin req req' =>
    obtain ⟨hkey, hts, hnc, hrq, had⟩ := h
    simp only [signed, hkey, formatInt_inj hts, hnc, hrq, had]
  case unpin.unpin req req' =>
    obtain ⟨hkey, hts, hnc, hrq, had⟩ := h
    simp only [signed, hkey, formatInt_inj hts, hnc, hrq, had]

end SignedRequest

theorem signed_of_signingMessage {r r' : SignedRequest} (hr : ∀ s ∈ r.strings, Short s)
    (hr' : ∀ s ∈ r'.strings, Short s) (h : r.signingMessage = r'.signingMessage) :
    r.kind = r'.kind ∧ r.signed = r'.signed := by
  rw [r.signingMessage_eq, r'.signingMessage_eq] at h
  obtain ⟨htag, hfl⟩ := canonicalMessage_inj r.kind.short_tag r'.kind.short_tag
    (short_fields hr) (short_fields hr') h
  have hkn := RequestKind.tag_inj htag
  exact ⟨hkn, signed_of_fields hkn hfl⟩

/-- **Signed messages are unambiguous.** `verify` is `ed25519.Verify`, and `hverify` is what a
signature is for: it is good for one message only. -/
theorem signing_messages_unambiguous (r r' : SignedRequest) (hr : ∀ s ∈ r.strings, Short s)
    (hr' : ∀ s ∈ r'.strings, Short s) (verify : List UInt8 → List UInt8 → List UInt8 → Bool)
    (pub sig : List UInt8)
    (hverify : ∀ m m', verify pub m sig = true → verify pub m' sig = true → m = m') :
    (∀ domain domain' fields fields', Short domain → Short domain' → (∀ f ∈ fields, Short f) →
      (∀ f ∈ fields', Short f) → canonicalMessage domain fields = canonicalMessage domain' fields' →
      domain = domain' ∧ fields = fields') ∧
    (r.signingMessage = r'.signingMessage → r.kind = r'.kind ∧ r.signed = r'.signed) ∧
    (r.signed ≠ r'.signed → verify pub r.signingMessage sig = true →
      verify pub r'.signingMessage sig = false) := by
  refine ⟨fun _ _ _ _ => canonicalMessage_inj, signed_of_signingMessage hr hr', ?_⟩
  intro hne hgd
  by_contra hoth
  have hmsg := hverify _ _ hgd (Bool.eq_true_of_not_eq_false hoth)
  exact hne (signed_of_signingMessage hr hr' hmsg).2

def pinExample : PinRequest where
  key := literal "11qYAYKxCrfVS_7TyWQHOg7hcvPapiMlrwIaaPcHURo"
  kind := literal "announce"
  addr := literal "HgAAAAAAAAAAAAAAAAAAAAAAAAAAAAAAAAAAAAAAAAAA"
  nonce := literal "bm9uY2U"
  timestamp := 1700000000
  sig := literal
    "z-cDnUrx91TXetPjmiK4RePAryrKooZpjIt8c_cttkvluQW2mqYGB-jgmXgYahY76XpSSxeveovgMMEeO_MwAQ"

def pinExampleKey : List UInt8 :=
  [215, 90, 152, 1, 130, 177, 10, 183, 213, 75, 254, 211, 201, 100, 7, 58, 14, 225, 114, 243, 218,
    166, 35, 37, 175, 2, 26, 104, 247, 7, 81, 26]

def pinExampleSig : List UInt8 :=
  [207, 231, 3, 157, 74, 241, 247, 84, 215, 122, 211, 227, 154, 34, 184, 69, 227, 192, 175, 42, 202,
    162, 134, 105, 140, 139, 124, 115, 247, 45, 182, 75, 229, 185, 5, 182, 154, 166, 6, 7, 232, 224,
    153, 120, 24, 106, 22, 59, 233, 122, 82, 75, 23, 175, 122, 139, 224, 48, 193, 30, 59, 243, 48,
    1]

def pinExampleVerify (pub message sig : List UInt8) : Bool :=
  pub == pinExampleKey && message == pinSigningMessage domainPin pinExample && sig == pinExampleSig

theorem pin_signature_does_not_unpin :
    pinExampleVerify pinExampleKey (unpin pinExample).signingMessage pinExampleSig
      = false := by
  have hsh : ∀ s ∈ (pin pinExample).strings, Short s := by
    unfold Short
    decide
  refine (signing_messages_unambiguous (.pin pinExample) (.unpin pinExample) hsh hsh
    pinExampleVerify pinExampleKey pinExampleSig ?_).2.2 (by decide) (by decide)
  intro m m' h h'
  simp only [pinExampleVerify, Bool.and_eq_true, beq_iff_eq] at h h'
  rw [h.1.2, h'.1.2]

end VulosRelay.Keyauth
