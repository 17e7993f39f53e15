import VulosRelay.Client.Fabric
import VulosRelay.Lib.Decimal

/-!
# What is sealed for a peer is opened by it

The argument goes down the blob. Base64 and JSON are read back, so the recipient parses the
header that the sender wrote, and with it the ephemeral key and the ids of the prekeys. The
prekeys of the bundle are the public halves of those in the store, and agreement commutes,
so both sides feed the same bytes to the key derivation, whose salt does not depend on the
order of the two ids. The header is part of the associated data on both sides, so the
cipher opens what it sealed.
-/

namespace VulosRelay.Client.RelayBox

open JsText Json Signaling List WebBase64 UInt8

variable {N : Type}

/-- What the platform and the primitives are documented to do. -/
structure Platform.Lawful (p : Platform N) : Prop where
  /-- Numbers have texts of their own, and 2 is written `2`. -/
  numbers : p.numbers.Lawful
  two : p.numbers.value (p.ofNat 2) = 2
  writesTwo : p.numbers.render (p.ofNat 2) = literal "2"
  /-- A string is displayed as it is. -/
  display : ∀ s, p.display (.str s) = s
  /-- `JSON.parse` reads what `JSON.stringify` wrote. -/
  parse : ReadsBack p.numbers p.parse
  /-- A text without lone surrogates and byte order mark survives UTF-8. -/
  decode : ∀ s, Paired s → s.head? ≠ some 0xFEFF → p.decode (encode s) = s
  /-- Public keys are 32 bytes. -/
  publicKeySize : ∀ priv, (p.getPublicKey priv).length = 32
  /-- Both sides of a key exchange get the same secret. -/
  commutes : ∀ a b, ∃ shared, p.getSharedSecret a (p.getPublicKey b) = some shared
    ∧ p.getSharedSecret b (p.getPublicKey a) = some shared
  /-- The cipher appends a tag of 16 bytes and opens what it sealed. -/
  tagSize : ∀ key nonce aad m, (p.encrypt key nonce aad m).length = m.length + 16
  opens : ∀ (key : Sized 32) (nonce : Sized 24) aad m,
    p.decrypt key nonce.val aad (p.encrypt key nonce aad m) = some m

theorem b64ToBytes_bytesToB64 (bytes : Bytes) : b64ToBytes (bytesToB64 bytes) = .ok bytes := by
  rw [b64ToBytes, bytesToB64, atob_btoa]
  rfl

/-! ## The header -/

def idValue (opkId : Option Text) : Js N := opkId.bind text

variable {p : Platform N}

theorem v2Header_eq :
    v2Header p ek (text spkId) (idValue opkId)
      = .obj (.cons (literal "v") (.num (p.ofNat 2)) (.cons (literal "ek") (.str ek)
        (.cons (literal "spk_id") (.str spkId)
          (.cons (literal "opk_id") ((idValue opkId).getD .null) .nil)))) := rfl

theorem v2Header_ordered :
    (v2Header p ek (text spkId) (idValue opkId)).Ordered := by
  have hky : [literal "v", literal "ek", literal "spk_id", literal "opk_id"].Nodup
      ∧ [literal "v", literal "ek", literal "spk_id", literal "opk_id"].all
        (!beginsWithDigit ·) = true := by decide
  refine ⟨hky.1, hky.2, trivial, trivial, trivial, ?_, trivial⟩
  cases opkId with
  | none => trivial
  | some id => trivial

theorem v2Header_norm :
    (v2Header p ek (text spkId) (idValue opkId)).norm
      = v2Header p ek (text spkId) (idValue opkId) := by
  cases opkId with
  | none => rfl
  | some id => rfl

theorem decode_object (hp : p.Lawful) (members : Members N) :
    p.decode (encode (stringify p.numbers (.obj members)))
      = stringify p.numbers (.obj members) := by
  refine hp.decode _ (paired_stringify hp.numbers _) ?_
  rw [stringify, head?_cons]
  decide

theorem parse_v2HeaderBytes (hp : p.Lawful) (ek spkId : Text) (opkId : Option Text) :
    p.parse (p.decode (v2HeaderBytes p ek (text spkId) (idValue opkId)))
      = some (v2Header p ek (text spkId) (idValue opkId)) := by
  rw [v2HeaderBytes, v2Header, decode_object hp, ← v2Header,
    hp.parse _ v2Header_ordered, v2Header_norm]

theorem readHeader_v2Header (hp : p.Lawful) (hek : ek.length = 32) :
    readHeader p (v2Header p (bytesToB64 ek) (text spkId) (idValue opkId))
      = .ok (ek, spkId, idValue opkId) := by
  have hopk : notNull (some ((idValue opkId).getD .null) : Js N) = idValue opkId := by
    cases opkId with
    | none => rfl
    | some id => rfl
  have htwo : isTwo p (some (.num (p.ofNat 2))) = true := decide_eq_true hp.two
  have hrd : readHeader p (v2Header p (bytesToB64 ek) (text spkId) (idValue opkId))
      = if !isTwo p (some (.num (p.ofNat 2))) then fail "relay blob header invalid"
        else do
          let ephemeralPub ← b64ToBytes (bytesToB64 ek)
          if ephemeralPub.length ≠ 32 then fail "relay blob bad ephemeral key"
          else return (ephemeralPub, spkId, notNull (some ((idValue opkId).getD .null))) := rfl
  rw [hrd, htwo, b64ToBytes_bytesToB64, hopk]
  exact if_neg (not_not_intro hek)

/-! ## The length of the header -/

theorem btoa_verbatim (bytes : Bytes) : ∀ c ∈ bytesToB64 bytes, isVerbatim c = true := by
  have hall : ∀ i : Fin 64, isVerbatim (unit i.val) = true := by decide
  intro c hc
  rcases mem_btoa hc with rfl | ⟨n, hn, rfl⟩
  · decide
  · exact hall ⟨n, hn⟩

structure Ascii (t : Text) (n : Nat) : Prop where
  length : t.length = n
  units : ∀ c ∈ t, c < 0x80

theorem Ascii.of_all (hlen : t.length = n) (h : (t.all fun c => decide (c < 0x80)) = true) :
    Ascii t n :=
  ⟨hlen, fun c hc => of_decide_eq_true (all_eq_true.mp h c hc)⟩

theorem Ascii.append (ht : Ascii t m) (hu : Ascii u n) : Ascii (t ++ u) (m + n) := by
  refine ⟨by rw [length_append, ht.length, hu.length], fun c hc => ?_⟩
  rcases mem_append.mp hc with hc | hc
  · exact ht.units c hc
  · exact hu.units c hc

theorem Ascii.cons (hc : c < 0x80) (ht : Ascii t n) : Ascii (c :: t) (n + 1) :=
  ⟨congrArg (· + 1) ht.length, forall_mem_cons.mpr ⟨hc, ht.units⟩⟩

theorem ascii_quote (hlen : s.length = n) (hs : ∀ c ∈ s, isVerbatim c = true) :
    Ascii (quote s) (n + 2) := by
  have hs' : Ascii s n := ⟨hlen, fun c hc => isVerbatim_lt (hs c hc)⟩
  rw [quote_verbatim hs]
  exact .cons (by decide) (hs'.append (.of_all rfl (by decide)))

structure WrittenId (id : Text) : Prop where
  length : id.length = 16
  verbatim : ∀ c ∈ id, isVerbatim c = true

def headerLength (opkId : Option Text) : Nat := if opkId.isSome then 115 else 101

theorem ascii_opkId (hopk : ∀ id ∈ opkId, WrittenId id) :
    Ascii (stringify p.numbers ((idValue opkId).getD .null)) (headerLength opkId - 97) := by
  cases opkId with
  | none =>
    have hnl : Ascii (literal "null") 4 := .of_all rfl (by decide)
    exact hnl
  | some id => exact ascii_quote (hopk id rfl).length (hopk id rfl).verbatim

theorem Ascii.member (hkey : Ascii (quote key) k) (hv : Ascii (stringify p.numbers v) m)
    (hrs : Ascii (moreMembers p.numbers rest) n) :
    Ascii (moreMembers p.numbers (.cons key v rest)) (k + (m + n + 1) + 1) := by
  rw [moreMembers]
  exact .cons (by decide) (hkey.append (.cons (by decide) (hv.append hrs)))

theorem ascii_v2Header (hp : p.Lawful) (hek : ek.length = 32) (hspk : WrittenId spkId)
    (hopk : ∀ id ∈ opkId, WrittenId id) :
    Ascii (stringify p.numbers (v2Header p (bytesToB64 ek) (text spkId) (idValue opkId)))
      (headerLength opkId) := by
  have hky : Ascii (quote (literal "v")) 3 ∧ Ascii (quote (literal "ek")) 4
      ∧ Ascii (quote (literal "spk_id")) 8 ∧ Ascii (quote (literal "opk_id")) 8 :=
    ⟨.of_all rfl (by decide), .of_all rfl (by decide), .of_all rfl (by decide),
      .of_all rfl (by decide)⟩
  have htwo : Ascii (stringify p.numbers (.num (p.ofNat 2))) 1 := by
    rw [stringify, hp.writesTwo]
    exact .of_all rfl (by decide)
  have hb64 : Ascii (stringify p.numbers (.str (bytesToB64 ek))) 46 := by
    refine ascii_quote ?_ (btoa_verbatim ek)
    rw [bytesToB64, length_btoa, hek]
  have hsp : Ascii (stringify p.numbers (.str spkId)) 18 :=
    ascii_quote hspk.length hspk.verbatim
  have hend : Ascii (moreMembers p.numbers .nil) 1 := .cons (by decide) (.of_all rfl (by decide))
  have hmb := hky.2.1.member hb64 (hky.2.2.1.member hsp (hky.2.2.2.member (ascii_opkId hopk) hend))
  have htx := Ascii.cons (c := 0x7B) (by decide)
    (hky.1.append (.cons (c := 0x3A) (by decide) (htwo.append hmb)))
  have hcnt : 3 + (1 + (4 + (46 + (8 + (18 + (8 + (headerLength opkId - 97 + 1 + 1) + 1) + 1) + 1)
      + 1) + 1) + 1) + 1 = headerLength opkId := by
    cases opkId with
    | none => rfl
    | some id => rfl
  rw [v2Header_eq, stringify, openMembers, ← hcnt]
  exact htx

theorem length_v2HeaderBytes (hp : p.Lawful) (hek : ek.length = 32) (hspk : WrittenId spkId)
    (hopk : ∀ id ∈ opkId, WrittenId id) :
    (v2HeaderBytes p (bytesToB64 ek) (text spkId) (idValue opkId)).length
      = headerLength opkId := by
  have has := ascii_v2Header hp hek hspk hopk
  rw [v2HeaderBytes, length_encode_ascii has.units, has.length]

/-! ## The blob -/

theorem v2HeaderLength (h : n ≤ 0xffff) :
    (ofNat (n / 256)).toNat * 256 + (ofNat (n % 256)).toNat = n := by
  rw [toNat_ofNat', toNat_ofNat']
  omega

theorem parse_v2Bytes (hp : p.Lawful) (hek : ek.length = 32)
    (hlen : (v2HeaderBytes p (bytesToB64 ek) (text spkId) (idValue opkId)).length ≤ 0xffff)
    (hnc : nonce.length = 24) (hsl : 16 ≤ sealed.length) :
    parseRelayBlobV2 p (bytesToB64 (v2Bytes
        (v2HeaderBytes p (bytesToB64 ek) (text spkId) (idValue opkId)) nonce sealed))
      = .ok ⟨ek, spkId, idValue opkId,
          v2HeaderBytes p (bytesToB64 ek) (text spkId) (idValue opkId), nonce, sealed⟩ := by
  have hpr := parse_v2HeaderBytes hp (bytesToB64 ek) spkId opkId
  generalize v2HeaderBytes p (bytesToB64 ek) (text spkId) (idValue opkId) = header at *
  have hbd : parseRelayBlobV2 p (bytesToB64 (v2Bytes header nonce sealed))
      = parseBody p header.length (header ++ (nonce ++ sealed)) := by
    have hst : parseRelayBlobV2 p (bytesToB64 (v2Bytes header nonce sealed))
        = if boxVersionV2 ≠ boxVersionV2 then throw (unsupportedVersion boxVersionV2)
          else parseBody p ((ofNat (header.length / 256)).toNat * 256
            + (ofNat (header.length % 256)).toNat) (header ++ (nonce ++ sealed)) := by
      rw [parseRelayBlobV2, b64ToBytes_bytesToB64]
      rfl
    rw [hst, if_neg (not_not_intro rfl), v2HeaderLength hlen]
  have hsz : ¬ (header ++ (nonce ++ sealed)).length < header.length + nonceLen + 16 := by
    rw [length_append, length_append, hnc, nonceLen]
    omega
  have hnc' : ((header ++ (nonce ++ sealed)).drop header.length).take nonceLen = nonce := by
    rw [drop_left, nonceLen, ← hnc, take_left]
  have hsl' : (header ++ (nonce ++ sealed)).drop (header.length + nonceLen) = sealed := by
    rw [← drop_drop, drop_left, nonceLen, ← hnc, drop_left]
  rw [hbd, parseBody, if_neg hsz, take_left]
  dsimp only
  rw [hpr, hnc', hsl']
  dsimp only
  rw [readHeader_v2Header hp hek]
  rfl

theorem relayBlobVersion_v2Bytes (header nonce sealed : Bytes) :
    relayBlobVersion (bytesToB64 (v2Bytes header nonce sealed)) = .ok 2 := by
  rw [relayBlobVersion, b64ToBytes_bytesToB64]
  rfl

section Sealed

variable (hp : p.Lawful) {ek : Bytes} (hek : ek.length = 32) {spkId : Text}
  (hspk : WrittenId spkId) {opkId : Option Text} (hopk : ∀ id ∈ opkId, WrittenId id)
  (key : Sized 32) (nonce : Sized 24) (sender recipient session : Js N) (plaintext : Bytes)

def ciphertext (p : Platform N) (ek : Bytes) (spkId : Text) (opkId : Option Text) (key : Sized 32)
    (nonce : Sized 24) (sender recipient session : Js N) (plaintext : Bytes) : Bytes :=
  p.encrypt key nonce (v2Aad p sender recipient session
    (v2HeaderBytes p (bytesToB64 ek) (text spkId) (idValue opkId))) plaintext

include hp hek hspk hopk

theorem sealRelayBlobV2_eq :
    sealRelayBlobV2 p plaintext key ek (text spkId) (idValue opkId) sender recipient session nonce
      = .ok (bytesToB64 (v2Bytes (v2HeaderBytes p (bytesToB64 ek) (text spkId) (idValue opkId))
          nonce.val (ciphertext p ek spkId opkId key nonce sender recipient session
            plaintext))) := by
  have hft : ¬ (v2HeaderBytes p (bytesToB64 ek) (text spkId) (idValue opkId)).length
      > 0xffff := by
    rw [length_v2HeaderBytes hp hek hspk hopk, headerLength]
    split <;> omega
  exact if_neg hft

/-- **A sealed blob is parsed** to its ephemeral key, prekey ids, header and ciphertext. -/
theorem parse_sealed :
    parseRelayBlobV2 p (bytesToB64 (v2Bytes
        (v2HeaderBytes p (bytesToB64 ek) (text spkId) (idValue opkId)) nonce.val
        (ciphertext p ek spkId opkId key nonce sender recipient session plaintext)))
      = .ok ⟨ek, spkId, idValue opkId,
          v2HeaderBytes p (bytesToB64 ek) (text spkId) (idValue opkId), nonce.val,
          ciphertext p ek spkId opkId key nonce sender recipient session plaintext⟩ := by
  refine parse_v2Bytes hp hek ?_ nonce.property ?_
  · rw [length_v2HeaderBytes hp hek hspk hopk, headerLength]
    split <;> omega
  · rw [ciphertext, hp.tagSize]
    omega

end Sealed

end VulosRelay.Client.RelayBox

namespace VulosRelay.Client.X3dh

open JsText Json Signaling RelayBox List

variable {N : Type} {p : Platform N}

/-! ## Ids -/

theorem withoutPad_of_notMem (h : 0x3D ∉ t) : withoutPad t = t := by
  rw [withoutPad]
  cases hrv : t.reverse with
  | nil =>
    rw [reverse_eq_nil_iff.mp hrv]
    rfl
  | cons c rest =>
    have hc : ¬ decide (c = 0x3D) = true := by
      rw [decide_eq_true_eq]
      rintro rfl
      exact h (mem_reverse.mp (hrv ▸ mem_cons_self))
    rw [dropWhile_cons_of_neg (p := fun d => decide (d = 0x3D)) hc, ← hrv,
      reverse_reverse]

theorem newKeyID_eq :
    newKeyID b = (Base64.sextets b.val).map fun n => urlUnit (WebBase64.unit n) := by
  have hall : ∀ i : Fin 64, urlUnit (WebBase64.unit i.val) ≠ 0x3D := by decide
  have hlen : ((Base64.sextets b.val).map WebBase64.unit).length = 16 := by
    rw [length_map, Base64.sextets_length, b.property]
  -- twelve bytes need no padding
  have hpad : WebBase64.padded ((Base64.sextets b.val).map WebBase64.unit)
      = (Base64.sextets b.val).map WebBase64.unit := by
    rw [WebBase64.padded, hlen]
    exact append_nil _
  rw [newKeyID, bytesToB64, WebBase64.btoa, hpad, map_map, withoutPad_of_notMem]
  · rfl
  intro hmem
  obtain ⟨n, hn, heq⟩ := mem_map.mp hmem
  exact hall ⟨n, Base64.sextets_lt b.val n hn⟩ heq

theorem writtenId_newKeyID : WrittenId (newKeyID b) := by
  have hall : ∀ i : Fin 64, isVerbatim (urlUnit (WebBase64.unit i.val)) = true := by
    decide
  rw [newKeyID_eq]
  refine ⟨by rw [length_map, Base64.sextets_length, b.property], fun c hc => ?_⟩
  obtain ⟨n, hn, rfl⟩ := mem_map.mp hc
  exact hall ⟨n, Base64.sextets_lt b.val n hn⟩

/-! ## Keys -/

theorem agreed (hp : p.Lawful) :
    ∃ shared, agree p a (p.getPublicKey b) = .ok shared
      ∧ agree p b (p.getPublicKey a) = .ok shared := by
  obtain ⟨shared, hab, hba⟩ := hp.commutes a b
  refine ⟨shared, ?_, ?_⟩
  · rw [agree, hab]
    rfl
  · rw [agree, hba]
    rfl

theorem agreed_dh4 (hp : p.Lawful) :
    ∃ shared, initiateDh4 p ek (opk.map p.getPublicKey) = .ok shared
      ∧ respondDh4 p (p.getPublicKey ek) opk = .ok shared := by
  cases opk with
  | none => exact ⟨[], rfl, rfl⟩
  | some opk =>
    obtain ⟨shared, hin, hrs⟩ := agreed hp
    refine ⟨shared, ?_, hrs⟩
    rw [Option.map_some, initiateDh4, if_pos (hp.publicKeySize opk), hin]

theorem x3dh_agreed (hp : p.Lawful) (identity recipientIdentity spk ek : Sized 32)
    (opk : Option (Sized 32)) (senderId recipientId : Js N) :
    ∃ sk, x3dhInitiate p identity (p.getPublicKey recipientIdentity) (p.getPublicKey spk)
        (opk.map p.getPublicKey) senderId recipientId ek = .ok (p.getPublicKey ek, sk)
      ∧ x3dhRespond p recipientIdentity (p.getPublicKey identity) spk opk (p.getPublicKey ek)
        senderId recipientId = .ok sk := by
  obtain ⟨dh1, hinitiate1, hrespond1⟩ := agreed hp
  obtain ⟨dh2, hinitiate2, hrespond2⟩ := agreed hp
  obtain ⟨dh3, hinitiate3, hrespond3⟩ := agreed hp
  obtain ⟨dh4, hinitiate4, hrespond4⟩ := agreed_dh4 hp
  refine ⟨x3dhKDF p (dh1 ++ dh2 ++ dh3 ++ dh4) senderId recipientId, ?_, ?_⟩
  · rw [x3dhInitiate, hinitiate1, hinitiate2, hinitiate3, hinitiate4]
    rfl
  rw [x3dhRespond, if_neg (not_not_intro (hp.publicKeySize ek)), hrespond1, hrespond2,
    hrespond3, hrespond4]
  rfl

theorem x3dhKDF_comm (a b : Text) :
    x3dhKDF p dh (text a) (text b) = x3dhKDF p dh (text b) (text a) := by
  have hsl : salt p (text a) (text b) = salt p (text b) (text a) := by
    have hab : greater p (text a) (text b) = decide (b < a) := rfl
    have hba : greater p (text b) (text a) = decide (a < b) := rfl
    rw [salt, salt, hab, hba]
    by_cases hlt : a < b
    · rw [decide_eq_true hlt, decide_eq_false (List.lt_asymm hlt)]
      rfl
    by_cases hgt : b < a
    · rw [decide_eq_true hgt, decide_eq_false hlt]
      rfl
    · rw [List.le_antisymm hlt hgt]
  rw [x3dhKDF, x3dhKDF, hsl]

theorem x3dhRespond_comm :
    x3dhRespond p identity senderPub spk opk ek (text a) (text b)
      = x3dhRespond p identity senderPub spk opk ek (text b) (text a) := by
  simp only [x3dhRespond, fun dh => x3dhKDF_comm (p := p) a b]

end VulosRelay.Client.X3dh

namespace VulosRelay.Client.Fabric

open JsText Json Signaling RelayBox X3dh List

variable {N Key : Type}

/-! ## The prekeys of a bundle -/

theorem lookup_of_mem {opks : List (Text × Sized 32)} (hnd : (opks.map Prod.fst).Nodup)
    {id : Text} {priv : Sized 32} (h : (id, priv) ∈ opks) : opks.lookup id = some priv := by
  induction opks with
  | nil => cases h
  | cons first rest ih =>
    rw [map_cons, nodup_cons] at hnd
    rcases mem_cons.mp h with rfl | h
    · exact List.lookup_cons_self
    have hne : id ≠ first.1 := by
      rintro rfl
      exact hnd.1 (mem_map.mpr ⟨_, h, rfl⟩)
    rw [List.lookup_cons, beq_eq_false_iff_ne.mpr hne]
    exact ih hnd.2 h

/-- A one-time prekey of the pool that is offered, with its private half; or none is. -/
inductive Offered (p : Platform N) (store : PreKeyStore) :
    Option OneTimePreKey → Option (Sized 32) → Prop where
  | none : Offered p store none none
  | some {id : Text} {priv : Sized 32} : WrittenId id → store.opks.lookup id = some priv →
      Offered p store (some ⟨id, bytesToB64 (p.getPublicKey priv)⟩) (some priv)

variable {store : PreKeyStore} {opk : Option OneTimePreKey}

theorem exists_offered {p : Platform N} {peerId : Text}
    (hopk : ∀ k ∈ opk, k ∈ (store.publicBundle p peerId).oneTimePreKeys) :
    ∃ priv, Offered p store opk priv := by
  cases opk with
  | none => exact ⟨none, .none⟩
  | some k =>
    obtain ⟨⟨id, priv⟩, hmem, heq⟩ := mem_map.mp (hopk k rfl)
    obtain ⟨b, hb⟩ := store.opkIds _ hmem
    rw [← heq]
    exact ⟨some priv, .some (hb ▸ writtenId_newKeyID) (lookup_of_mem store.nodup hmem)⟩

/-- Two clients of one session, on platforms that do the same. -/
structure SameSession (sender recipient : Env N Key) : Prop where
  /-- Numbers, texts and primitives are the same on both sides. -/
  platform : recipient.platform = sender.platform
  /-- The session is the same. -/
  session : recipient.session = sender.session

def opkIdOf (opk : Option OneTimePreKey) : Option Text := opk.map (·.id)

theorem bind_id :
    (opk.bind fun k => text k.id : Js N) = idValue (opkIdOf opk) := by
  cases opk with
  | none => rfl
  | some k => rfl

theorem Offered.writtenId (h : Offered p store opk priv) :
    ∀ id ∈ opkIdOf opk, WrittenId id := by
  cases h with
  | none => exact nofun
  | some hid _ => exact fun id heq => Option.some.inj heq ▸ hid

theorem Offered.decoded (h : Offered p store opk priv) :
    opk.mapM (fun k => b64ToBytes k.pub) = .ok (priv.map p.getPublicKey) := by
  cases h with
  | none => rfl
  | some _ _ =>
    rw [Option.mapM_some, b64ToBytes_bytesToB64]
    rfl

theorem writtenId_signed (store : PreKeyStore) : WrittenId store.signed.id := by
  obtain ⟨b, hb⟩ := store.signedId
  exact hb ▸ writtenId_newKeyID

def v2Blob (env : Env N Key) (recipient spkId : Text) (opkId : Option Text) (sk : Sized 32)
    (plaintext : Bytes) (draws : Draws) : Text :=
  bytesToB64 (v2Bytes
    (v2HeaderBytes env.platform (bytesToB64 (env.platform.getPublicKey draws.ephemeral))
      (text spkId) (idValue opkId)) draws.nonce.val
    (ciphertext env.platform (env.platform.getPublicKey draws.ephemeral) spkId opkId sk draws.nonce
      (text env.peerId) (text recipient) (text env.session) plaintext))

def v2Parsed (env : Env N Key) (recipient spkId : Text) (opkId : Option Text) (sk : Sized 32)
    (plaintext : Bytes) (draws : Draws) : Parsed N where
  ephemeralPub := env.platform.getPublicKey draws.ephemeral
  signedPreKeyId := spkId
  oneTimePreKeyId := idValue opkId
  headerBytes := v2HeaderBytes env.platform
    (bytesToB64 (env.platform.getPublicKey draws.ephemeral)) (text spkId) (idValue opkId)
  nonce := draws.nonce.val
  sealed := ciphertext env.platform (env.platform.getPublicKey draws.ephemeral) spkId opkId sk
    draws.nonce (text env.peerId) (text recipient) (text env.session) plaintext

theorem parse_v2Blob (hp : env.platform.Lawful) (hoff : Offered env.platform store opk opkPriv)
    (recipient : Text) (sk : Sized 32) (plaintext : Bytes) (draws : Draws) :
    parseRelayBlobV2 env.platform
        (v2Blob env recipient store.signed.id (opkIdOf opk) sk plaintext draws)
      = .ok (v2Parsed env recipient store.signed.id (opkIdOf opk) sk plaintext draws) :=
  parse_sealed hp (hp.publicKeySize _) (writtenId_signed store) hoff.writtenId sk draws.nonce
    _ _ _ plaintext

theorem open_v2Parsed (hp : env.platform.Lawful) :
    openRelayBlobV2 env.platform (v2Parsed env recipient spkId opkId sk plaintext draws) sk
      (text env.peerId) (text recipient) (text env.session) = .ok plaintext := by
  rw [openRelayBlobV2, v2Parsed, ciphertext, hp.opens]
  rfl

theorem openV2_of_parsed {env : Env N Key}
    {opkPriv : Option (Sized 32)} (hoff : Offered env.platform store opk opkPriv)
    {sender : Js N} {epk blob : Text} {parsed : Parsed N} {plaintext : Bytes}
    (hprs : parseRelayBlobV2 env.platform blob = .ok parsed)
    (hspk : parsed.signedPreKeyId = store.signed.id)
    (hopk : parsed.oneTimePreKeyId = idValue (opkIdOf opk))
    (hop : respondAndOpen env sender epk parsed store.signed.priv opkPriv = .ok plaintext) :
    openV2 env store sender epk blob = .ok (some (plaintext, idValue (opkIdOf opk))) := by
  have hpr : store.signedPreKeyPriv parsed.signedPreKeyId = some store.signed.priv :=
    if_pos hspk
  rw [openV2, hprs]
  dsimp only [bind, Except.bind]
  rw [hpr, hopk]
  dsimp only
  cases hoff with
  | none =>
    have hfl : ¬ truthy env (idValue (opkIdOf none)) = true := Bool.false_ne_true
    rw [if_neg hfl, hop]
    rfl
  | @some id priv hid hlk =>
    have hne : id ≠ [] := fun hnil => by
      have hlen := hid.length
      rw [hnil] at hlen
      cases hlen
    have htr : truthy env (text id) = true := decide_eq_true hne
    have hlk' : store.oneTimePreKeyPriv (text id : Js N) = some priv := hlk
    rw [opkIdOf, Option.map_some, idValue, Option.bind_some, if_pos htr, hlk']
    dsimp only
    rw [hop]
    rfl

section RoundTrip

variable {sender recipient : Env N Key} (hsame : SameSession sender recipient)
  (hp : sender.platform.Lawful) {store : PreKeyStore} {opk : Option OneTimePreKey}
  {opkPriv : Option (Sized 32)} (plaintext : Bytes) (draws : Draws) {sk : Sized 32}

include hsame hp

theorem sealV2_eq (hoff : Offered sender.platform store opk opkPriv)
    (hsk : x3dhInitiate sender.platform sender.boxPriv
        (sender.platform.getPublicKey recipient.boxPriv)
        (sender.platform.getPublicKey store.signed.priv) (opkPriv.map sender.platform.getPublicKey)
        (text sender.peerId) (text recipient.peerId) draws.ephemeral
      = .ok (sender.platform.getPublicKey draws.ephemeral, sk)) :
    sealV2 sender recipient.peerId ⟨.str recipient.boxPubKeyB64, plaintext⟩
        (store.publicBundle sender.platform recipient.peerId).signedPreKey opk draws
      = .ok (v2Blob sender recipient.peerId store.signed.id (opkIdOf opk) sk plaintext draws) := by
  rw [sealV2, hp.display, Env.boxPubKeyB64, hsame.platform, b64ToBytes_bytesToB64,
    PreKeyStore.publicBundle]
  rw [b64ToBytes_bytesToB64, hoff.decoded, bind_id]
  dsimp only [bind, Except.bind]
  rw [hsk]
  exact sealRelayBlobV2_eq hp (hp.publicKeySize _) (writtenId_signed store) hoff.writtenId sk
    draws.nonce _ _ _ plaintext

variable (hsk : x3dhRespond sender.platform recipient.boxPriv
  (sender.platform.getPublicKey sender.boxPriv) store.signed.priv opkPriv
  (sender.platform.getPublicKey draws.ephemeral) (text sender.peerId) (text recipient.peerId)
    = .ok sk)

include hsk

theorem respondAndOpen_eq :
    respondAndOpen recipient (text sender.peerId) sender.boxPubKeyB64
        (v2Parsed sender recipient.peerId store.signed.id opkId sk plaintext draws)
        store.signed.priv opkPriv = .ok plaintext := by
  rw [respondAndOpen, Env.boxPubKeyB64, b64ToBytes_bytesToB64, hsame.platform, hsame.session]
  dsimp only [bind, Except.bind]
  rw [v2Parsed, hsk]
  exact open_v2Parsed hp

theorem openV2_eq (hoff : Offered sender.platform store opk opkPriv) :
    openV2 recipient store (text sender.peerId) sender.boxPubKeyB64
        (v2Blob sender recipient.peerId store.signed.id (opkIdOf opk) sk plaintext draws)
      = .ok (some (plaintext, idValue (opkIdOf opk))) := by
  have hprs := parse_v2Blob hp hoff recipient.peerId sk plaintext draws
  rw [← hsame.platform] at hprs hoff
  exact openV2_of_parsed hoff hprs rfl rfl
    (respondAndOpen_eq hsame hp plaintext draws hsk)

theorem decryptBlob_eq (hoff : Offered sender.platform store opk opkPriv) :
    decryptBlob recipient store (text sender.peerId) sender.boxPubKeyB64
        (v2Blob sender recipient.peerId store.signed.id (opkIdOf opk) sk plaintext draws)
      = .ok (some (plaintext, idValue (opkIdOf opk))) := by
  have hvr := relayBlobVersion_v2Bytes (v2HeaderBytes sender.platform
    (bytesToB64 (sender.platform.getPublicKey draws.ephemeral)) (text store.signed.id)
    (idValue (opkIdOf opk))) draws.nonce.val
    (ciphertext sender.platform (sender.platform.getPublicKey draws.ephemeral) store.signed.id
      (opkIdOf opk) sk draws.nonce (text sender.peerId) (text recipient.peerId)
      (text sender.session) plaintext)
  have hop := openV2_eq hsame hp plaintext draws hsk hoff
  rw [v2Blob] at hop ⊢
  rw [decryptBlob, hvr]
  exact hop

end RoundTrip

/-- What the two sides make of a blob that the sender sealed under the content key `sk`. -/
structure Understood (sender recipient : Env N Key) (store : PreKeyStore)
    (opk : Option OneTimePreKey) (plaintext : Bytes) (draws : Draws) (blob : Text)
    (parsed : Parsed N) (sk : Sized 32) : Prop where
  /-- The recipient parses the blob to the sender's ephemeral key, prekey ids and header. -/
  parses : parseRelayBlobV2 recipient.platform blob = .ok parsed
  ephemeralPub : parsed.ephemeralPub = sender.platform.getPublicKey draws.ephemeral
  signedPreKeyId : parsed.signedPreKeyId = store.signed.id
  oneTimePreKeyId : parsed.oneTimePreKeyId = opk.bind fun k => text k.id
  headerBytes : parsed.headerBytes = v2HeaderBytes sender.platform
    (bytesToB64 (sender.platform.getPublicKey draws.ephemeral)) (text store.signed.id)
    (opk.bind fun k => text k.id)
  /-- The sender's handshake, with the public keys of the bundle, ends in the content key. -/
  initiates : ∃ opkPub, opk.mapM (fun k => b64ToBytes k.pub) = .ok opkPub
    ∧ x3dhInitiate sender.platform sender.boxPriv (sender.platform.getPublicKey recipient.boxPriv)
        (sender.platform.getPublicKey store.signed.priv) opkPub (text sender.peerId)
        (text recipient.peerId) draws.ephemeral
      = .ok (sender.platform.getPublicKey draws.ephemeral, sk)
  /-- So does the recipient's, with the private keys of its store, for either order of ids. -/
  responds : ∀ a b, (a, b) = (sender.peerId, recipient.peerId)
      ∨ (a, b) = (recipient.peerId, sender.peerId) →
    x3dhRespond recipient.platform recipient.boxPriv
        (sender.platform.getPublicKey sender.boxPriv) store.signed.priv
        (store.oneTimePreKeyPriv parsed.oneTimePreKeyId) parsed.ephemeralPub (text a) (text b)
      = .ok sk
  /-- With the content key the recipient opens the blob to the plaintext, -/
  opens : openRelayBlobV2 recipient.platform parsed sk (text sender.peerId)
    (text recipient.peerId) (text recipient.session) = .ok plaintext
  /-- and so does the whole call, which reports the one-time prekey used. -/
  decrypts : decryptBlob recipient store (text sender.peerId) sender.boxPubKeyB64 blob
    = .ok (some (plaintext, parsed.oneTimePreKeyId))

theorem Offered.lookup (h : Offered p store opk priv) :
    store.oneTimePreKeyPriv (idValue (opkIdOf opk) : Js N) = priv := by
  cases h with
  | none => rfl
  | some _ hlk => exact hlk

/--
**What is sealed for a peer is opened by it.** With the signed prekey of a bundle that the
recipient's store publishes, and a one-time prekey of the bundle or none, the sender has a
blob, and the recipient parses it, derives its key and opens it to the plaintext.
-/
theorem relay_blob_round_trip (sender recipient : Env N Key)
    (hsame : SameSession sender recipient) (hp : sender.platform.Lawful) (store : PreKeyStore)
    (opk : Option OneTimePreKey)
    (hopk : ∀ k ∈ opk, k ∈ (store.publicBundle sender.platform recipient.peerId).oneTimePreKeys)
    (s : Signaling.State N Key) (plaintext : Bytes) (draws : Draws) :
    ∃ blob parsed sk, sealForPeer sender s recipient.peerId
        ⟨.str recipient.boxPubKeyB64, plaintext⟩
        (some (store.publicBundle sender.platform recipient.peerId).signedPreKey) opk draws
      = .ok blob ∧ Understood sender recipient store opk plaintext draws blob parsed sk := by
  obtain ⟨opkPriv, hoff⟩ := exists_offered hopk
  obtain ⟨sk, hin, hrs⟩ := x3dh_agreed hp sender.boxPriv recipient.boxPriv
    store.signed.priv draws.ephemeral opkPriv (text sender.peerId) (text recipient.peerId)
  refine ⟨_, v2Parsed sender recipient.peerId store.signed.id (opkIdOf opk) sk plaintext draws, sk,
    sealV2_eq hsame hp plaintext draws hoff hin, ?_⟩
  refine ⟨?_, rfl, rfl, bind_id.symm, by rw [bind_id]; rfl,
    ⟨_, hoff.decoded, hin⟩, ?_, ?_,
    decryptBlob_eq hsame hp plaintext draws hrs hoff⟩
  · rw [hsame.platform]
    exact parse_v2Blob hp hoff recipient.peerId sk plaintext draws
  · intro a b hids
    have hlk : store.oneTimePreKeyPriv (v2Parsed sender recipient.peerId store.signed.id
        (opkIdOf opk) sk plaintext draws).oneTimePreKeyId = opkPriv := hoff.lookup
    rw [hlk, hsame.platform]
    rcases hids with hids | hids
    · rw [(Prod.mk.inj hids).1, (Prod.mk.inj hids).2]
      exact hrs
    · rw [(Prod.mk.inj hids).1, (Prod.mk.inj hids).2, x3dhRespond_comm]
      exact hrs
  · rw [hsame.platform, hsame.session]
    exact open_v2Parsed hp

/-! ## A platform -/

def sampleDisplay : Value Int → Text
  | .str s => s
  | _ => []

theorem sampleKey_length {ikm : Bytes} : ((ikm ++ replicate 32 0).take 32).length = 32 := by
  rw [length_take, length_append, length_replicate]
  omega

def toyPlatform (parse : Text → Option (Value Int)) (decode : Bytes → Text) : Platform Int where
  numbers := integers
  ofNat := fun n => n
  display := sampleDisplay
  exceeds := fun _ _ => false
  parse := parse
  decode := decode
  getPublicKey := fun priv => priv.val
  getSharedSecret := fun priv pub => some (zipWith (· + ·) priv.val pub)
  hkdf := fun ikm _ _ => ⟨(ikm ++ replicate 32 0).take 32, sampleKey_length⟩
  encrypt := fun _ _ _ m => m ++ replicate 16 0
  decrypt := fun _ _ _ c => some (c.take (c.length - 16))

noncomputable def samplePlatform : Platform Int :=
  toyPlatform (exists_readsBack integers_lawful).choose exists_decode.choose

theorem samplePlatform_lawful : samplePlatform.Lawful where
  numbers := integers_lawful
  two := rfl
  writesTwo := rfl
  display := fun _ => rfl
  parse := (exists_readsBack integers_lawful).choose_spec
  decode := fun s hs _ => exists_decode.choose_spec s hs
  publicKeySize := fun priv => priv.property
  commutes := fun a b => ⟨_, rfl, congrArg some
    (zipWith_comm_of_comm fun x y => add_comm x y)⟩
  tagSize := fun _ _ _ m => by
    exact (length_append).trans (congrArg (m.length + ·) length_replicate)
  opens := fun _ _ _ m => by
    have hlen : (m ++ replicate 16 (0 : UInt8)).length - 16 = m.length := by
      rw [length_append, length_replicate]
      omega
    have htk : (m ++ replicate 16 (0 : UInt8)).take
        ((m ++ replicate 16 (0 : UInt8)).length - 16) = m := by
      rw [hlen, take_left]
    exact congrArg some htk

def sampleBytes (n : Nat) (b : UInt8) : Sized n := ⟨replicate n b, length_replicate⟩

def toyFabric (p : Platform Int) (peerId : String) (box : UInt8) : Env Int Text where
  platform := p
  session := literal "doc"
  peerId := literal peerId
  requirePeerAuth := true
  boxPriv := sampleBytes 32 box
  rendezvous := false
  importKey := fun _ => none
  verify := fun _ _ _ => false

def sampleStore : PreKeyStore :=
  (PreKeyStore.new (sampleBytes 12 0) (sampleBytes 32 1) (literal "sig")).addOpk
    (sampleBytes 12 1) (sampleBytes 32 2)

theorem sample_blob_round_trip :
    ∃ blob parsed sk, sealForPeer (toyFabric samplePlatform "x" 3) .new (literal "y")
        ⟨.str (toyFabric samplePlatform "y" 4).boxPubKeyB64, [104, 105]⟩
        (some (sampleStore.publicBundle samplePlatform (literal "y")).signedPreKey)
        (some ⟨newKeyID (sampleBytes 12 1), bytesToB64 (replicate 32 2)⟩)
        ⟨sampleBytes 32 5, sampleBytes 24 6⟩ = .ok blob
      ∧ Understood (toyFabric samplePlatform "x" 3) (toyFabric samplePlatform "y" 4) sampleStore
        (some ⟨newKeyID (sampleBytes 12 1), bytesToB64 (replicate 32 2)⟩) [104, 105]
        ⟨sampleBytes 32 5, sampleBytes 24 6⟩ blob parsed sk := by
  refine relay_blob_round_trip (toyFabric samplePlatform "x" 3) (toyFabric samplePlatform "y" 4)
    ⟨rfl, rfl⟩ samplePlatform_lawful sampleStore _ (fun k hk => ?_) .new [104, 105] _
  cases hk
  exact mem_singleton.mpr rfl

/-! ## Clients that can be run -/

def tablePlatform (values : List (Value Int)) : Platform Int :=
  toyPlatform (fun t => values.find? fun v => stringify integers v = t)
    fun bytes => bytes.map fun b => UInt16.ofNat b.toNat

def sampleKeys : Option PreKeyStore :=
  PreKeyStore.create (sampleBytes 12 0) (sampleBytes 32 1) [] oneTimePreKeyPool
    ((range 16).map fun i =>
      (sampleBytes 12 (UInt8.ofNat (i + 1)), sampleBytes 32 (UInt8.ofNat (i + 2))))

theorem sampleKeys_isSome : sampleKeys.isSome = true := by decide

theorem joined_reachable (env : Env N Key) : (fabric env).Reachable (fun _ _ => True)
    (.joined (sampleKeys.get sampleKeys_isSome)) :=
  .init ⟨_, _, _, _, _, (Option.some_get sampleKeys_isSome).symm, rfl⟩

end VulosRelay.Client.Fabric
