import Mathlib.Data.Vector.Defs
import VulosRelay.Reachability.Sni

/-!
# The server name is read back

A ClientHello is written field by field, each with its length in front, and each reader of
the parser takes back what one writer has put there (`field_vec`). All lengths but two are
bounded by that of the record.
-/

namespace VulosRelay.Reachability

open List hiding Vector

def vec (width : Nat) (x : List UInt8) : List UInt8 := Wire.beBytes width x.length ++ x

inductive Extension where
  | serverName (names : List (UInt8 × List UInt8))
  | other (extType : UInt16) (data : List UInt8) (h : extType ≠ 0)

def encodeName (name : UInt8 × List UInt8) : List UInt8 := name.1 :: vec 2 name.2

namespace Extension

def extType : Extension → Nat
  | .serverName _ => 0
  | .other extType _ _ => extType.toNat

def data : Extension → List UInt8
  | .serverName names => vec 2 (names.flatMap encodeName)
  | .other _ data _ => data

def encode (e : Extension) : List UInt8 := Wire.beBytes 2 e.extType ++ vec 2 e.data

def names : Extension → Option (List (UInt8 × List UInt8))
  | .serverName names => some names
  | .other .. => none

end Extension

structure ClientHello where
  legacyVersion : Vector UInt8 2
  random : Vector UInt8 32
  sessionId : List UInt8
  cipherSuites : List UInt8
  compression : List UInt8
  extensions : Option (List Extension)
  sessionId_lt : sessionId.length < 256
  compression_lt : compression.length < 256

def hostIn (names : List (UInt8 × List UInt8)) : Option (List UInt8) :=
  (names.find? (·.1 == 0)).map Prod.snd

namespace ClientHello

def body (hello : ClientHello) : List UInt8 :=
  hello.legacyVersion.toList ++ (hello.random.toList ++ (vec 1 hello.sessionId
    ++ (vec 2 hello.cipherSuites ++ (vec 1 hello.compression
      ++ (hello.extensions.map fun es => vec 2 (es.flatMap Extension.encode)).getD []))))

def handshake (hello : ClientHello) : List UInt8 := 1 :: vec 3 hello.body

def record (hello : ClientHello) (version : Vector UInt8 2) : List UInt8 :=
  0x16 :: (version.toList ++ vec 2 hello.handshake)

def hostName (hello : ClientHello) : Option (List UInt8) :=
  ((hello.extensions.getD []).findSome? Extension.names).bind hostIn

end ClientHello

theorem take_append (h : x.length = n) (rest : List UInt8) :
    take n (x ++ rest) = .ok (x, rest) := by
  subst h
  rw [take, if_neg (by simp), take_left, drop_left]

theorem uint_beBytes {width n : Nat} (h : n < 256 ^ width) (rest : List UInt8) :
    uint width (Wire.beBytes width n ++ rest) = .ok (n, rest) := by
  have htk := take_append (Wire.beBytes_length width n) rest
  simp only [uint, bind, StateT.bind, htk, Except.bind]
  rw [Wire.beUint_beBytes, Nat.mod_eq_of_lt h]
  rfl

theorem field_vec (h : x.length < 256 ^ width) (rest : List UInt8) :
    field width (vec width x ++ rest) = .ok (x, rest) := by
  have hlen := uint_beBytes h (x ++ rest)
  rw [vec, append_assoc]
  simp only [field, bind, StateT.bind, hlen, Except.bind]
  exact take_append rfl rest

variable {rest : List UInt8}

theorem uint_one {b : UInt8} : uint 1 (b :: rest) = .ok (b.toNat, rest) := by
  have h := @uint_beBytes 1 _ b.toNat_lt rest
  simpa [Wire.beBytes] using h

theorem vec_length (width : Nat) (x : List UInt8) : (vec width x).length = width + x.length := by
  simp [vec]

def answer : Option (List UInt8) → Except SniError (List Char)
  | none => .error .noSni
  | some [] => .error .emptySni
  | some name =>
    match fromUtf8 name with
    | some text => .ok text
    | none => .error (.malformed "server_name is not valid UTF-8")

theorem scanNames_encode (hrn : (names.flatMap encodeName).length ≤ rounds)
    (hsm : (names.flatMap encodeName).length < 65536) :
    scanNames rounds (names.flatMap encodeName) = answer (hostIn names) := by
  induction names generalizing rounds with
  | nil => cases rounds <;> rfl
  | cons name names ih =>
    obtain ⟨nameType, bytes⟩ := name
    rw [flatMap_cons, encodeName, cons_append] at hrn hsm ⊢
    simp only [length_cons, length_append, vec_length] at hrn hsm
    obtain ⟨r, rfl⟩ : ∃ r, rounds = r + 1 := ⟨rounds - 1, by omega⟩
    rw [scanNames.eq_def]
    simp only [bind, Except.bind, uint_one]
    rw [field_vec (by omega)]
    by_cases hty : nameType = 0
    · subst hty
      cases bytes <;> rfl
    have hne : nameType.toNat ≠ 0 := fun h => hty (UInt8.toNat_inj.mp h)
    have hhs : hostIn ((nameType, bytes) :: names) = hostIn names := by
      rw [hostIn, find?_cons_of_neg (by simpa using hty)]
      rfl
    simp only
    rw [if_neg hne, ih (by omega) (by omega), hhs]

theorem parseServerNameExtension_encode (h : (names.flatMap encodeName).length < 65536) :
    parseServerNameExtension (vec 2 (names.flatMap encodeName)) = answer (hostIn names) := by
  have hfl := @field_vec 2 _ h []
  rw [append_nil] at hfl
  rw [parseServerNameExtension, hfl]
  exact scanNames_encode le_rfl h

theorem Extension.extType_lt (e : Extension) : e.extType < 65536 := by
  cases e with
  | serverName names => exact Nat.zero_lt_succ _
  | other extType data h => exact extType.toNat_lt

theorem scanExtensions_cons {e : Extension} (hdt : e.data.length < 65536) {rounds : Nat} :
    scanExtensions (rounds + 1) (e.encode ++ rest)
      = if e.extType = 0 then parseServerNameExtension e.data else scanExtensions rounds rest := by
  rw [Extension.encode, append_assoc, scanExtensions]
  · rw [uint_beBytes e.extType_lt]
    simp only [bind, Except.bind]
    rw [field_vec hdt]
  · exact nofun

theorem scanExtensions_encode {es : List Extension} {rounds : Nat}
    (hrn : (es.flatMap Extension.encode).length ≤ rounds)
    (hsm : (es.flatMap Extension.encode).length < 65536) :
    scanExtensions rounds (es.flatMap Extension.encode)
      = answer ((es.findSome? Extension.names).bind hostIn) := by
  induction es generalizing rounds with
  | nil => cases rounds <;> rfl
  | cons e es ih =>
    have hlen : e.encode.length = 4 + e.data.length := by
      simp only [Extension.encode, length_append, vec_length, Wire.beBytes_length]
      omega
    rw [flatMap_cons, length_append] at hrn hsm
    obtain ⟨r, rfl⟩ : ∃ r, rounds = r + 1 := ⟨rounds - 1, by omega⟩
    rw [flatMap_cons]
    cases e with
    | serverName names =>
      rw [scanExtensions_cons (by omega), if_pos (by rfl)]
      rw [Extension.data, vec_length] at hlen
      exact parseServerNameExtension_encode (by omega)
    | other extType data hne =>
      have hzr : (Extension.other extType data hne).extType ≠ 0 := fun h =>
        hne (UInt16.toNat_inj.mp h)
      rw [scanExtensions_cons (by omega), if_neg hzr, ih (by omega) (by omega)]
      rfl

theorem parseClientHelloBody_body {hello : ClientHello} (h : hello.body.length ≤ 0x4000) :
    parseClientHelloBody hello.body = answer hello.hostName := by
  simp only [ClientHello.body, length_append, vec_length, Vector.length_toList] at h
  rw [parseClientHelloBody, ClientHello.body, take_append hello.legacyVersion.length_toList]
  simp only [bind, Except.bind]
  rw [take_append hello.random.length_toList]
  simp only
  rw [field_vec hello.sessionId_lt]
  simp only
  rw [field_vec (by omega)]
  simp only
  rw [field_vec hello.compression_lt, ClientHello.hostName]
  cases hes : hello.extensions with
  | none => rfl
  | some es =>
    rw [hes, Option.map_some, Option.getD_some, vec_length] at h
    have hfl := @field_vec 2 (es.flatMap Extension.encode) (by omega) []
    rw [append_nil] at hfl
    have hne : vec 2 (es.flatMap Extension.encode) ≠ [] := by
      intro hnil
      have hlen := vec_length 2 (es.flatMap Extension.encode)
      rw [hnil] at hlen
      simp at hlen
      omega
    simp only [Option.map_some, Option.getD_some]
    rw [if_neg hne, hfl]
    exact scanExtensions_encode le_rfl (by omega)

theorem parseHandshake_handshake {hello : ClientHello} (h : hello.body.length ≤ 0x4000) :
    parseHandshake hello.handshake = (answer hello.hostName).map .complete := by
  rw [parseHandshake, ClientHello.handshake, uint_one]
  simp only [bind, Except.bind, vec]
  rw [if_neg (by decide), uint_beBytes (by omega)]
  have htk := take_append (x := hello.body) rfl []
  rw [append_nil] at htk
  simp only
  rw [htk]
  simp only
  rw [parseClientHelloBody_body h]

theorem tryParse_header {version : Vector UInt8 2} (hpos : 0 < n) (hle : n ≤ 0x4000) :
    tryParse (0x16 :: (version.toList ++ (Wire.beBytes 2 n ++ rest)))
      = if rest.length < n then .ok .incomplete else parseHandshake (rest.take n) := by
  obtain ⟨a, b, hvr⟩ := length_eq_two.mp version.length_toList
  have hdr : (Wire.beBytes 2 n ++ rest).drop 2 = rest := drop_left' (Wire.beBytes_length 2 n)
  have htk : (Wire.beBytes 2 n ++ rest).take 2 = Wire.beBytes 2 n :=
    take_left' (Wire.beBytes_length 2 n)
  have hvl : Wire.beUint (Wire.beBytes 2 n) = n := by
    rw [Wire.beUint_beBytes, Nat.mod_eq_of_lt (by omega)]
  have hlen : (0x16 :: (version.toList ++ (Wire.beBytes 2 n ++ rest))).length
      = 5 + rest.length := by
    simp only [length_cons, length_append, Vector.length_toList, Wire.beBytes_length]
    omega
  rw [tryParse, hlen, if_neg (by omega), if_neg (by simp), hvr]
  simp only [cons_append, nil_append, drop_succ_cons, drop_zero, htk, hdr, hvl]
  rw [if_neg (by omega)]
  by_cases h : rest.length < n
  · rw [if_pos h, if_pos (by omega)]
  · rw [if_neg h, if_neg (by omega)]

/-- **The server name of a record.** What follows the record does not matter, and nothing is
decided before the record is complete. -/
theorem tryParse_record (hello : ClientHello) (version : Vector UInt8 2)
    (hfits : hello.handshake.length ≤ 0x4000) :
    (∀ host rest, hello.hostName = some (Utf8.encode host) → host ≠ [] →
        tryParse (hello.record version ++ rest) = .ok (.complete host)) ∧
      (∀ rest, hello.hostName = none ∨ hello.hostName = some [] →
        ∃ e, tryParse (hello.record version ++ rest) = .error e) ∧
      ∀ start, start <+: hello.record version → start ≠ hello.record version →
        tryParse start = .ok .incomplete := by
  have hlen : hello.handshake.length = 4 + hello.body.length := by
    rw [ClientHello.handshake, length_cons, vec_length]
    omega
  have hpr : ∀ rest, tryParse (hello.record version ++ rest)
      = (answer hello.hostName).map .complete := by
    intro rest
    rw [ClientHello.record, vec, cons_append, append_assoc, append_assoc,
      tryParse_header (by omega) hfits, if_neg (by simp), take_left,
      parseHandshake_handshake (by omega)]
  refine ⟨fun host rest hhs hne => ?_, fun rest hhs => ?_, fun start hst hne => ?_⟩
  · have hutf8 : fromUtf8 (Utf8.encode host) = some host := by
      rw [fromUtf8, Utf8.decodeLossy_encode, if_pos rfl]
    have hnm : Utf8.encode host ≠ [] := fun h => hne <| by
      rw [← Utf8.decodeLossy_encode host, h]
      rfl
    rw [hpr, hhs, answer, hutf8]
    · rfl
    · exact hnm
  · rw [hpr]
    rcases hhs with h | h <;> (rw [h]; exact ⟨_, rfl⟩)
  have hsh : start.length < (hello.record version).length :=
    lt_of_le_of_ne hst.length_le fun h => hne (hst.eq_of_length h)
  by_cases hfv : start.length < 5
  · rw [tryParse, if_pos hfv]
  have hhd : 0x16 :: (version.toList ++ Wire.beBytes 2 hello.handshake.length)
      <+: hello.record version := by
    rw [ClientHello.record, vec, ← append_assoc]
    exact prefix_append ..
  obtain ⟨rest, rfl⟩ := prefix_of_prefix_length_le hhd hst
    (by simp; omega)
  rw [cons_append, append_assoc, tryParse_header (by omega) hfits, if_pos]
  simp only [ClientHello.record, vec, length_cons, length_append] at hsh
  omega

def sampleHello : ClientHello where
  legacyVersion := ⟨#[3, 3], rfl⟩
  random := Vector.replicate 32 0
  sessionId := []
  cipherSuites := [0x13, 1]
  compression := [0]
  extensions := some
    [.other 43 [2, 3, 4] (by decide), .serverName [(0, Utf8.encode ['a', '.', 'b'])]]
  sessionId_lt := by decide
  compression_lt := by decide

theorem sampleHello_parsed :
    tryParse (sampleHello.record ⟨#[3, 1], rfl⟩ ++ [7]) = .ok (.complete ['a', '.', 'b']) :=
  (tryParse_record sampleHello ⟨#[3, 1], rfl⟩ (by decide)).1 ['a', '.', 'b'] [7] (by decide)
    (by decide)

end VulosRelay.Reachability
