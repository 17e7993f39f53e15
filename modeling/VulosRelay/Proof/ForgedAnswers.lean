import VulosRelay.Gateway.Dns
import VulosRelay.Lib.Outcome

/-!
# Forged DNS answers

Which datagrams can give records. `query_raw` draws a random id so that an answer has to
repeat it, but it parses the first datagram that arrives and compares nothing with the
query. So records come from every datagram that parses, that reports no failure and whose
answer count is not 0, and only an authentic one among them is what was asked for.
-/

namespace VulosRelay.Gateway.Dns

open Except

def field (packet : List UInt8) (pos : Nat) : Nat := (readU16 packet pos).toOption.getD 0

def repeatsQuestion (packet : List UInt8) (qname : Str) (qtype : Nat) : Bool :=
  field packet 4 == 1 &&
    match readName packet 12 with
    | .ok (name, next) =>
      eqIgnoreAsciiCase name (List.intercalate ['.'] (labelsOf qname)) &&
        field packet next == qtype
    | .error _ => false

/-- **An authentic datagram**: a response (the bit QR is set) with the id and the question of
the query. -/
def authentic (id : Nat) (qname : Str) (qtype : Nat) (packet : List UInt8) : Bool :=
  field packet 2 ≥ 0x8000 && field packet 0 == id && repeatsQuestion packet qname qtype

/-- A datagram without records in it: it does not parse, it reports a failure, or it counts
no answers. -/
def Barren (packet : List UInt8) : Prop :=
  (∃ e, parseResponse packet = .error e) ∨ field packet 2 % 16 ≠ 0 ∨ field packet 6 = 0

variable {packet : List UInt8} {msg : DnsMessage}

theorem readAnswers_length :
    ∀ {n pos : Nat} {answers : List ResourceRecord},
      readAnswers packet n pos = .ok answers → answers.length = n := by
  intro n
  induction n with
  | zero =>
    intro pos answers h
    cases h
    rfl
  | succ n ih =>
    intro pos answers h
    rw [readAnswers] at h
    cases hans : readAnswer packet pos with
    | error e =>
      rw [hans] at h
      cases h
    | ok r =>
      rw [hans] at h
      dsimp only at h
      cases hrs : readAnswers packet n r.2 with
      | error e =>
        rw [hrs] at h
        cases h
      | ok rest =>
        rw [hrs] at h
        injection h with h
        rw [← h, List.length_cons, ih hrs]

theorem field_of_ok (h : readU16 packet pos = .ok n) : field packet pos = n := by
  rw [field, h]
  rfl

theorem parseResponse_answers (h : parseResponse packet = .ok msg) :
    msg.answers.length = if field packet 2 % 16 ≠ 0 then 0 else field packet 6 := by
  rw [parseResponse] at h
  split at h
  · cases h
  obtain ⟨id, -, h⟩ := bind_eq_ok.mp h
  obtain ⟨flags, hfl, h⟩ := bind_eq_ok.mp h
  obtain ⟨qdcount, -, h⟩ := bind_eq_ok.mp h
  obtain ⟨ancount, han, h⟩ := bind_eq_ok.mp h
  obtain ⟨pos, -, h⟩ := bind_eq_ok.mp h
  rw [field_of_ok hfl, field_of_ok han]
  split at h
  · rename_i hfla
    injection h with h
    rw [if_pos hfla, ← h]
    rfl
  · rename_i hfn
    rw [if_neg hfn]
    cases hans : readAnswers packet ancount pos with
    | error e =>
      rw [hans] at h
      cases h
    | ok answers =>
      rw [hans] at h
      cases h
      exact readAnswers_length hans

theorem answers_nil_iff
    (h : parseResponse packet = .ok msg) : msg.answers = [] ↔ Barren packet := by
  rw [← List.length_eq_zero_iff, parseResponse_answers h]
  constructor
  · intro hzr
    split at hzr
    · rename_i hfl
      exact .inr (.inl hfl)
    · exact .inr (.inr hzr)
  · rintro (⟨e, he⟩ | hfl | hzr)
    · rw [h] at he
      cases he
    · rw [if_pos hfl]
    rw [hzr]
    split <;> rfl

/-- The message has no records, and gives no data to any resolver. -/
structure NoData (packet : List UInt8) (msg : DnsMessage) : Prop where
  /-- No record is left, -/
  answers : msg.answers = []
  /-- and none of the readers finds anything. -/
  txt : txtValues msg = []
  a : aValues msg = []
  aaaa : aaaaValues msg = []
  mx : mxValues packet msg = []

theorem NoData.of_answers (h : msg.answers = []) : NoData packet msg := by
  constructor <;> simp [txtValues, aValues, aaaaValues, addressValues, mxValues, h]

/-- The query was sent, and this is the datagram that it takes for the answer. -/
def Taken (net : Network) (qname : Str) (qtype : Nat) (ascii : Str) (id : Nat)
    (packet : List UInt8) : Prop :=
  net.domainToAscii qname = .ok ascii ∧
    ∃ bytes datagram, net.random = .ok bytes ∧ id = txnId bytes ∧
      net.arrival (encodeQuery id ascii qtype) = .ok datagram ∧
      packet = datagram.take maxDatagram

theorem queryRaw_ok_iff :
    queryRaw net qname qtype = .ok (packet, msg) ↔
      (∃ ascii id, Taken net qname qtype ascii id packet) ∧ parseResponse packet = .ok msg := by
  rw [queryRaw]
  constructor
  · intro h
    cases has : net.domainToAscii qname with
    | error e => rw [has] at h; cases h
    | ok ascii =>
      cases hrn : net.random with
      | error e => rw [has, hrn] at h; cases h
      | ok bytes =>
        rw [has, hrn] at h
        dsimp only at h
        cases har : net.arrival (encodeQuery (txnId bytes) ascii qtype) with
        | error e => rw [har] at h; cases h
        | ok datagram =>
          rw [har] at h
          dsimp only at h
          cases hprs : parseResponse (datagram.take maxDatagram) with
          | error e => rw [hprs] at h; cases h
          | ok m =>
            rw [hprs] at h
            injection h with h
            obtain ⟨rfl, rfl⟩ := Prod.mk.inj h
            exact ⟨⟨ascii, txnId bytes, has, bytes, datagram, hrn, rfl, har, rfl⟩, hprs⟩
  · rintro ⟨⟨ascii, id, has, bytes, datagram, hrn, rfl, har, rfl⟩, hprs⟩
    rw [has, hrn]
    dsimp only
    rw [har]
    dsimp only
    rw [hprs]

/-- **Forged answers are refused**: the records that a query returns come from an authentic
datagram, and any other gives no data. -/
def ForgedRefused (net : Network) (qname : Str) (qtype : Nat) : Prop :=
  ∀ ascii id packet msg, Taken net qname qtype ascii id packet →
    queryRaw net qname qtype = .ok (packet, msg) →
    authentic id ascii qtype packet = true ∨ NoData packet msg

/-- **Forged answers are refused exactly where none arrives first**: the datagram taken is
authentic, or it has no records in it. -/
theorem forgedRefused_iff (net : Network) (qname : Str) (qtype : Nat) :
    ForgedRefused net qname qtype ↔
      ∀ ascii id packet, Taken net qname qtype ascii id packet →
        authentic id ascii qtype packet = true ∨ Barren packet := by
  constructor
  · intro h ascii id packet htk
    cases hprs : parseResponse packet with
    | error e => exact .inr (.inl ⟨e, hprs⟩)
    | ok msg =>
      rcases h ascii id packet msg htk
        (queryRaw_ok_iff.mpr ⟨⟨ascii, id, htk⟩, hprs⟩) with hat | hno
      · exact .inl hat
      · exact .inr ((answers_nil_iff hprs).mp hno.answers)
  · intro h ascii id packet msg htk hqr
    rcases h ascii id packet htk with hat | hbr
    · exact .inl hat
    · exact .inr (.of_answers ((answers_nil_iff (queryRaw_ok_iff.mp hqr).2).mpr hbr))

def forgedMx : List UInt8 :=
  [0xBE, 0xEF, 0x00, 0x00, 0, 1, 0, 1, 0, 0, 0, 0] ++ [1, 120, 0, 0, 1, 0, 1]
    ++ [0, 0, 15, 0, 1, 0, 0, 0, 60, 0, 8, 0, 10, 4, 101, 118, 105, 108, 0]

def spoofed : Network where
  domainToAscii := .ok
  random := .ok (0x12, 0x34)
  arrival := fun _ => .ok forgedMx

theorem forged_not_refused :
    ¬ ForgedRefused spoofed "example.com".toList typeMx ∧
      resolveMx spoofed "example.com".toList = [⟨"evil".toList, 10⟩] := by
  refine ⟨?_, by decide⟩
  intro h
  have htk : Taken spoofed "example.com".toList typeMx "example.com".toList 0x1234 forgedMx :=
    ⟨rfl, (0x12, 0x34), forgedMx, rfl, rfl, rfl, by decide⟩
  obtain ⟨msg, hprs, han⟩ := exists_ok_of_any
    (show (parseResponse forgedMx).toOption.any (·.answers.length == 1) = true by decide)
  rcases h "example.com".toList 0x1234 forgedMx msg htk
    (queryRaw_ok_iff.mpr ⟨⟨_, _, htk⟩, hprs⟩) with hat | hno
  · exact absurd hat (by decide)
  · rw [hno.answers] at han
    cases han

end VulosRelay.Gateway.Dns
