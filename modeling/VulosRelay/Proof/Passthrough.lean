import VulosRelay.Lib.Outcome
import VulosRelay.Reachability.Ingress

/-!
# What a client's bytes decide

`try_parse` does not change its mind when more bytes come, so the splitting of the stream can
matter only through the bound on the buffer. A record may be legal and end a few bytes after the
bound. It is then refused if a read stops between the two, and decided on its contents if none
does. Whatever is peeked is the start of the stream, and the splice goes on where it ends.
-/

namespace VulosRelay.Reachability

open Wire

open Gateway (Str)
open List

/-- Where the record ends that a stream begins with, if it has the header of a legal one. -/
def recordEnd (buf : List UInt8) : Option Nat :=
  let recordLen := Wire.beUint ((buf.drop 3).take 2)
  if buf.head? = some 0x16 ∧ 0 < recordLen ∧ recordLen ≤ 0x4000 then some (5 + recordLen) else none

variable {buf stream : List UInt8} {n : Nat} {ending : PeekError}

theorem header_append (h : 5 ≤ buf.length) :
    (buf ++ rest).head? = buf.head? ∧ ((buf ++ rest).drop 3).take 2 = (buf.drop 3).take 2 := by
  refine ⟨head?_append_of_ne_nil _ (ne_nil_of_length_pos (by omega)), ?_⟩
  rw [drop_append_of_le_length (by omega), take_append_of_le_length (by rw [length_drop]; omega)]

theorem recordEnd_append (rest : List UInt8) (h : 5 ≤ buf.length) :
    recordEnd (buf ++ rest) = recordEnd buf := by
  obtain ⟨hhd, hlen⟩ := header_append h
  rw [recordEnd, recordEnd, hhd, hlen]

theorem parseHandshake_ne : parseHandshake record ≠ .ok .incomplete := by
  intro h
  obtain ⟨⟨hst, c⟩, -, h⟩ := Except.bind_eq_ok.mp h
  dsimp only at h
  split_ifs at h
  obtain ⟨⟨hsl, c⟩, -, h⟩ := Except.bind_eq_ok.mp h
  dsimp only at h
  split at h
  · cases h
  · rename_i body _ _
    cases hbd : parseClientHelloBody body <;> rw [hbd] at h <;> cases h

/-- More bytes are waited for as long as the header or the record is not complete. -/
theorem tryParse_incomplete_iff : tryParse buf = .ok .incomplete ↔
    buf.length < 5 ∨ ∃ n, recordEnd buf = some n ∧ buf.length < n := by
  unfold tryParse recordEnd
  by_cases hfv : buf.length < 5
  · simp [hfv]
  by_cases hhd : buf.head? = some 0x16
  · by_cases hlen : beUint ((buf.drop 3).take 2) = 0 ∨
        beUint ((buf.drop 3).take 2) > 0x4000
    · have hill : ¬ (0 < beUint ((buf.drop 3).take 2) ∧
          beUint ((buf.drop 3).take 2) ≤ 0x4000) := by omega
      simp [hfv, hhd, hlen, hill]
    · have hlg : 0 < beUint ((buf.drop 3).take 2) ∧
          beUint ((buf.drop 3).take 2) ≤ 0x4000 := by omega
      by_cases hsh : buf.length < 5 + beUint ((buf.drop 3).take 2)
      · simp [hfv, hhd, hlen, hlg, hsh]
      · simp [hfv, hhd, hlen, hlg, hsh, parseHandshake_ne]
  · simp [hfv, hhd]

theorem tryParse_append (h : tryParse buf ≠ .ok .incomplete) :
    tryParse (buf ++ rest) = tryParse buf := by
  have hfv : ¬ buf.length < 5 := fun hsh => h (tryParse_incomplete_iff.mpr (.inl hsh))
  obtain ⟨hhd, hlen⟩ := header_append (not_lt.mp hfv)
  have hmr : ¬ (buf ++ rest).length < 5 := by
    rw [length_append]
    omega
  rw [tryParse, tryParse, hhd, hlen, if_neg hfv, if_neg hmr]
  by_cases hoth : buf.head? ≠ some 0x16
  · rw [if_pos hoth, if_pos hoth]
  rw [if_neg hoth, if_neg hoth]
  by_cases hill : beUint ((buf.drop 3).take 2) = 0 ∨
      beUint ((buf.drop 3).take 2) > 0x4000
  · rw [if_pos hill, if_pos hill]
  have hend : recordEnd buf = some (5 + beUint ((buf.drop 3).take 2)) :=
    if_pos ⟨not_not.mp hoth, by omega, by omega⟩
  have hcm : ¬ buf.length < 5 + beUint ((buf.drop 3).take 2) := fun hsh =>
    h (tryParse_incomplete_iff.mpr (.inr ⟨_, hend, hsh⟩))
  rw [if_neg hill, if_neg hill, if_neg hcm, if_neg (by rw [length_append]; omega),
    drop_append_of_le_length (by omega), take_append_of_le_length (by rw [length_drop]; omega)]

theorem recordEnd_bounds (h : recordEnd buf = some n) : 5 < n ∧ n ≤ 5 + 0x4000 := by
  rw [recordEnd] at h
  split_ifs at h
  cases h
  omega

theorem decided_eq_none_iff : decided buf = none ↔
    tryParse buf = .ok .incomplete ∧ buf.length < maxClientHelloBytes := by
  unfold decided
  split <;> simp [*]

/-- What the parser decides is final. -/
theorem decided_of_parsed (h : tryParse buf ≠ .ok .incomplete) :
    ∃ r, r ≠ .error .tooLarge ∧ ∀ rest, decided (buf ++ rest) = some r := by
  cases hpr : tryParse buf with
  | error e =>
    exact ⟨.error (.sni e), nofun, fun rest => by rw [decided, tryParse_append h, hpr]⟩
  | ok parsed =>
    cases parsed with
    | incomplete => exact absurd hpr h
    | complete name =>
      exact ⟨.ok name, nofun, fun rest => by rw [decided, tryParse_append h, hpr]⟩

/-- The chunks that reads into a buffer of 1024 bytes may split a stream into. -/
def Splits (stream : List UInt8) (chunks : List (List UInt8)) : Prop :=
  chunks.flatten = stream ∧ ∀ chunk ∈ chunks, 0 < chunk.length ∧ chunk.length ≤ 1024

/-- The outcome of a peek: the host name or the error. -/
def outcome (ending : PeekError) (chunks : List (List UInt8)) : Except PeekError Str :=
  (peekClientHello ending chunks).map (·.serverName)

/-- A record of the stream ends behind the bound on the buffer. -/
def Straddles (stream : List UInt8) : Prop :=
  ∃ n ∈ recordEnd stream, maxClientHelloBytes < n ∧ n ≤ stream.length

theorem peekFrom_of_some (h : decided buf = some r) :
    (peekFrom ending buf chunks).map (·.serverName) = r := by
  unfold peekFrom
  rw [h]
  cases r <;> cases chunks <;> rfl

theorem peekFrom_of_none (h : decided buf = none) :
    peekFrom ending buf (chunk :: chunks) = peekFrom ending (buf ++ chunk) chunks := by
  rw [peekFrom.eq_def, h]

/-- A decision that is not the bound's stays, and so does the bound's unless a record straddles. -/
theorem decided_append (hst : ¬ Straddles (buf ++ rest)) (h : decided buf = some r) :
    decided (buf ++ rest) = some r := by
  by_cases hpr : tryParse buf = .ok .incomplete
  · have hbn : maxClientHelloBytes ≤ buf.length := by
      by_contra hsh
      rw [decided_eq_none_iff.mpr ⟨hpr, not_le.mp hsh⟩] at h
      cases h
    have hln : 5 ≤ buf.length := le_trans (by decide) hbn
    have hstl : tryParse (buf ++ rest) = .ok .incomplete := by
      rcases tryParse_incomplete_iff.mp hpr with hfv | ⟨n, hend, hlt⟩
      · omega
      · refine tryParse_incomplete_iff.mpr (.inr ⟨n, (recordEnd_append rest hln).trans hend, ?_⟩)
        by_contra hge
        exact hst ⟨n, (recordEnd_append rest hln).trans hend, by omega, not_lt.mp hge⟩
    have hmr : maxClientHelloBytes ≤ (buf ++ rest).length := by
      rw [length_append]
      omega
    rw [decided, hpr] at h
    rw [decided, hstl]
    dsimp only at h ⊢
    rw [if_pos hbn] at h
    rw [if_pos hmr, h]
  · obtain ⟨r', -, hfn⟩ := decided_of_parsed hpr
    have hbuf := hfn []
    rw [append_nil, h] at hbuf
    rw [hfn, hbuf]

/-- Without a straddling record the stream as a whole decides. -/
theorem peekFrom_eq (hst : ¬ Straddles (buf ++ chunks.flatten)) :
    (peekFrom ending buf chunks).map (·.serverName)
      = (decided (buf ++ chunks.flatten)).getD (.error ending) := by
  induction chunks generalizing buf with
  | nil =>
    rw [flatten_nil, append_nil]
    cases h : decided buf with
    | none =>
      unfold peekFrom
      rw [h]
      rfl
    | some r => exact peekFrom_of_some h
  | cons chunk chunks ih =>
    cases h : decided buf with
    | none =>
      rw [peekFrom_of_none h, ih, append_assoc, flatten_cons]
      rwa [append_assoc, ← flatten_cons]
    | some r => rw [peekFrom_of_some h, decided_append hst h, Option.getD_some]

/-- One byte at a time up to the bound nothing is decided. -/
theorem peekFrom_bytes (buf rest : List UInt8) (chunks : List (List UInt8))
    (h : ∀ start, start <+: stream → start.length < maxClientHelloBytes → decided start = none)
    (hst : buf ++ bytes ++ rest = stream) (hlen : (buf ++ bytes).length ≤ maxClientHelloBytes) :
    peekFrom ending buf (bytes.map ([·]) ++ chunks) = peekFrom ending (buf ++ bytes) chunks := by
  induction bytes generalizing buf with
  | nil => rw [append_nil]; rfl
  | cons b bytes ih =>
    have hbuf : decided buf = none := by
      refine h buf ?_ ?_
      · rw [← hst, append_assoc]
        exact prefix_append _ _
      · rw [length_append, length_cons] at hlen
        omega
    rw [map_cons, cons_append, peekFrom_of_none hbuf, ih, append_assoc, singleton_append]
    · rw [← hst, append_assoc buf, singleton_append]
    · rwa [append_assoc, singleton_append]

theorem Splits.append (h : Splits stream chunks) (h' : Splits rest chunks') :
    Splits (stream ++ rest) (chunks ++ chunks') := by
  refine ⟨by rw [flatten_append, h.1, h'.1], fun chunk hch => ?_⟩
  rcases mem_append.mp hch with hch | hch
  · exact h.2 chunk hch
  · exact h'.2 chunk hch

theorem splits_bytes (bytes : List UInt8) : Splits bytes (bytes.map ([·])) := by
  refine ⟨by rw [← flatMap_def, flatMap_singleton'], fun chunk hch => ?_⟩
  obtain ⟨b, -, rfl⟩ := mem_map.mp hch
  exact ⟨Nat.one_pos, Nat.le_of_ble_eq_true rfl⟩

/-- Two ways to split a stream with a straddling record: with a read that stops at the bound, and
with one that goes from before it to after the record. -/
theorem straddles_outcomes (ending : PeekError) (h : Straddles stream) :
    ∃ chunks chunks', Splits stream chunks ∧ Splits stream chunks' ∧
      outcome ending chunks = .error .tooLarge ∧ decided stream = some (outcome ending chunks') ∧
      outcome ending chunks' ≠ .error .tooLarge := by
  obtain ⟨n, hend, hbn, hle⟩ := h
  have hn := recordEnd_bounds hend
  have hmax : maxClientHelloBytes = 16384 := rfl
  have hfst : ∀ start, start <+: stream → 5 ≤ start.length → recordEnd start = some n := by
    rintro start ⟨rest, rfl⟩ hfv
    rw [← hend, recordEnd_append rest hfv]
  have hwt : ∀ start, start <+: stream → start.length < n →
      tryParse start = .ok .incomplete := by
    intro start hst hlt
    by_cases hfv : start.length < 5
    · exact tryParse_incomplete_iff.mpr (.inl hfv)
    · exact tryParse_incomplete_iff.mpr (.inr ⟨n, hfst start hst (not_lt.mp hfv), hlt⟩)
  have hno : ∀ start, start <+: stream → start.length < maxClientHelloBytes →
      decided start = none := fun start hst hlt =>
    decided_eq_none_iff.mpr ⟨hwt start hst (by omega), hlt⟩
  -- one read stops at the bound, the other goes from a byte before it to after the record
  obtain ⟨first, last, hcut, hlen⟩ : ∃ first last, first ++ last = stream ∧ first.length = 16383 :=
    ⟨stream.take 16383, stream.drop 16383, take_append_drop .., by rw [length_take]; omega⟩
  have hls : n ≤ 16383 + last.length := by
    rw [← hcut, length_append] at hle
    omega
  have hprs : tryParse (first ++ last.take 1024) ≠ .ok .incomplete := by
    have hln : (first ++ last.take 1024).length = 16383 + min 1024 last.length := by
      rw [length_append, length_take, hlen]
    have hst : first ++ last.take 1024 <+: stream := by
      rw [← hcut]
      exact (prefix_append_right_inj first).mpr ( take_prefix 1024 last)
    intro hmr
    rcases tryParse_incomplete_iff.mp hmr with hfv | ⟨m, hm, hlt⟩
    · omega
    · cases (hfst _ hst (by omega)).symm.trans hm
      omega
  obtain ⟨r, hr, hfn⟩ := decided_of_parsed hprs
  have hout : outcome ending (first.map ([·]) ++ (last.take 1024 :: (last.drop 1024).map ([·])))
      = r := by
    rw [outcome, peekClientHello, peekFrom_bytes [] last _ hno hcut (by simp; omega),
      nil_append, peekFrom_of_none (hno first ⟨last, hcut⟩ (by omega)), peekFrom_of_some]
    simpa using hfn []
  refine ⟨stream.map ([·]), first.map ([·]) ++ (last.take 1024 :: (last.drop 1024).map ([·])),
    splits_bytes stream, ?_, ?_, ?_, hout ▸ hr⟩
  · have hrd : Splits (last.take 1024) [last.take 1024] := by
      refine ⟨flatten_singleton, fun chunk hch => ?_⟩
      cases mem_singleton.mp hch
      rw [length_take]
      omega
    have hsp := (splits_bytes first).append (hrd.append (splits_bytes (last.drop 1024)))
    rwa [take_append_drop, hcut] at hsp
  · have hby := take_append_drop maxClientHelloBytes stream
    have hlr : decided (stream.take maxClientHelloBytes) = some (.error .tooLarge) := by
      have hfl : (stream.take maxClientHelloBytes).length = maxClientHelloBytes := by
        rw [length_take]
        omega
      rw [decided, hwt _ ( take_prefix ..) (by omega)]
      exact if_pos hfl.ge
    rw [outcome, peekClientHello, ← hby, map_append, peekFrom_bytes [] (stream.drop _) _ hno
      hby (by simp), nil_append, peekFrom_of_some hlr]
  · rw [hout, ← hfn (last.drop 1024), append_assoc, take_append_drop, hcut]

/-- **A stream is decided on its contents**: its splitting does not matter, and if a legal record
is complete, that record is the decision. -/
def DecidedByContents (ending : PeekError) (stream : List UInt8) : Prop :=
  (∀ chunks chunks', Splits stream chunks → Splits stream chunks' →
    outcome ending chunks = outcome ending chunks') ∧
  ∀ n ∈ recordEnd stream, n ≤ stream.length → ∀ chunks, Splits stream chunks →
    decided stream = some (outcome ending chunks)

theorem decidedByContents_iff (ending : PeekError) (stream : List UInt8) :
    DecidedByContents ending stream ↔ ¬ Straddles stream := by
  constructor
  · rintro ⟨hsm, -⟩ hst
    obtain ⟨chunks, chunks', hsp, hsp', hlr, -, hne⟩ := straddles_outcomes ending hst
    exact hne ((hsm chunks chunks' hsp hsp').symm.trans hlr)
  · intro hst
    have heq : ∀ chunks, Splits stream chunks →
        outcome ending chunks = (decided stream).getD (.error ending) := by
      rintro chunks ⟨rfl, -⟩
      exact peekFrom_eq hst
    refine ⟨fun chunks chunks' hsp hsp' => ?_, fun n hend hle chunks hsp => ?_⟩
    · rw [heq chunks hsp, heq chunks' hsp']
    · rw [heq chunks hsp]
      cases hdc : decided stream with
      | some r => rfl
      | none =>
        rcases tryParse_incomplete_iff.mp (decided_eq_none_iff.mp hdc).1 with hfv | hmr
        · have := recordEnd_bounds hend
          omega
        · obtain ⟨m, hm, hlt⟩ := hmr
          cases hend.symm.trans hm
          omega

/-- A record of the greatest legal size. -/
def greatest : List UInt8 := [0x16, 3, 1, 0x40, 0] ++ replicate 16384 0

theorem greatest_depends_on_reads : ∃ chunks chunks', Splits greatest chunks ∧
    Splits greatest chunks' ∧
      outcome .unexpectedEof chunks ≠ outcome .unexpectedEof chunks' := by
  have hend : recordEnd greatest = some (5 + 16384) := rfl
  have hlen : greatest.length = 16389 := by
    rw [greatest, length_append, length_replicate]
    rfl
  obtain ⟨chunks, chunks', hsp, hsp', hlr, -, hne⟩ :=
    straddles_outcomes .unexpectedEof ⟨_, hend, by decide, hlen.ge⟩
  exact ⟨chunks, chunks', hsp, hsp', fun hsm => hne (hsm.symm.trans hlr)⟩

/-- What was peeked and what was not read are the stream. -/
theorem peekFrom_raw (buf : List UInt8) (h : peekFrom ending buf chunks = .ok peek) :
    peek.raw ++ peek.unread.flatten = buf ++ chunks.flatten := by
  induction chunks generalizing buf with
  | nil =>
    rw [peekFrom.eq_def] at h
    cases hbuf : decided buf with
    | none =>
      rw [hbuf] at h
      cases h
    | some r =>
      rw [hbuf] at h
      cases r <;> cases h
      rfl
  | cons chunk chunks ih =>
    cases hbuf : decided buf with
    | none =>
      rw [peekFrom_of_none hbuf] at h
      rw [ih _ h, append_assoc, flatten_cons]
    | some r =>
      rw [peekFrom.eq_def, hbuf] at h
      cases r <;> cases h
      rfl

/-- **The client's connection belongs to a box**: its name is registered, and the service is
allowed. -/
def Routed (registry : RegistryState) (serviceId : Str) (ending : PeekError)
    (chunks : List (List UInt8)) (handle : Nat) : Prop :=
  ∃ serverName allowedServices, outcome ending chunks = .ok serverName ∧
    registry.lookup serverName = some (handle, allowedServices) ∧ serviceId ∈ allowedServices

theorem ingress_traffic :
    (∀ handle bytes, (handleIngressConnection registry serviceId ending chunks splice).1.box
          = some (handle, bytes) →
        Routed registry serviceId ending chunks handle ∧ bytes <+: chunks.flatten) ∧
    ((handleIngressConnection registry serviceId ending chunks splice).1.box = none →
      (handleIngressConnection registry serviceId ending chunks splice).1.client = []) := by
  unfold handleIngressConnection
  cases hpk : peekClientHello ending chunks with
  | error e => exact ⟨nofun, fun _ => rfl⟩
  | ok peek =>
    have hraw := peekFrom_raw [] hpk
    have hnm : outcome ending chunks = .ok peek.serverName := by
      rw [outcome, hpk]
      rfl
    dsimp only
    cases hlk : registry.lookup peek.serverName with
    | none => exact ⟨nofun, fun _ => rfl⟩
    | some entry =>
      obtain ⟨handle, allowedServices⟩ := entry
      dsimp only
      by_cases hal : serviceId ∈ allowedServices
      · by_cases hop : splice.opens = false
        · rw [if_neg (not_not.mpr hal), if_pos hop]
          exact ⟨nofun, fun _ => rfl⟩
        have hrt : Routed registry serviceId ending chunks handle :=
          ⟨_, _, hnm, hlk, hal⟩
        rw [if_neg (not_not.mpr hal), if_neg hop]
        cases splice.written with
        | some written =>
          refine ⟨fun handle bytes hbox => ?_, nofun⟩
          cases hbox
          exact ⟨hrt, ( take_prefix written peek.raw).trans ⟨_, hraw⟩⟩
        | none =>
          refine ⟨fun handle bytes hbox => ?_, nofun⟩
          cases hbox
          rw [nil_append] at hraw
          rw [← hraw]
          exact ⟨hrt, (prefix_append_right_inj peek.raw).mpr ( take_prefix ..)⟩
      · rw [if_pos hal]
        exact ⟨nofun, fun _ => rfl⟩

/-- **Blind passthrough.** -/
theorem blind_passthrough (registry : RegistryState) (serviceId : Str) (ending : PeekError)
    (chunks : List (List UInt8)) (splice : Splice) :
    (∀ handle bytes,
      (handleIngressConnection registry serviceId ending chunks splice).1.box
          = some (handle, bytes) →
        Routed registry serviceId ending chunks handle ∧ bytes <+: chunks.flatten) ∧
    ((¬ ∃ handle, Routed registry serviceId ending chunks handle) →
      (handleIngressConnection registry serviceId ending chunks splice).1 = ⟨none, []⟩) := by
  obtain ⟨hsm, hno⟩ := ingress_traffic
  refine ⟨hsm, fun hoth => ?_⟩
  generalize (handleIngressConnection registry serviceId ending chunks splice).1 = traffic at *
  obtain ⟨box, client⟩ := traffic
  cases box with
  | none => exact congrArg (Traffic.mk none) (hno rfl)
  | some entry => exact absurd ⟨_, (hsm entry.1 entry.2 rfl).1⟩ hoth

end VulosRelay.Reachability
