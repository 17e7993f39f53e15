import VulosRelay.Gateway.Inbound
import VulosRelay.Lib.History

/-!
# Accepted recipients of an inbound message

A session holds one recipient. `RCPT TO` is answered 250 for every acceptable address and
replaces the one that is held, so of two recipients accepted in a transaction only the last
gets the message that the end of `DATA` answers 250 for.

A line can change a session in six ways (`Moved`). As long as no accepted recipient replaces
another one, the recipient that is held is the only one accepted in the transaction, and it
is the one whose durable ack the 250 stands for.
-/

namespace VulosRelay.Gateway

open MxSession

def MxEvent.clears : MxEvent → Bool
  | .rset => true
  | .ended _ _ => true
  | _ => false

def transaction (history : List MxEvent) : List MxEvent := history.takeWhile (!·.clears)

/-- When the end of `DATA` is answered 250, the message was durably acknowledged for every
recipient accepted in the transaction. -/
def Kept (event : MxEvent) (older : List MxEvent) : Prop :=
  ∀ data reply, event = .ended data reply → reply.code = 250 →
    ∀ r, .rcpt r ∈ transaction older → .delivered ⟨r, data, .acked⟩ ∈ transaction older

theorem transaction_cons {event : MxEvent} {history : List MxEvent}
    (h : event.clears = false) : transaction (event :: history) = event :: transaction history := by
  simp [transaction, h]

theorem transaction_clear {event : MxEvent} {history : List MxEvent}
    (h : event.clears = true) : transaction (event :: history) = [] := by
  simp [transaction, h]

section Condition

variable {AttestKey Mote Attestation : Type} (texts : Texts) (gw : InboundGateway AttestKey)

def namedRecipient (s : MxSession) (action : List UInt8 × Outside AttestKey Mote Attestation) :
    Option Str :=
  let (verb, rest) := parseCommand texts (texts.fromUtf8Lossy action.1)
  if s.phase = .command ∧ verb = ['R', 'C', 'P', 'T'] then
    (rcptAddress texts rest).filter fun addr => (rcptAcceptable texts gw action.2 addr).isNone
  else none

/-- A recipient that gets accepted is the one already held, if one is held. -/
def OneRecipient (s : MxSession) (action : List UInt8 × Outside AttestKey Mote Attestation) :
    Prop :=
  ∀ addr ∈ namedRecipient texts gw s action, ∀ held ∈ s.rcptTo, held = addr

end Condition

variable {AttestKey Mote Attestation : Type} {texts : Texts} {gw : InboundGateway AttestKey}
  {peerIp : Str} {now : Nat} {out : Outside AttestKey Mote Attestation}

/-- The ways in which a line changes the recipient and the history. -/
inductive Moved (s s' : MxSession) (named : Option Str) : Prop where
  | quiet : s'.rcptTo = s.rcptTo → s'.history = s.history → Moved s s' named
  | mail (addr : Str) :
      s'.rcptTo = s.rcptTo → s'.history = .mail addr :: s.history → Moved s s' named
  | rcpt (addr : Str) : addr ∈ named →
      s'.rcptTo = some addr → s'.history = .rcpt addr :: s.history → Moved s s' named
  | rset : s'.history = .rset :: s.history → Moved s s' named
  | refused (reply : SmtpReply) : reply.code ≠ 250 →
      s'.history = .ended s.data reply :: s.history → Moved s s' named
  | delivered (outcome : DeliveryOutcome) (reply : SmtpReply) :
      (reply.code = 250 → outcome = .acked) →
      s'.history =
        .ended s.data reply :: .delivered ⟨s.rcptTo.getD [], s.data, outcome⟩ :: s.history →
      Moved s s' named

theorem dkimGate_code (h : dkimGate gw verdict = some reply) : reply.code ≠ 250 := by
  unfold dkimGate at h
  split at h
  · cases h
  split at h
  · cases h; decide
  · cases h

theorem dmarcGate_code {data : List UInt8} {spf : Option SpfOutcome} {verdict : DkimVerdict}
    {mailFrom : Str} {reply : SmtpReply}
    (h : dmarcGate texts gw out data spf verdict mailFrom = some reply) : reply.code ≠ 250 := by
  unfold dmarcGate at h
  split at h
  · cases h
  split at h
  · cases h; decide
  · cases h

theorem acceptMessageWithSpf_cases {mailFrom rcptTo : Str} {data : List UInt8} {now : Nat}
    {spf : Option SpfOutcome} {reply : SmtpReply} {delivery : Option Delivery}
    (h : acceptMessageWithSpf texts gw out mailFrom rcptTo data now spf = (reply, delivery)) :
    (delivery = none ∧ reply.code ≠ 250) ∨
      ∃ outcome, delivery = some ⟨rcptTo, data, outcome⟩ ∧
        (reply.code = 250 → outcome = .acked) := by
  unfold acceptMessageWithSpf at h
  dsimp only at h
  split at h
  · rename_i refusal hgt
    cases h
    exact .inl ⟨rfl, dkimGate_code hgt⟩
  split at h
  · rename_i refusal hgt
    cases h
    exact .inl ⟨rfl, dmarcGate_code hgt⟩
  split at h
  · cases h; exact .inl ⟨rfl, by decide⟩
  · cases h; exact .inl ⟨rfl, by decide⟩
  · cases h; exact .inl ⟨rfl, by decide⟩
  · cases h; exact .inl ⟨rfl, by decide⟩
  · split at h
    · cases h; exact .inr ⟨.acked, rfl, fun _ => rfl⟩
    · cases h; exact .inr ⟨.noAck, rfl, fun hcd => absurd hcd (by decide)⟩

section

variable (s : MxSession)

theorem moved_mail :
    Moved s (cmdMail texts gw peerIp out s rest).1 named := by
  unfold cmdMail
  split
  · exact .quiet rfl rfl
  dsimp only
  split
  · exact .quiet rfl rfl
  split
  · exact .quiet rfl rfl
  · exact .mail _ rfl rfl

theorem moved_rcpt :
    Moved s (cmdRcpt texts gw out s rest).1
      ((rcptAddress texts rest).filter fun addr => (rcptAcceptable texts gw out addr).isNone) := by
  unfold cmdRcpt
  split
  · exact .quiet rfl rfl
  split
  · exact .quiet rfl rfl
  rename_i addr had
  split
  · exact .quiet rfl rfl
  rename_i hacc
  refine .rcpt addr ?_ rfl rfl
  rw [had]
  exact Option.mem_filter_iff.mpr ⟨rfl, by simp [hacc]⟩

theorem moved_data : Moved s (cmdData s).1 named := by
  unfold cmdData
  split <;> exact .quiet rfl rfl

theorem moved_endData : Moved s (endData texts gw out s).1 named := by
  unfold endData
  split
  · exact .refused _ (by decide) rfl
  split
  · rename_i reply hacc
    rcases acceptMessageWithSpf_cases hacc with ⟨_, hcd⟩ | ⟨outcome, hsm, _⟩
    · exact .refused reply hcd rfl
    · cases hsm
  · rename_i reply delivery hacc
    rcases acceptMessageWithSpf_cases hacc with ⟨hno, _⟩ | ⟨outcome, hsm, hac⟩
    · cases hno
    · cases hsm
      exact .delivered outcome reply hac rfl

theorem moved_feedData :
    Moved s (feedData texts gw out s line).1 named := by
  unfold feedData
  split
  · exact moved_endData s
  dsimp only
  split
  · exact .quiet rfl rfl
  split <;> exact .quiet rfl rfl

theorem moved_feedLine :
    Moved s (feedLine texts gw peerIp out s line).1 (namedRecipient texts gw s (line, out)) := by
  unfold feedLine
  split
  · exact moved_feedData s
  rename_i hph
  unfold command namedRecipient
  dsimp only
  split
  · exact .quiet rfl rfl
  split
  · exact moved_mail s
  split
  · rename_i hvr
    rw [if_pos ⟨hph, hvr⟩]
    exact moved_rcpt s
  split
  · exact moved_data s
  split
  · exact .rset rfl
  split
  · exact .quiet rfl rfl
  split <;> exact .quiet rfl rfl

end

structure Holding (s : MxSession) : Prop where
  /-- A recipient accepted in the transaction is the one that is held. -/
  held : ∀ r, .rcpt r ∈ transaction s.history → s.rcptTo = some r
  kept : History.Each Kept s.history

theorem kept_of_ne (h : ∀ data reply, event ≠ .ended data reply) : Kept event older :=
  fun data reply heq => absurd heq (h data reply)

theorem holding_moved {s s' : MxSession} {named : Option Str} (hs : Holding s)
    (hone : ∀ addr ∈ named, ∀ held ∈ s.rcptTo, held = addr) (h : Moved s s' named) :
    Holding s' := by
  cases h with
  | quiet hrc hhs =>
    refine ⟨fun r hr => ?_, hhs ▸ hs.kept⟩
    rw [hhs] at hr
    rw [hrc]
    exact hs.held r hr
  | mail addr hrc hhs =>
    refine ⟨fun r hr => ?_, ?_⟩
    · rw [hhs, transaction_cons rfl] at hr
      rw [hrc]
      exact hs.held r (History.mem_of_cons_ne (by simp) hr)
    · rw [hhs]
      exact ⟨kept_of_ne (by simp), hs.kept⟩
  | rcpt addr hnm hrc hhs =>
    refine ⟨fun r hr => ?_, ?_⟩
    · rw [hhs, transaction_cons rfl] at hr
      rw [hrc]
      rcases List.mem_cons.mp hr with heq | hr
      · cases heq; rfl
      -- an older recipient is held, so the new one names it again
      · exact congrArg some (hone addr hnm r (hs.held r hr)).symm
    · rw [hhs]
      exact ⟨kept_of_ne (by simp), hs.kept⟩
  | rset hhs =>
    refine ⟨fun r hr => ?_, ?_⟩
    · rw [hhs, transaction_clear rfl] at hr
      cases hr
    · rw [hhs]
      exact ⟨kept_of_ne (by simp), hs.kept⟩
  | refused reply hcd hhs =>
    refine ⟨fun r hr => ?_, ?_⟩
    · rw [hhs, transaction_clear rfl] at hr
      cases hr
    rw [hhs]
    refine ⟨fun data reply' heq hok => ?_, hs.kept⟩
    cases heq
    exact absurd hok hcd
  | delivered outcome reply hac hhs =>
    refine ⟨fun r hr => ?_, ?_⟩
    · rw [hhs, transaction_clear rfl] at hr
      cases hr
    rw [hhs]
    refine ⟨fun data reply' heq hok r hr => ?_, kept_of_ne (by simp), hs.kept⟩
    cases heq
    rw [transaction_cons rfl] at hr ⊢
    have hhl := hs.held r (History.mem_of_cons_ne (by simp) hr)
    rw [hhl, hac hok]
    exact .head _

theorem holding_new : Holding (.new now) :=
  ⟨nofun, trivial⟩

/-- **No accepted recipient is lost**, in the runs in which no accepted recipient replaces
another one. -/
theorem accepted_recipients_kept {AttestKey Mote Attestation : Type} (texts : Texts)
    (gw : InboundGateway AttestKey) (peerIp : Str) (now : Nat) (s : MxSession)
    (h : (session Mote Attestation texts gw peerIp now).Reachable (OneRecipient texts gw) s) :
    History.Each Kept s.history := by
  have hhl : Holding s := by
    refine h.invariant (fun t ht => ht ▸ holding_new) (fun t action t' ht hone hst => ?_)
    injection hst with hst
    exact hst ▸ holding_moved ht hone (moved_feedLine t)
  exact hhl.kept

def isBlank (c : Char) : Bool := c == ' ' || c == '\t'

def asciiTexts : Texts where
  fromUtf8Lossy := fun bytes => bytes.map fun b => Char.ofNat b.toNat
  trim := fun s => ((s.dropWhile isBlank).reverse.dropWhile isBlank).reverse
  parseIp := fun _ => none

def ascii (s : Str) : List UInt8 := s.map fun c => UInt8.ofNat c.toNat

def plainGateway : InboundGateway Unit :=
  ⟨[(['x'], ())], false, .annotate, false, .annotate, false, .annotate, 100⟩

def ackingOutside : Outside Unit (List UInt8 × List UInt8) Unit where
  abuse := fun _ _ => .accept
  spf := fun _ _ _ => .unevaluated
  dkim := fun _ => .noSignature
  headerFrom := fun _ => .unusable
  dmarc := fun _ _ _ _ => .noPolicy
  resolve := fun addr => some ⟨ascii addr, ascii addr⟩
  buildMote := fun recip data _ => some (recip.sealPub, data)
  attest := fun _ _ _ _ _ => ()
  deliver := fun _ _ => .acked

def plainSession : System MxSession (List UInt8 × Outside Unit (List UInt8 × List UInt8) Unit) :=
  session (List UInt8 × List UInt8) Unit asciiTexts plainGateway [] 0

def mailLine : Str := ['M', 'A', 'I', 'L', ' ', 'F', 'R', 'O', 'M', ':', '<', 's', '@', 'y', '>']

def rcptLine (user : Char) : Str :=
  ['R', 'C', 'P', 'T', ' ', 'T', 'O', ':', '<', user, '@', 'x', '>']

def lines (rcpts : List Char) : List (List UInt8 × Outside Unit (List UInt8 × List UInt8) Unit) :=
  ([mailLine] ++ rcpts.map rcptLine ++ [['D', 'A', 'T', 'A'], ['h', 'i'], ['.']]).map
    fun line => (ascii line, ackingOutside)

def body : List UInt8 := [104, 105, 13, 10]

def recorded (rcpts : List Char) (last : Char) : List MxEvent :=
  [.ended body ⟨250, "2.6.0 message durably accepted"⟩,
    .delivered ⟨[last, '@', 'x'], body, .acked⟩] ++
    (rcpts.reverse.map fun user => .rcpt [user, '@', 'x']) ++ [.mail ['<', 's', '@', 'y', '>']]

/-- A message for one recipient, named twice: the run meets the condition and ends with a
250 and the ack it stands for. -/
theorem one_recipient_kept :
    ∃ s, plainSession.Reachable (OneRecipient asciiTexts plainGateway) s ∧
      s.history = recorded ['a', 'a'] 'a' ∧ History.Each Kept s.history := by
  have hin : plainSession.Reachable (OneRecipient asciiTexts plainGateway) (.new 0) := .init rfl
  obtain ⟨s, hrch, hhs⟩ := hin.exists_of_run
    (fun s action => (namedRecipient asciiTexts plainGateway s action).all fun addr =>
      s.rcptTo.all (· == addr))
    (lines ['a', 'a']) (fun s => s.history == recorded ['a', 'a'] 'a')
    (fun s action hchk addr had held hhl => by
      rw [Option.mem_def.mp had, Option.mem_def.mp hhl] at hchk
      simpa using hchk)
    (by decide)
  exact ⟨s, hrch, by simpa using hhs, accepted_recipients_kept _ _ _ _ s hrch⟩

/-- **An accepted recipient is lost.** Both recipients and the message are answered 250, and
only the second recipient's message was delivered. -/
theorem first_recipient_lost :
    ∃ s, plainSession.Reachable (fun _ _ => True) s ∧ s.history = recorded ['a', 'b'] 'b' ∧
      ¬ History.Each Kept s.history := by
  have hin : plainSession.Reachable (fun _ _ => True) (.new 0) := .init rfl
  obtain ⟨s, hrch, hrec⟩ := hin.exists_after (lines ['a', 'b'])
    (·.history = recorded ['a', 'b'] 'b') (by decide)
  refine ⟨s, hrch, hrec, fun hkp => ?_⟩
  rw [hrec] at hkp
  have hls := hkp.1 body _ rfl rfl ['a', '@', 'x'] (by decide)
  exact absurd hls (by decide)

end VulosRelay.Gateway
