import VulosRelay.Gateway.ColdSender
import VulosRelay.Lib.Utf8

/-!
# One sender, however the command is spelled

A `MAIL FROM` command may give its address in angle brackets or bare, in any letter case,
with white space around it and with ESMTP parameters behind it. The session takes what
stands after the keyword, trims it, and passes that one text on: to the gate, to SPF, and
as the sender to DMARC and to the attestation. Nothing takes the brackets or the parameters
off before the gate compares the text with the addresses it was configured with.

So the sender is the bare address exactly for the bare spelling without parameters, and for
a keyword in mixed case, which is refused as a syntax error before anything is asked.
-/

namespace VulosRelay.Gateway

open List ColdSenderGate

/-- **A `MAIL FROM` line**: its parts, as a client may spell them. -/
structure MailLine where
  verb : Str
  verb_mail : toAsciiUppercase verb = "MAIL".toList
  gap : Str
  gap_space : ∀ c ∈ gap, isWhitespace c = true
  keyword : Str
  keyword_from : toAsciiUppercase keyword = "FROM:".toList
  space : Str
  space_space : ∀ c ∈ space, isWhitespace c = true
  bracketed : Bool
  addr : Str
  addr_word : ∀ c ∈ addr, isWhitespace c = false ∧ c ≠ '<' ∧ c ≠ '>'
  bare_nonempty : bracketed = false → addr ≠ []
  params : List Str
  params_word : ∀ p ∈ params, p ≠ [] ∧ ∀ c ∈ p, isWhitespace c = false
  trailing : Str
  trailing_space : ∀ c ∈ trailing, isWhitespace c = true

namespace MailLine

def path (m : MailLine) : Str := if m.bracketed then '<' :: m.addr ++ ['>'] else m.addr

def argument (m : MailLine) : Str := m.path ++ m.params.flatMap fun p => ' ' :: p

def text (m : MailLine) : Str :=
  m.verb ++ ' ' :: (m.gap ++ (m.keyword ++ (m.space ++ m.argument)) ++ m.trailing)

section

variable (m : MailLine)

theorem path_startsSolid : StartsSolid m.path := by
  rw [path]
  split
  · exact ⟨'<', m.addr ++ ['>'], rfl, by decide⟩
  rename_i hbr
  exact startsSolid_of_word (m.bare_nonempty (by simpa using hbr))
    fun c hc => (m.addr_word c hc).1

theorem path_endsSolid : EndsSolid m.path := by
  rw [path]
  split
  · exact ⟨'<' :: m.addr, '>', rfl, by decide⟩
  rename_i hbr
  exact endsSolid_of_word (m.bare_nonempty (by simpa using hbr))
    fun c hc => (m.addr_word c hc).1

theorem argument_startsSolid : StartsSolid m.argument :=
  m.path_startsSolid.append _

theorem argument_endsSolid : EndsSolid m.argument := by
  rw [argument]
  rcases eq_nil_or_concat m.params with hno | ⟨start, p, hsm⟩
  · rw [hno, flatMap_nil, append_nil]
    exact m.path_endsSolid
  have hp := m.params_word p (by rw [hsm]; simp)
  rw [hsm, concat_eq_append, flatMap_append, ← append_assoc, flatMap_cons, flatMap_nil, append_nil]
  exact ((endsSolid_of_word hp.1 hp.2).append [' ']).append _

/-- **The argument is the bare address only in the bare spelling without parameters.** -/
theorem argument_eq_addr_iff : m.argument = m.addr ↔ m.bracketed = false ∧ m.params = [] := by
  rw [argument, path]
  cases hbr : m.bracketed with
  | true =>
    refine ⟨fun h => ?_, fun h => absurd h.1 (by simp)⟩
    have hmem : '<' ∈ m.addr := by rw [← h]; simp
    exact absurd rfl (m.addr_word '<' hmem).2.1
  | false =>
    cases hpr : m.params with
    | nil => simp
    | cons p params =>
      refine ⟨fun h => ?_, fun h => absurd h.2 (by simp)⟩
      have hmem : ' ' ∈ m.addr := by rw [← h]; simp
      exact absurd (m.addr_word ' ' hmem).1 (by decide)

theorem keyword_word : ∀ c ∈ m.keyword, isWhitespace c = false :=
  word_of_upper m.keyword_from (List.all_iff_forall_prop.mp (by decide))

theorem keyword_length : m.keyword.length = 5 := by
  have h := congrArg length m.keyword_from
  rw [toAsciiUppercase, length_map] at h
  exact h

theorem trim_rest :
    trim (m.gap ++ (m.keyword ++ (m.space ++ m.argument)) ++ m.trailing)
      = m.keyword ++ (m.space ++ m.argument) := by
  have hne : m.keyword ≠ [] := fun h => by
    have := m.keyword_length
    rw [h] at this
    cases this
  exact trim_around m.gap_space ((startsSolid_of_word hne m.keyword_word).append _)
    ((m.argument_endsSolid.append _).append _) m.trailing_space

end

def rustTexts (parseIp : Str → Option Ip.IP) : Texts := ⟨Utf8.decodeLossy, trim, parseIp⟩

def plainKeyword (m : MailLine) : Bool :=
  m.keyword == "FROM:".toList || m.keyword == "from:".toList

theorem afterKeyword_rest (m : MailLine) :
    MxSession.afterKeyword ['F', 'R', 'O', 'M', ':'] ['f', 'r', 'o', 'm', ':']
        (m.keyword ++ (m.space ++ m.argument))
      = if m.plainKeyword then some (m.space ++ m.argument) else none := by
  have hup : ['F', 'R', 'O', 'M', ':'].length = m.keyword.length := m.keyword_length.symm
  have hlw : ['f', 'r', 'o', 'm', ':'].length = m.keyword.length := m.keyword_length.symm
  rw [MxSession.afterKeyword, stripPrefix_append hup, stripPrefix_append hlw, plainKeyword]
  by_cases hfr : m.keyword = "FROM:".toList
  · rw [hfr]
    rfl
  rw [if_neg fun h => hfr h.symm, beq_eq_false_iff_ne.mpr hfr, Bool.false_or]
  by_cases hfr' : m.keyword = "from:".toList
  · rw [hfr']
    rfl
  · rw [if_neg fun h => hfr' h.symm, beq_eq_false_iff_ne.mpr hfr']
    rfl

end MailLine

open MxSession ColdSenderGate

variable {AttestKey Mote Attestation : Type}

def withSender (texts : Texts) (gw : InboundGateway AttestKey) (peerIp : Str)
    (out : Outside AttestKey Mote Attestation) (s : MxSession) (addr : Str) :
    MxSession × SmtpReply :=
  match out.abuse peerIp addr with
  | .reject code reason => (s, ⟨code, reason⟩)
  | .accept =>
    let outcome := evaluateSpf texts gw out peerIp addr s.helo
    match spfGate gw outcome with
    | some reply => (s, reply)
    | none =>
      ({ s with mailFrom := some addr, spfOutcome := some outcome }.record (.mail addr),
        ⟨250, "2.1.0 sender ok"⟩)

def mailSyntaxError : SmtpReply := ⟨501, "5.5.4 syntax: MAIL FROM:<address>"⟩

theorem feedLine_mail {m : MailLine} (parseIp : Str → Option Ip.IP) (gw : InboundGateway AttestKey)
    (peerIp : Str) (out : Outside AttestKey Mote Attestation) (s : MxSession)
    (hph : s.phase = .command) (hby : Utf8.decodeLossy bytes = m.text) :
    feedLine (MailLine.rustTexts parseIp) gw peerIp out s bytes
      = if m.plainKeyword then
          withSender (MailLine.rustTexts parseIp) gw peerIp out s m.argument
        else (s, mailSyntaxError) := by
  have hvr : ' ' ∉ m.verb := fun hmem =>
    absurd (word_of_upper m.verb_mail (List.all_iff_forall_prop.mp (by decide)) ' ' hmem)
      (by decide)
  have hpr : parseCommand (MailLine.rustTexts parseIp) m.text
      = ("MAIL".toList, m.keyword ++ (m.space ++ m.argument)) := by
    rw [parseCommand, MailLine.text, splitOnce_append hvr]
    exact Prod.ext m.verb_mail m.trim_rest
  have hcm : feedLine (MailLine.rustTexts parseIp) gw peerIp out s bytes
      = cmdMail (MailLine.rustTexts parseIp) gw peerIp out s
          (m.keyword ++ (m.space ++ m.argument)) := by
    rw [feedLine, hph]
    show command _ gw peerIp out s (Utf8.decodeLossy bytes) = _
    rw [hby, command, hpr]
    rfl
  rw [hcm, cmdMail, m.afterKeyword_rest]
  cases m.plainKeyword with
  | true =>
    have htr := @trim_around m.space m.argument [] m.space_space m.argument_startsSolid
      m.argument_endsSolid (by simp)
    rw [append_nil] at htr
    rw [if_pos rfl, if_pos rfl]
    dsimp only
    rw [show (MailLine.rustTexts parseIp).trim (m.space ++ m.argument) = m.argument from htr]
    rfl
  | false => rfl

/-- The gate's deferrals of a cold sender. -/
def Greylisted (reply : SmtpReply) : Prop :=
  reply.text = ColdSenderGate.greylistedText ∨ reply.text = ColdSenderGate.tooSoonText

/-- **One sender identity**: the line is refused as a syntax error, or it is treated as the
bare address is, whatever the gate, SPF and the rest of the outside answer. So a sender that
is configured as blocked is not accepted, and one that is configured as known is not
greylisted. -/
def OneSender (m : MailLine) : Prop :=
  ∀ (AttestKey Mote Attestation : Type) (parseIp : Str → Option Ip.IP)
    (gw : InboundGateway AttestKey) (peerIp : Str) (out : Outside AttestKey Mote Attestation)
    (s : MxSession) (bytes : List UInt8), s.phase = .command →
    Utf8.decodeLossy bytes = m.text →
    let r := feedLine (MailLine.rustTexts parseIp) gw peerIp out s bytes
    (r = (s, mailSyntaxError) ∨
      r = withSender (MailLine.rustTexts parseIp) gw peerIp out s m.addr) ∧
    ∀ (gate : ColdSenderGate) (now : Nat) (state : GateState),
      (out.abuse = fun ip mailFrom => (gate.check now state ip mailFrom).1) →
      (gate.blockedSenders.contains (toAsciiLowercase m.addr) = true → r.2.code ≠ 250) ∧
      (gate.knownSenders.contains (toAsciiLowercase m.addr) = true → ¬ Greylisted r.2)

section Gate
variable {gw : InboundGateway AttestKey} {out : Outside AttestKey Mote Attestation}
  {gate : ColdSenderGate} {now : Nat} {state : GateState} {texts : Texts} {peerIp addr : Str}
  {s : MxSession}

theorem check_blocked (h : gate.isBlocked peerIp addr = true) :
    (gate.check now state peerIp addr).1 = .reject 554 "5.7.1 sender blocked by policy" := by
  rw [check, if_pos h]

theorem check_known (hblk : gate.isBlocked peerIp addr = false)
    (h : gate.isKnown peerIp addr = true) : (gate.check now state peerIp addr).1 = .accept := by
  rw [check, hblk, if_neg Bool.false_ne_true, if_pos h]

theorem withSender_blocked
    (hout : out.abuse = fun ip mailFrom => (gate.check now state ip mailFrom).1)
    (h : gate.isBlocked peerIp addr = true) :
    (withSender texts gw peerIp out s addr).2 = ⟨554, "5.7.1 sender blocked by policy"⟩ := by
  rw [withSender, hout]
  dsimp only
  rw [check_blocked h]

theorem spfGate_not_greylisted (h : spfGate gw outcome = some reply) : ¬ Greylisted reply := by
  rw [spfGate] at h
  split at h
  · cases h
  split at h <;> cases h <;> simp [Greylisted, greylistedText, tooSoonText]

theorem withSender_known
    (hout : out.abuse = fun ip mailFrom => (gate.check now state ip mailFrom).1)
    (h : gate.isKnown peerIp addr = true) :
    ¬ Greylisted (withSender texts gw peerIp out s addr).2 := by
  cases hblk : gate.isBlocked peerIp addr with
  | true =>
    rw [withSender_blocked hout hblk]
    simp [Greylisted, greylistedText, tooSoonText]
  | false =>
    rw [withSender, hout]
    dsimp only
    rw [check_known hblk h]
    dsimp only
    split
    · rename_i reply hrp
      exact spfGate_not_greylisted hrp
    · simp [Greylisted, greylistedText, tooSoonText]

end Gate

def acceptingOutside : Outside Unit Unit Unit where
  abuse := fun _ _ => .accept
  spf := fun _ _ _ => .unevaluated
  dkim := fun _ => .noSignature
  headerFrom := fun _ => .unusable
  dmarc := fun _ _ _ _ => .noPolicy
  resolve := fun _ => none
  buildMote := fun _ _ _ => none
  attest := fun _ _ _ _ _ => ()
  deliver := fun _ _ => .noAck

def annotatingGateway : InboundGateway Unit where
  attestKeys := []
  dkimResolver := false
  dkimPolicy := .annotate
  spfResolver := false
  spfPolicy := .annotate
  dmarcResolver := false
  dmarcPolicy := .annotate
  maxMessageBytes := 1000

/-- **There is one sender identity exactly for the bare spelling without parameters**, and
for a keyword in mixed case, which is refused. -/
theorem oneSender_iff (m : MailLine) :
    OneSender m ↔ m.plainKeyword = false ∨ (m.bracketed = false ∧ m.params = []) := by
  constructor
  · intro h
    cases hky : m.plainKeyword with
    | false => exact .inl rfl
    | true =>
      -- where everything is accepted, the session keeps the sender that it has seen
      have hln := feedLine_mail (fun _ => none) annotatingGateway [] acceptingOutside (.new 0)
        rfl (Utf8.decodeLossy_encode m.text)
      rw [hky, if_pos rfl] at hln
      have hone := (h Unit Unit Unit (fun _ => none) annotatingGateway [] acceptingOutside
        (.new 0) (Utf8.encode m.text) rfl (Utf8.decodeLossy_encode m.text)).1
      rw [hln] at hone
      refine .inr (m.argument_eq_addr_iff.mp ?_)
      rcases hone with href | hbr
      · have hcd : 250 = 501 := congrArg (fun r => r.2.code) href
        cases hcd
      · exact Option.some.inj (congrArg (fun r => r.1.mailFrom) hbr)
  · intro hcn AttestKey Mote Attestation parseIp gw peerIp out s bytes hph hby
    have hln := feedLine_mail parseIp gw peerIp out s hph hby
    cases hky : m.plainKeyword with
    | false =>
      rw [hky, if_neg Bool.false_ne_true] at hln
      rw [hln]
      refine ⟨.inl rfl, fun gate now state _ => ⟨fun _ => ?_, fun _ => ?_⟩⟩
      · show mailSyntaxError.code ≠ 250
        decide
      · simp [Greylisted, mailSyntaxError, greylistedText, tooSoonText]
    | true =>
      have hbr : m.argument = m.addr := by
        rcases hcn with hmx | hbr
        · rw [hky] at hmx
          cases hmx
        · exact m.argument_eq_addr_iff.mpr hbr
      rw [hky, if_pos rfl, hbr] at hln
      rw [hln]
      refine ⟨.inr rfl, fun gate now state hout => ⟨fun hblk => ?_, fun hkn => ?_⟩⟩
      · rw [withSender_blocked hout (by rw [isBlocked, hblk, Bool.or_true])]
        decide
      · exact withSender_known hout (by rw [isKnown, hkn, Bool.or_true])

def bracketedLine : MailLine where
  verb := "MAIL".toList
  verb_mail := by decide
  gap := []
  gap_space := nofun
  keyword := "FROM:".toList
  keyword_from := by decide
  space := []
  space_space := nofun
  bracketed := true
  addr := "spam@x".toList
  addr_word := List.all_iff_forall_prop.mp (by decide)
  bare_nonempty := by decide
  params := ["SIZE=9".toList]
  params_word := by simp only [← List.all_iff_forall_prop]; decide
  trailing := []
  trailing_space := nofun

def blockingGate : ColdSenderGate := ColdSenderGate.blockSender {} "spam@x".toList

def greylistedBefore : GateState :=
  ⟨fun key => if key.2 = "<spam@x> SIZE=9".toList then some 0 else none, fun _ => []⟩

theorem bracketed_not_one_sender :
    ¬ OneSender bracketedLine ∧
      domainOf (MailLine.rustTexts fun _ => none) bracketedLine.argument
        = some "x> SIZE=9".toList := by
  refine ⟨fun h => ?_, by decide⟩
  have hgt := (h Unit Unit Unit (fun _ => none) annotatingGateway "198.51.100.7".toList
    { acceptingOutside with
      abuse := fun ip mailFrom => (blockingGate.check 60000 greylistedBefore ip mailFrom).1 }
    (.new 0) (Utf8.encode bracketedLine.text) rfl (Utf8.decodeLossy_encode _)).2
    blockingGate 60000 greylistedBefore rfl
  exact absurd (hgt.1 (by decide)) (by decide)

end VulosRelay.Gateway
