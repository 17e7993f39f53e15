import VulosRelay.Gateway.OutboundTcp

/-!
# No mail in the clear

What the SMTP client writes before TLS is up. The dialogue has two halves. `establish`
writes only `EHLO` and `STARTTLS`, whatever the destination answers, and where it succeeds
it leaves either a stream that was upgraded, with the capabilities read through it, or a
plain one to a destination that did not advertise `STARTTLS`. `submit` writes everything
else, to the stream it is given.

`Emits` is the rule for both: what a part of the dialogue adds to what was written, from
every state of the stream that it may start in. It is closed under sequencing, so each half
is gone through once.
-/

namespace VulosRelay.Gateway.OutboundTcp

open List Conn
open Outbound (TransportResult)

variable {conn conn' : Conn} {transport : SmtpTcpTransport} {requireTls : Bool} {remote : Remote}

theorem bind_eq_ok {α β : Type} {m : Smtp α} {k : α → Smtp β} {b : β} :
    (m >>= k) conn = (.ok b, conn') ↔
      ∃ a c, m conn = (.ok a, c) ∧ k a c = (.ok b, conn') := by
  dsimp only [bind]
  rcases m conn with ⟨a | e, c⟩ <;> simp

/-- Started on a stream of a kind in `I`, the part ends on one, and all that it writes is
in `Q`. -/
def Emits {α : Type} (I : Bool → Prop) (Q : Written → Prop) (m : Smtp α) : Prop :=
  ∀ conn, I conn.secure →
    I (m conn).2.secure ∧ ∃ ws, (m conn).2.written = conn.written ++ ws ∧ ∀ w ∈ ws, Q w

section Rules
variable {α β : Type} {I : Bool → Prop} {Q : Written → Prop}

theorem Emits.silent {m : Smtp α} (hsec : ∀ conn, (m conn).2.secure = conn.secure)
    (hwr : ∀ conn, (m conn).2.written = conn.written) : Emits I Q m := by
  intro conn hI
  refine ⟨by rw [hsec]; exact hI, [], by rw [hwr, append_nil], ?_⟩
  intro w hw
  cases hw

theorem Emits.pure (a : α) : Emits I Q (pure a : Smtp α) :=
  .silent (fun _ => rfl) (fun _ => rfl)

theorem Emits.abort (e : TransportAbort) : Emits I Q (abort e : Smtp α) :=
  .silent (fun _ => rfl) (fun _ => rfl)

theorem Emits.ofExcept (r : Except TransportAbort α) : Emits I Q (ofExcept r) :=
  .silent (fun _ => rfl) (fun _ => rfl)

theorem Emits.receiveReply : Emits I Q receiveReply :=
  .silent (fun _ => rfl) (fun _ => rfl)

theorem Emits.receiveEhlo : Emits I Q receiveEhlo :=
  .silent (fun _ => rfl) (fun _ => rfl)

theorem Emits.expect2xx (reply : Nat × Str) : Emits I Q (expect2xx reply) := by
  rw [OutboundTcp.expect2xx]
  split
  · exact .pure ()
  split <;> exact .abort _

theorem Emits.bind (hm : Emits I Q m) (hk : ∀ a, Emits I Q (k a)) : Emits I Q (m >>= k) := by
  intro conn hI
  obtain ⟨hI', ws, hws, hQ⟩ := hm conn hI
  dsimp only [Bind.bind]
  cases hrun : m conn with
  | mk r c =>
    rw [hrun] at hI' hws
    cases r with
    | error e => exact ⟨hI', ws, hws, hQ⟩
    | ok a =>
      obtain ⟨hI'', ws', hws', hQ'⟩ := hk a c hI'
      refine ⟨hI'', ws ++ ws', ?_, ?_⟩
      · dsimp only
        rw [hws', hws, append_assoc]
      intro w hw
      rcases mem_append.mp hw with hw | hw
      · exact hQ w hw
      · exact hQ' w hw

theorem Emits.ite [Decidable c] (h : Emits I Q m) (h' : Emits I Q m') :
    Emits I Q (if c then m else m') := by
  split
  · exact h
  · exact h'

theorem Emits.writeAll (h : ∀ secure bytes, I secure → Q ⟨secure, part, bytes⟩) :
    Emits I Q (writeAll part bytes) := by
  intro conn hI
  rw [OutboundTcp.writeAll]
  split
  all_goals
    exact ⟨hI, [⟨conn.secure, part, _⟩], rfl, fun w hw => by
      rw [mem_singleton.mp hw]; exact h _ _ hI⟩

theorem Emits.ignored (h : Emits I Q m) (b : β) :
    Emits I Q (fun conn => (.ok b, (m conn).2)) := h

end Rules

def Part.opens : Part → Bool
  | .ehlo => true
  | .starttls => true
  | _ => false

theorem writeAll_opens (h : part.opens = true) :
    Emits (fun _ => True) (·.part.opens = true) (writeAll part bytes) :=
  .writeAll fun _ _ _ => h

theorem ehlo_opens : Emits (fun _ => True) (·.part.opens = true) (ehlo transport) :=
  (writeAll_opens rfl).bind fun _ => .receiveEhlo

theorem upgrade_opens : Emits (fun _ => True) (·.part.opens = true) upgrade := by
  intro conn _
  refine ⟨trivial, [], ?_, nofun⟩
  rw [upgrade]
  split <;> exact (append_nil _).symm

theorem establish_opens :
    Emits (fun _ => True) (·.part.opens = true) (establish transport requireTls) := by
  refine .bind .receiveReply fun greeting => .bind (.expect2xx greeting) fun _ =>
    .bind (ehlo_opens) fun caps => .ite (.abort _) (.ite ?_ (.pure caps))
  refine .bind (writeAll_opens rfl) fun _ => .bind .receiveReply fun reply =>
    .ite (.abort _) (.bind upgrade_opens fun _ => ehlo_opens)

/-- **From the envelope on, everything is written to the stream that is given.** -/
theorem submit_emits {secure : Bool} :
    Emits (· = secure) (·.secure = secure) (submit destDomain message caps) := by
  have hwr (part : Part) (bytes : List UInt8) :
      Emits (· = secure) (·.secure = secure) (writeAll part bytes) := .writeAll fun _ _ h => h
  refine .bind (.ofExcept _) fun rcptTo => .bind (.ofExcept _) fun params => ?_
  refine .bind (hwr _ _) fun _ => .bind .receiveReply fun r => .bind (.expect2xx r) fun _ => ?_
  refine .bind (hwr _ _) fun _ => .bind .receiveReply fun r => .bind (.expect2xx r) fun _ => ?_
  refine .bind (hwr _ _) fun _ => .bind .receiveReply fun r => .ite (.pure _) ?_
  refine .bind (hwr _ _) fun _ => .bind (.ite (.pure ()) (hwr .message _)) fun _ => ?_
  exact .bind (hwr _ _) fun _ => .bind .receiveReply fun final => .ignored (hwr _ _) _

/-- The reply to the first `EHLO` lists these capabilities, and this follows it. -/
def FirstEhlo (remote : Remote) (caps : List Str) (rest : Lines) : Prop :=
  ∃ greeting rest', readReply (linesOf remote.plain) = (.ok greeting, rest') ∧
    readEhlo rest' = (.ok caps, rest)

/-- **The upgrade**: `STARTTLS` was advertised, accepted, and the handshake completed. -/
def Upgraded (remote : Remote) : Prop :=
  ∃ caps rest reply rest', FirstEhlo remote caps rest ∧
    hasCap caps "STARTTLS".toList = true ∧
    readReply rest = (.ok reply, rest') ∧ is2xx reply.1 = true ∧ remote.handshake = true

theorem writeAll_ok (h : writeAll part bytes conn = (.ok u, conn')) :
    conn'.input = conn.input ∧ conn'.secure = conn.secure ∧ conn'.remote = conn.remote := by
  rw [writeAll] at h
  split at h
  · cases h
  · obtain ⟨-, rfl⟩ := Prod.mk.inj h
    exact ⟨rfl, rfl, rfl⟩

theorem receiveReply_ok (h : receiveReply conn = (.ok reply, conn')) :
    readReply conn.input = (.ok reply, conn'.input) ∧ conn'.secure = conn.secure ∧
      conn'.remote = conn.remote := by
  obtain ⟨hrd, rfl⟩ := Prod.mk.inj h
  exact ⟨Prod.ext hrd rfl, rfl, rfl⟩

theorem expect2xx_ok (h : expect2xx reply conn = (.ok u, conn')) : conn' = conn := by
  rw [expect2xx] at h
  split at h
  · exact (Prod.mk.inj h).2.symm
  split at h <;> cases h

theorem ehlo_ok {caps : List Str} (h : ehlo transport conn = (.ok caps, conn')) :
    readEhlo conn.input = (.ok caps, conn'.input) ∧ conn'.secure = conn.secure ∧
      conn'.remote = conn.remote := by
  obtain ⟨_, c, hwr, hrd⟩ := bind_eq_ok.mp h
  obtain ⟨hin, hsec, hrmt⟩ := writeAll_ok hwr
  obtain ⟨hcp, rfl⟩ := Prod.mk.inj hrd
  exact ⟨Prod.ext (by rw [← hin]; exact hcp) (by rw [← hin]), hsec, hrmt⟩

theorem upgrade_ok (h : upgrade conn = (.ok u, conn')) :
    conn.remote.handshake = true ∧ conn'.secure = true ∧
      conn'.input = linesOf conn.remote.tls := by
  rw [upgrade] at h
  split at h
  · cases h
  obtain ⟨-, rfl⟩ := Prod.mk.inj h
  exact ⟨by simp_all, rfl, rfl⟩

/-- **Where the first half succeeds**, the stream was upgraded and the capabilities were
read through it, or TLS is not required and the destination did not advertise it. -/
theorem establish_ok {caps : List Str}
    (h : establish transport requireTls (start remote) = (.ok caps, conn)) :
    (conn.secure = true ∧ Upgraded remote ∧
        ∃ rest, readEhlo (linesOf remote.tls) = (.ok caps, rest)) ∨
      (conn.secure = false ∧ requireTls = false ∧
        ∃ rest, FirstEhlo remote caps rest ∧ hasCap caps "STARTTLS".toList = false) := by
  obtain ⟨greeting, c₁, hgr, h₁⟩ := bind_eq_ok.mp h
  obtain ⟨_, c₂, hex, h₂⟩ := bind_eq_ok.mp h₁
  obtain ⟨first, c₃, heh, h₃⟩ := bind_eq_ok.mp h₂
  obtain ⟨hrd₁, hsec₁, hrmt₁⟩ := receiveReply_ok hgr
  obtain rfl := expect2xx_ok hex
  obtain ⟨hrd₃, hsec₃, hrmt₃⟩ := ehlo_ok heh
  have hfst : FirstEhlo remote first c₃.input := ⟨greeting, c₂.input, hrd₁, hrd₃⟩
  have hrmt : c₃.remote = remote := hrmt₃.trans hrmt₁
  split at h₃
  · cases h₃
  rename_i hreq
  split at h₃
  · rename_i hoff
    obtain ⟨_, c₄, hwr, h₄⟩ := bind_eq_ok.mp h₃
    obtain ⟨reply, c₅, hrp, h₅⟩ := bind_eq_ok.mp h₄
    obtain ⟨hin₄, -, hrmt₄⟩ := writeAll_ok hwr
    obtain ⟨hrd₅, -, hrmt₅⟩ := receiveReply_ok hrp
    split at h₅
    · cases h₅
    rename_i hcd
    obtain ⟨_, c₆, hup, h₆⟩ := bind_eq_ok.mp h₅
    obtain ⟨hhn, hsec₆, hin₆⟩ := upgrade_ok hup
    obtain ⟨hrd, hsec, -⟩ := ehlo_ok h₆
    have hrmt' : c₅.remote = remote := hrmt₅.trans (hrmt₄.trans hrmt)
    rw [hin₄] at hrd₅
    rw [hin₆, hrmt'] at hrd
    rw [hrmt'] at hhn
    left
    exact ⟨hsec.trans hsec₆,
      ⟨first, c₃.input, reply, c₅.input, hfst, hoff, hrd₅, by simpa using hcd,
        hhn⟩, conn.input, hrd⟩
  · rename_i hoff
    obtain ⟨hcp, rfl⟩ := Prod.mk.inj h₃
    injection hcp with hcp
    subst hcp
    have hnot : hasCap first "STARTTLS".toList = false := by simpa using hoff
    right
    refine ⟨hsec₃.trans hsec₁, ?_, c₃.input, hfst, hnot⟩
    cases requireTls with
    | false => rfl
    | true => exact absurd (by rw [hnot]; rfl) hreq

theorem dial_conn (transport : SmtpTcpTransport) (destDomain : Str) (conn : Conn) :
    (dial transport destDomain conn).2 = conn := by
  rw [dial]
  split <;> rfl

theorem tryRun_cases {requireTls : Bool} :
    (∃ e, tryRun domainToAscii transport destDomain message requireTls (start remote)
        = (.error e, start remote)) ∨
      ∃ ascii, domainToAscii destDomain = .ok ascii ∧
        tryRun domainToAscii transport destDomain message requireTls (start remote)
          = (establish transport requireTls >>= submit ascii message) (start remote) := by
  cases has : domainToAscii destDomain with
  | error e =>
    left
    exact ⟨.permanent 553 ("5.1.2 ".toList ++ e),
      by simp only [tryRun, bind, ofExcept, has, Except.mapError]⟩
  | ok ascii =>
    have hcn := dial_conn transport ascii (start remote)
    have hrun : tryRun domainToAscii transport destDomain message requireTls
        (start remote) = (dial transport ascii >>= fun _ =>
          establish transport requireTls >>= submit ascii message) (start remote) := by
      simp only [tryRun, bind, ofExcept, has, Except.mapError]
    rw [hrun]
    cases hdl : dial transport ascii (start remote) with
    | mk r c =>
      rw [hdl] at hcn
      subst hcn
      cases r with
      | error e =>
        left
        exact ⟨e, by simp only [bind, hdl]⟩
      | ok u =>
        right
        exact ⟨ascii, rfl, by simp only [bind, hdl]⟩

theorem run_conn {requireTls : Bool} :
    (run domainToAscii transport destDomain message requireTls remote).2
      = (tryRun domainToAscii transport destDomain message requireTls (start remote)).2 := by
  rw [run]
  split <;> simp_all

theorem halves_written (hw : w ∈ ((establish transport requireTls >>= submit ascii message)
      (start remote)).2.written) (hpr : w.part.opens = false) :
    ∃ caps conn, establish transport requireTls (start remote) = (.ok caps, conn) ∧
      w.secure = conn.secure := by
  obtain ⟨-, opened, hop, hopn⟩ :=
    establish_opens (start remote) trivial
  have hfst : w ∉ (establish transport requireTls (start remote)).2.written := by
    intro hmem
    rw [hop] at hmem
    have hopen : w.part.opens = true := hopn w (by simpa [start] using hmem)
    rw [hpr] at hopen
    cases hopen
  dsimp only [bind] at hw
  cases hrun : establish transport requireTls (start remote) with
  | mk r conn =>
    rw [hrun] at hw hfst
    cases r with
    | error e => exact absurd hw hfst
    | ok caps =>
      obtain ⟨-, ws, hws, hsec⟩ := submit_emits conn rfl
      rw [hws] at hw
      rcases mem_append.mp hw with hw | hw
      · exact absurd hw hfst
      · exact ⟨caps, conn, rfl, hsec w hw⟩

/-- **No mail in the clear.** Whatever a destination sends, nothing but `EHLO` and
`STARTTLS` is written before the upgrade has completed, unless TLS is not required and the
first `EHLO` reply does not advertise it. And the capabilities that the rest of the attempt
goes by are, after an upgrade, those read through it. -/
theorem no_mail_in_the_clear (domainToAscii : Str → Except Str Str)
    (transport : SmtpTcpTransport) (destDomain : Str) (message : List UInt8)
    (requireTls : Bool) (remote : Remote) :
    (∀ w ∈ (run domainToAscii transport destDomain message requireTls remote).2.written,
      w.part ≠ .ehlo → w.part ≠ .starttls →
      (w.secure = true ∧ Upgraded remote) ∨
        (requireTls = false ∧
          ∃ caps rest, FirstEhlo remote caps rest ∧ hasCap caps "STARTTLS".toList = false)) ∧
    ∀ ascii caps conn, domainToAscii destDomain = .ok ascii →
      (dial transport ascii (start remote)).1 = .ok () →
      establish transport requireTls (start remote) = (.ok caps, conn) →
      tryRun domainToAscii transport destDomain message requireTls (start remote)
          = submit ascii message caps conn ∧
        (conn.secure = true → ∃ rest, readEhlo (linesOf remote.tls) = (.ok caps, rest)) := by
  constructor
  · intro w hw heh hst
    rw [run_conn] at hw
    rcases tryRun_cases with
      ⟨e, he⟩ | ⟨ascii, -, hhl⟩
    · rw [he] at hw
      cases hw
    rw [hhl] at hw
    have hpr : w.part.opens = false := by
      cases hp : w.part with
      | ehlo => exact absurd hp heh
      | starttls => exact absurd hp hst
      | mail | rcpt | data | message | quit => rfl
    obtain ⟨caps, conn, hest, hsec⟩ := halves_written hw hpr
    rcases establish_ok hest with ⟨hs, hup, -⟩ | ⟨-, hreq, rest, hfst, hnot⟩
    · exact .inl ⟨hsec.trans hs, hup⟩
    · exact .inr ⟨hreq, caps, rest, hfst, hnot⟩
  · intro ascii caps conn has hdl hest
    constructor
    · have hcn := dial_conn transport ascii (start remote)
      have hdld : dial transport ascii (start remote) = (.ok (), start remote) :=
        Prod.ext hdl hcn
      simp only [tryRun, bind, ofExcept, has, Except.mapError, hdld, hest]
    · intro hsec
      rcases establish_ok hest with ⟨-, -, hrd⟩ | ⟨hpl, -⟩
      · exact hrd
      · rw [hsec] at hpl
        cases hpl

def arriving (text : String) : List Incoming := text.toList.map fun c => .byte (UInt8.ofNat c.toNat)

def secureRemote : Remote where
  addresses := .ok [.v4 ![192, 0, 2, 1]]
  connect := fun _ => .ok ()
  plain := arriving "220 mx\r\n250-mx\r\n250 STARTTLS\r\n220 go\r\n"
  handshake := true
  tls := arriving "250-mx\r\n250 8BITMIME\r\n250 ok\r\n250 ok\r\n354 go\r\n250 done\r\n"
  faults := []

def sampleMessage : List UInt8 :=
  "From: <a@x>\r\nTo: <b@y>\r\n\r\n".toList.map (fun c => UInt8.ofNat c.toNat) ++ [0xE9, 13, 10]

/-- The message goes out to that destination, and its body with it only because the
capability was advertised through TLS. -/
theorem secureRemote_mail :
    ((run .ok ⟨"gw".toList, none⟩ "y".toList sampleMessage true secureRemote).2.written.map
        fun w => (w.secure, w.part))
      = [(false, .ehlo), (false, .starttls), (true, .ehlo), (true, .mail), (true, .rcpt),
        (true, .data), (true, .message), (true, .message), (true, .quit)] ∧
    ∀ w ∈ (run .ok ⟨"gw".toList, none⟩ "y".toList sampleMessage true secureRemote).2.written,
      w.part ≠ .ehlo → w.part ≠ .starttls → w.secure = true := by
  refine ⟨by decide, fun w hw heh hst => ?_⟩
  rcases (no_mail_in_the_clear .ok ⟨"gw".toList, none⟩ "y".toList sampleMessage true
    secureRemote).1 w hw heh hst with ⟨hsec, -⟩ | ⟨hreq, -⟩
  · exact hsec
  · cases hreq

end VulosRelay.Gateway.OutboundTcp
