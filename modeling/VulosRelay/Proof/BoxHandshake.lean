import VulosRelay.Reachability.Auth

/-!
# What a box has signed for

The adapter verifies a signature over the nonce it has issued on the connection and over the name
that was announced there. So for whatever it accepts the holder of the key has run the handshake
with this nonce for this name. The services stand in the same announcement, but not under the
signature: the attacker writes them as it likes.
-/

namespace VulosRelay.Reachability.Auth

open Gateway (Str)
open List (append_inj mem_cons mem_of_getElem? mem_of_mem_eraseIdx not_mem_nil replicate)

variable {verify : (ik message : List UInt8) → Vector UInt8 64 → Bool} {w w' : Network}

/-- A box with that key has signed that nonce for that name. -/
def Network.Signed (w : Network) (ik : List UInt8) (nonce : Nonce) (registration : Registration) :
    Prop :=
  ∃ s ∈ w.signatures, s.run.ik = ik ∧ s.nonce = nonce ∧ s.run.registration.name = registration.name

/-- **The attacker**: it forges no signature, and the nonces it sees are new. -/
def Bounded (verify : (ik message : List UInt8) → Vector UInt8 64 → Bool) (w : Network) :
    Act → Prop
  | .announce _ nonce => nonce ∉ w.issued
  | .response _ sig => ∀ ik message, verify ik message sig = true →
      ∃ s ∈ w.signatures, s.run.ik = ik ∧
        signingPreimage s.nonce s.run.registration.name = message
  | _ => True

theorem signingPreimage_inj (h : signingPreimage nonce name = signingPreimage nonce' name') :
    nonce = nonce' ∧ name = name' := by
  obtain ⟨hnc, hnm⟩ := append_inj h (by simp)
  refine ⟨Vector.toList_inj.mp hnc, ?_⟩
  rw [← Utf8.decodeLossy_encode name, hnm, Utf8.decodeLossy_encode]

structure Inv (w : Network) : Prop where
  began : ∀ run ∈ w.boxes, run ∈ w.runs
  ran : ∀ s ∈ w.signatures, s.run ∈ w.runs
  signed : ∀ acc ∈ w.accepted, w.Signed acc.authenticatedIk acc.nonce acc.registration

theorem Inv.step (hw : Inv w) (hact : Bounded verify w act) (h : w.step verify act = some w') :
    Inv w' := by
  cases act with
  | box run =>
    cases h
    refine ⟨fun run' hrun => ?_, fun s hs => .tail _ (hw.ran s hs), hw.signed⟩
    rcases mem_cons.mp hrun with rfl | hrun
    · exact .head _
    · exact .tail _ (hw.began _ hrun)
  | challenge i nonce =>
    obtain ⟨run, hrun, rfl⟩ := Option.map_eq_some_iff.mp h
    refine ⟨fun run' hrun' => hw.began _ (mem_of_mem_eraseIdx hrun'), fun s hs => ?_,
      fun acc hacc => ?_⟩
    · rcases mem_cons.mp hs with rfl | hs
      · exact hw.began run (mem_of_getElem? hrun)
      · exact hw.ran s hs
    · obtain ⟨s, hs, hsm⟩ := hw.signed acc hacc
      exact ⟨s, .tail _ hs, hsm⟩
  | announce stream nonce =>
    obtain ⟨announce, -, rfl⟩ := Option.map_eq_some_iff.mp h
    exact ⟨hw.began, hw.ran, hw.signed⟩
  | response i sig =>
    obtain ⟨conn, -, rfl⟩ := Option.map_eq_some_iff.mp h
    dsimp only
    split_ifs with hpn hver
    · refine ⟨hw.began, hw.ran, fun acc hacc => ?_⟩
      rcases mem_cons.mp hacc with rfl | hacc
      · obtain ⟨s, hs, hik, hmsg⟩ := hact _ _ hver
        obtain ⟨hnc, hnm⟩ := signingPreimage_inj hmsg
        exact ⟨s, hs, hik, hnc, hnm⟩
      · exact hw.signed acc hacc
    · exact ⟨hw.began, hw.ran, hw.signed⟩
    · exact ⟨hw.began, hw.ran, hw.signed⟩

theorem reachable_inv (h : (network verify).Reachable (Bounded verify) w) : Inv w :=
  h.invariant (P := Inv)
    (fun w hin => by
      cases hin
      exact ⟨nofun, nofun, nofun⟩)
    fun _ _ _ hw hact hst => hw.step hact hst

/-- **A registration is its owner's**: the holder of the key ran the handshake for it. -/
def Owned (w : Network) (acc : Accepted) : Prop :=
  ∃ run ∈ w.runs, run.ik = acc.authenticatedIk ∧ run.registration = acc.registration

/-- A box has run the handshake with the key and for the name of an announce frame. -/
def Named (runs : List BoxRun) (frame : AuthAnnounce) : Prop :=
  ∃ run ∈ runs, run.ik = frame.claimedIk ∧ run.registration.name = frame.registration.name

/-- A box has run the handshake with the key, for the name and with the services of the frame. -/
def Announced (runs : List BoxRun) (frame : AuthAnnounce) : Prop :=
  ∃ run ∈ runs, run.ik = frame.claimedIk ∧ run.registration = frame.registration

/-- **No frame with the key and the name of a box lists other services**: neither one that the
adapter reads nor, when the box begins, one that it has read before. -/
def ServicesKept (w : Network) : Act → Prop
  | .announce stream _ => ∀ frame, readAnnounce stream = some frame → Named w.runs frame →
      Announced w.runs frame
  | .box run => ∀ conn ∈ w.waiting, Named (run :: w.runs) conn.announce →
      Announced (run :: w.runs) conn.announce
  | _ => True

/-- What the connections that wait have announced, and what the adapter has accepted. -/
structure KeptInv (w : Network) : Prop where
  /-- A frame with the key and the name of a box lists its services. -/
  waiting : ∀ conn ∈ w.waiting, Named w.runs conn.announce → Announced w.runs conn.announce
  /-- Every registration that was accepted is its owner's. -/
  owned : ∀ acc ∈ w.accepted, Owned w acc

theorem KeptInv.step (hw : Inv w) (hk : KeptInv w) (hact : Bounded verify w act)
    (hkept : ServicesKept w act) (h : w.step verify act = some w') : KeptInv w' := by
  cases act with
  | box run =>
    cases h
    refine ⟨hkept, fun acc hacc => ?_⟩
    obtain ⟨run', hrun, hsm⟩ := hk.owned acc hacc
    exact ⟨run', .tail _ hrun, hsm⟩
  | challenge i nonce =>
    obtain ⟨run, -, rfl⟩ := Option.map_eq_some_iff.mp h
    exact ⟨hk.waiting, hk.owned⟩
  | announce stream nonce =>
    obtain ⟨frame, hfr, rfl⟩ := Option.map_eq_some_iff.mp h
    exact ⟨List.forall_mem_cons.mpr ⟨hkept frame hfr, hk.waiting⟩, hk.owned⟩
  | response i sig =>
    obtain ⟨conn, hconn, rfl⟩ := Option.map_eq_some_iff.mp h
    have hwt : ∀ c ∈ w.waiting.eraseIdx i, Named w.runs c.announce → Announced w.runs c.announce :=
      fun c hc => hk.waiting c (mem_of_mem_eraseIdx hc)
    dsimp only
    split_ifs with hpn hver
    · refine ⟨hwt, List.forall_mem_cons.mpr ⟨?_, hk.owned⟩⟩
      -- the signature is that of a run with this key and name, so the frame lists its services
      obtain ⟨s, hs, hik, hmsg⟩ := hact _ _ hver
      exact hk.waiting conn (mem_of_getElem? hconn)
        ⟨s.run, hw.ran s hs, hik, (signingPreimage_inj hmsg).2⟩
    · exact ⟨hwt, hk.owned⟩
    · exact ⟨hwt, hk.owned⟩

/-- **What a box has signed for.** Of a registration that is accepted, key, nonce and name are the
owner's; and in every run in which no announce frame with the key and the name of a box lists other
services, it is the owner's as a whole. -/
theorem accepted_owned (verify : (ik message : List UInt8) → Vector UInt8 64 → Bool)
    (w : Network) :
    ((network verify).Reachable (Bounded verify) w → ∀ acc ∈ w.accepted,
      ∃ run ∈ w.runs, run.ik = acc.authenticatedIk ∧
        run.registration.name = acc.registration.name ∧ ⟨run, acc.nonce⟩ ∈ w.signatures) ∧
    ((network verify).Reachable (fun w act => Bounded verify w act ∧ ServicesKept w act) w →
      ∀ acc ∈ w.accepted, Owned w acc) := by
  refine ⟨fun h acc hacc => ?_, fun h => ?_⟩
  · have hw := reachable_inv h
    obtain ⟨s, hs, hik, hnc, hnm⟩ := hw.signed acc hacc
    refine ⟨s.run, hw.ran s hs, hik, hnm, ?_⟩
    rw [← hnc]
    exact hs
  · refine (h.invariant (P := fun w => Inv w ∧ KeptInv w) (fun w hin => ?_)
      fun w act w' hw hok hst => ⟨hw.1.step hok.1 hst, hw.2.step hw.1 hok.1 hok.2 hst⟩).2.owned
    cases hin
    exact ⟨⟨nofun, nofun, nofun⟩, nofun, nofun⟩

def zeroNonce : Nonce := Vector.replicate 32 0

/-- A box that serves `a` with no service. -/
def quietBox : BoxRun := ⟨replicate 32 0, ⟨['a'], ∅⟩⟩

/-- A scheme in which what the box signs for its nonce verifies, and nothing else. -/
def boxVerify (ik message : List UInt8) (_sig : Vector UInt8 64) : Bool :=
  ik == quietBox.ik && message == signingPreimage zeroNonce ['a']

/-- The announcement of `a` by the key of that box, with services. -/
def announcement (services : List UInt8) : List UInt8 := replicate 32 0 ++ [0, 1, 97] ++ services

def handshaken (r : Registration) : Network where
  nonces := ⟨(insert zeroNonce ∅ : Finset Nonce).erase zeroNonce, [zeroNonce]⟩
  issued := [zeroNonce]
  waiting := []
  boxes := []
  runs := [quietBox]
  signatures := [⟨quietBox, zeroNonce⟩]
  accepted := [⟨r, quietBox.ik, zeroNonce⟩]

/-- The run in which the attacker writes the services, for any further condition on its steps that
binds only the frame. -/
theorem handshaken_reachable {r : Registration} (kept : Network → Act → Prop)
    (services : List UInt8) (hnm : r.name = ['a'])
    (h : readAnnounce (announcement services) = some ⟨quietBox.ik, r⟩)
    (hkept : ∀ w act, (∀ stream nonce, act = .announce stream nonce →
      stream = announcement services ∧ w.runs = [quietBox]) →
      (∀ run, act = .box run → w.waiting = []) → kept w act) :
    (network boxVerify).Reachable (fun w act => Bounded boxVerify w act ∧ kept w act)
      (handshaken r) := by
  have hbox : (network boxVerify).Reachable (fun w act => Bounded boxVerify w act ∧ kept w act)
      ⟨⟨∅, []⟩, [], [], [quietBox], [quietBox], [], []⟩ :=
    .tail (a := .box quietBox) (.init rfl) ⟨trivial, hkept _ _ nofun fun _ _ => rfl⟩ rfl
  have han : (network boxVerify).Reachable (fun w act => Bounded boxVerify w act ∧ kept w act)
      ⟨⟨insert zeroNonce ∅, [zeroNonce]⟩, [zeroNonce], [⟨⟨quietBox.ik, r⟩, zeroNonce⟩], [quietBox],
        [quietBox], [], []⟩ := by
    refine .tail (a := .announce (announcement services) zeroNonce) hbox
      ⟨not_mem_nil, hkept _ _ (fun stream nonce hact => ?_) nofun⟩ ?_
    · cases hact
      exact ⟨rfl, rfl⟩
    · simp only [network, Network.step, h]
      rfl
  have hch : (network boxVerify).Reachable (fun w act => Bounded boxVerify w act ∧ kept w act)
      ⟨⟨insert zeroNonce ∅, [zeroNonce]⟩, [zeroNonce], [⟨⟨quietBox.ik, r⟩, zeroNonce⟩], [],
        [quietBox], [⟨quietBox, zeroNonce⟩], []⟩ :=
    .tail (a := .challenge 0 zeroNonce) han ⟨trivial, hkept _ _ nofun nofun⟩ rfl
  refine .tail (a := .response 0 (Vector.replicate 64 0)) hch
    ⟨fun ik message hver => ?_, hkept _ _ nofun nofun⟩ ?_
  · obtain ⟨hik, hmsg⟩ := Bool.and_eq_true_iff.mp hver
    exact ⟨_, .head _, (eq_of_beq hik).symm, (eq_of_beq hmsg).symm⟩
  · have hver : boxVerify quietBox.ik (signingPreimage zeroNonce r.name)
        (Vector.replicate 64 0) = true := by
      rw [hnm]
      decide
    simp [network, Network.step, hver, handshaken]

theorem servicesKept_quiet (w : Network) (act : Act)
    (hann : ∀ stream nonce, act = .announce stream nonce →
      stream = announcement [0, 0] ∧ w.runs = [quietBox])
    (hbox : ∀ run, act = .box run → w.waiting = []) : ServicesKept w act := by
  cases act with
  | box run =>
    rw [ServicesKept, hbox run rfl]
    exact nofun
  | announce stream nonce =>
    obtain ⟨hst, hrn⟩ := hann stream nonce rfl
    have hrd : readAnnounce (announcement [0, 0]) = some ⟨quietBox.ik, ⟨['a'], ∅⟩⟩ := by decide
    intro frame hfr _
    rw [hst, hrd] at hfr
    cases hfr
    rw [hrn]
    exact ⟨quietBox, .head _, rfl, rfl⟩
  | challenge i nonce | response i sig => trivial

theorem quietBox_owned :
    (network boxVerify).Reachable (fun w act => Bounded boxVerify w act ∧ ServicesKept w act)
        (handshaken ⟨['a'], ∅⟩) ∧
      Owned (handshaken ⟨['a'], ∅⟩) ⟨⟨['a'], ∅⟩, quietBox.ik, zeroNonce⟩ := by
  have hrch := handshaken_reachable (r := ⟨['a'], ∅⟩) ServicesKept [0, 0] rfl (by decide)
    servicesKept_quiet
  exact ⟨hrch, (accepted_owned boxVerify _).2 hrch _ (.head _)⟩

/-- A box that has announced no service is registered with the service `s`. -/
theorem service_added : ∃ w acc, (network boxVerify).Reachable (Bounded boxVerify) w ∧
    acc ∈ w.accepted ∧ ¬ Owned w acc := by
  have hrch := handshaken_reachable (r := ⟨['a'], {['s']}⟩) (fun _ _ => True)
    [0, 1, 0, 1, 115] rfl (by decide) fun _ _ _ _ => trivial
  refine ⟨handshaken ⟨['a'], {['s']}⟩, _, hrch.mono fun _ _ h => h.1, .head _, ?_⟩
  rintro ⟨run, hrun, -, hsm⟩
  cases List.mem_singleton.mp hrun
  exact absurd hsm (by decide)

end VulosRelay.Reachability.Auth
