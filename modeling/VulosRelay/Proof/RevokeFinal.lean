import VulosRelay.Lib.History
import VulosRelay.Proof.GateMoves

/-!
# A revoke is final and a blip is not a revoke

The cache keeps a revoke whatever is stored over it, so a revoke that has been recorded
is found by every later section (`sticky`). In the other direction a decision in the
cache is never worse than what was answered or marked (`seen`, `denied`): an answer that
is an error stores nothing unless it is a revoke. What a call returns is read off the
cache or off the answer it got itself, so it inherits both.
-/

namespace VulosRelay.Server

open History List GateEvent GateState

variable {account : String} {history : List GateEvent} {t : GateThread} {call : GateCall}
  {resp : CPResponse}

/-- Some answer for the account was a revoke or a 404. -/
def RevokeSeen (account : String) (history : List GateEvent) : Prop :=
  ∃ m resp, GateEvent.answered account m resp ∈ history ∧ resp.IsRevoke

/-- Some answer or mark for the account was a definitive deny. -/
def DenySeen (account : String) (history : List GateEvent) : Prop :=
  GateEvent.marked account ∈ history
    ∨ ∃ m resp, GateEvent.answered account m resp ∈ history ∧ resp.IsDeny

/-- What the return of a call says about what came before. -/
structure Returns (older : List GateEvent) (call : GateCall) (account : String) (after : Bool)
    (result : Bool) : Prop where
  /-- With a revoke on record neither function allows anything. -/
  refused : GateEvent.recorded account ∈ older → call ≠ .definitivelyRevoked → result = false
  /-- A call made after the revoke gives the answer of a revoked account. -/
  final : after = true → result = call.onRevoke
  /-- "Definitively revoked" rests on a revoke that was seen, -/
  justified : call = .definitivelyRevoked → result = true → RevokeSeen account older
  /-- and a refusal to continue on a deny. -/
  deserved : call = .allowContinue → result = false → DenySeen account older

def Faithful (e : GateEvent) (older : List GateEvent) : Prop :=
  match e with
  | .returned call account after result => Returns older call account after result
  | _ => True

/-! ## The invariant -/

/-- What is known of a call under way. -/
structure ThreadKnows (cfg : GateConfig) (history : List GateEvent) (t : GateThread) : Prop where
  gated : cfg.enabled = true ∧ t.account ≠ ""
  /-- A call made with a revoke on record gets no further than the first look, or returns. -/
  after : t.after = true → GateEvent.recorded t.account ∈ history
    ∧ (t.call = .definitivelyRevoked → t.pc = .stale)
  /-- An answer that is being worked on is on record. -/
  got : ∀ m resp, t.pc = .got m resp → GateEvent.answered t.account m resp ∈ history
  /-- Only `AllowContinue` gets over an error. -/
  blip : t.pc = .blip → t.call = .allowContinue

/-- **The cache keeps every revoke and holds nothing against an account for no reason.** -/
structure GateInv (cfg : GateConfig) (s : GateState) : Prop where
  /-- A recorded revoke is never taken back, -/
  sticky : ∀ account, GateEvent.recorded account ∈ s.history →
    (s.decision account).revoked = true
  /-- and none is cached that was not seen. -/
  seen : ∀ account, (s.decision account).revoked = true → RevokeSeen account s.history
  /-- A decision that does not allow was answered or marked. -/
  denied : ∀ account d, s.cache.lookup account = some d → d.verdict = false →
    DenySeen account s.history
  proper : ∀ account, GateEvent.recorded account ∈ s.history → cfg.enabled = true ∧ account ≠ ""
  threads : ∀ n t, s.threads.lookup n = some t → ThreadKnows cfg s.history t
  /-- Every return so far was right. -/
  faithful : Each Faithful s.history

variable {cfg : GateConfig} {s : GateState}

section

variable (hsub : history ⊆ history')

include hsub

theorem RevokeSeen.mono (h : RevokeSeen account history) : RevokeSeen account history' := by
  obtain ⟨m, resp, hmem, hrv⟩ := h
  exact ⟨m, resp, hsub hmem, hrv⟩

theorem DenySeen.mono (h : DenySeen account history) : DenySeen account history' := by
  rcases h with hmr | hans
  · exact .inl (hsub hmr)
  · obtain ⟨m, resp, hmem, hdn⟩ := hans
    exact .inr ⟨m, resp, hsub hmem, hdn⟩

theorem ThreadKnows.mono (h : ThreadKnows cfg history t) :
    ThreadKnows cfg history' t where
  gated := h.gated
  after hafter := ⟨hsub (h.after hafter).1, (h.after hafter).2⟩
  got m resp hpc := hsub (h.got m resp hpc)
  blip := h.blip

end

theorem gateInv_new (cfg : GateConfig) : GateInv cfg .new where
  sticky _ h := absurd h not_mem_nil
  seen _ h := absurd h Bool.false_ne_true
  denied _ d h := absurd h (by simp [new])
  proper _ h := absurd h not_mem_nil
  threads n t h := absurd h (by simp [new])
  faithful := trivial

section

variable (h : GateInv cfg s)

include h

theorem GateInv.setPc (ht : ThreadKnows cfg s.history { t with pc := pc }) :
    GateInv cfg (s.setPc n t pc) where
  sticky := h.sticky
  seen := h.seen
  denied := h.denied
  proper := h.proper
  threads := FinMap.forall_insert h.threads ht
  faithful := h.faithful

theorem GateInv.cons (hne : ∀ account, recorded account ≠ e)
    (hft : Faithful e s.history) :
    GateInv cfg { s with history := e :: s.history } := by
  have hsub : s.history ⊆ e :: s.history := subset_cons_self _ _
  exact
    { sticky := fun account hmem => h.sticky account (mem_of_cons_ne (hne account) hmem)
      seen := fun account hrev => (h.seen account hrev).mono hsub
      denied := fun account d hd hvr => (h.denied account d hd hvr).mono hsub
      proper := fun account hmem => h.proper account (mem_of_cons_ne (hne account) hmem)
      threads := fun n t ht => (h.threads n t ht).mono hsub
      faithful := ⟨hft, h.faithful⟩ }

theorem GateInv.returned {after result : Bool} (hret : Returns s.history call account after result)
    :
    GateInv cfg { s with history := .returned call account after result :: s.history } :=
  h.cons (fun _ => GateEvent.noConfusion) hret

theorem GateInv.finish (hret : Returns s.history t.call t.account t.after result) :
    GateInv cfg (s.finish n t result) :=
  { h.returned hret with threads := FinMap.forall_erase (h.returned hret).threads }

end

theorem ThreadKnows.goOn (h : ThreadKnows cfg history t) (hpc : t.pc ≠ .stale)
    (hgot : ∀ m resp, pc = .got m resp → answered t.account m resp ∈ history)
    (hbl : pc = .blip → t.call = .allowContinue) :
    ThreadKnows cfg history { t with pc := pc } where
  gated := h.gated
  after hafter := ⟨(h.after hafter).1, fun hcl => absurd ((h.after hafter).2 hcl) hpc⟩
  got := hgot
  blip := hbl

theorem decision_of_lookup (h : s.cache.lookup account = some d) : s.decision account = d := by
  rw [decision, h]
  rfl

theorem decision_setDecision (account : String) (d : GateDecision) (history : List GateEvent)
    (other : String) :
    ({ s.setDecision account d with history := history }).decision other
      = if other = account then d else s.decision other := by
  unfold decision setDecision
  split
  · next heq => rw [heq, Finmap.lookup_insert, Option.getD_some]
  · next hne => rw [Finmap.lookup_insert_of_ne _ hne]

theorem GateInv.setDecision (h : GateInv cfg s) (account : String) (d : GateDecision)
    (history : List GateEvent) (hsub : s.history ⊆ history) (hft : Each Faithful history)
    (hoth : ∀ other, recorded other ∈ history →
      other = account ∨ recorded other ∈ s.history)
    (hgt : cfg.enabled = true ∧ account ≠ "")
    (hkp : recorded account ∈ history → d.revoked = true)
    (hsn : d.revoked = true → RevokeSeen account history)
    (hdn : d.verdict = false → DenySeen account history) :
    GateInv cfg { s.setDecision account d with history := history } where
  sticky other hmem := by
    rw [decision_setDecision]
    split
    · next heq => exact hkp (heq ▸ hmem)
    · next hne => exact h.sticky other ((hoth other hmem).resolve_left hne)
  seen other hrevoked := by
    rw [decision_setDecision] at hrevoked
    split at hrevoked
    · rename_i heq
      rw [heq]
      exact hsn hrevoked
    · exact (h.seen other hrevoked).mono hsub
  denied other d' hd' hverdict := by
    by_cases heq : other = account
    · have hd : d = d' := by
        rw [heq] at hd'
        exact Option.some.inj ((Finmap.lookup_insert _).symm.trans hd')
      rw [heq]
      exact hdn (hd ▸ hverdict)
    · have hold : s.cache.lookup other = some d' :=
        (Finmap.lookup_insert_of_ne _ heq).symm.trans hd'
      exact (h.denied other d' hold hverdict).mono hsub
  proper other hmem := by
    rcases hoth other hmem with heq | hold
    · exact heq ▸ hgt
    · exact h.proper other hold
  threads n t ht := (h.threads n t ht).mono hsub
  faithful := hft

/-! ## What the calls return -/

theorem ofDecision_revoked (h : d.revoked = true) (call : GateCall) :
    call.ofDecision d = call.onRevoke := by
  have hvr : d.verdict = false := by
    rw [GateDecision.verdict, h]
    exact Bool.and_false _
  cases call with
  | allowConnect => exact hvr
  | allowContinue => exact hvr
  | definitivelyRevoked => exact h

theorem onRevoke_eq_false (h : call ≠ .definitivelyRevoked) : call.onRevoke = false := by
  cases call with
  | allowConnect => rfl
  | allowContinue => rfl
  | definitivelyRevoked => exact absurd rfl h

theorem returns_ofDecision (h : GateInv cfg s) (ht : ThreadKnows cfg s.history t)
    (hd : s.cache.lookup t.account = some d) :
    Returns s.history t.call t.account t.after (t.call.ofDecision d) where
  refused hrec hcall := by
    have hrev := h.sticky t.account hrec
    rw [decision_of_lookup hd] at hrev
    rw [ofDecision_revoked hrev, onRevoke_eq_false hcall]
  final hafter := by
    have hrev := h.sticky t.account (ht.after hafter).1
    rw [decision_of_lookup hd] at hrev
    exact ofDecision_revoked hrev t.call
  justified hcall hresult := by
    rw [hcall] at hresult
    refine h.seen t.account ?_
    rw [decision_of_lookup hd]
    exact hresult
  deserved hcall hresult := by
    rw [hcall] at hresult
    exact h.denied t.account d hd hresult

theorem returns_onRevoke (hsn : RevokeSeen t.account history) :
    Returns history t.call t.account t.after t.call.onRevoke where
  refused _ hcall := onRevoke_eq_false hcall
  final _ := rfl
  justified _ _ := hsn
  deserved _ _ := by
    obtain ⟨m, resp, hmem, hrv⟩ := hsn
    exact .inr ⟨m, resp, hmem, .inl hrv⟩

section

variable (h : GateInv cfg s)

include h

theorem freshDecision_denied (hmem : answered account m resp ∈ s.history)
    (hrd : entitlementForAccount cfg.sharedSecret resp = .ok ent)
    (hvr : (s.freshDecision cfg account ent now).verdict = false) :
    DenySeen account s.history := by
  obtain ⟨hrs, hrev⟩ := entitlementForAccount_eq_ok hrd
  unfold freshDecision at hvr
  split at hvr
  · rename_i hkp
    obtain ⟨m', resp', hmem', hrv⟩ := h.seen account hkp
    exact .inr ⟨m', resp', hmem', .inl hrv⟩
  rw [GateDecision.verdict, hrev, Bool.not_false, Bool.and_true, Bool.and_eq_false_iff] at hvr
  refine .inr ⟨m, resp, hmem, .inr ⟨ent, hrs, ?_⟩⟩
  exact hvr.imp id fun hqt => by rw [← Bool.not_not ent.overQuota, hqt]; rfl

theorem freshDecision_seen (hrd : entitlementForAccount cfg.sharedSecret resp = .ok ent)
    (hrev : (s.freshDecision cfg account ent now).revoked = true) :
    RevokeSeen account s.history := by
  unfold freshDecision at hrev
  split at hrev
  · next hkp => exact h.seen account hkp
  · exact absurd hrev (by simp [(entitlementForAccount_eq_ok hrd).2])

theorem freshDecision_kept (hrec : recorded account ∈ s.history) :
    (s.freshDecision cfg account ent now).revoked = true := by
  rw [freshDecision, if_pos (h.sticky account hrec)]

theorem returns_ungated (hoff : cfg.enabled = false ∨ account = "") :
    Returns s.history call account (decide (recorded account ∈ s.history))
      call.ungated := by
  have hno : recorded account ∉ s.history := by
    intro hmem
    obtain ⟨hena, hac⟩ := h.proper account hmem
    rcases hoff with hds | hemp
    · rw [hds] at hena
      cases hena
    · exact hac hemp
  refine ⟨fun hmem => absurd hmem hno, fun haf => ?_, fun hcl hres => ?_,
    fun hcl hres => ?_⟩
  · exact absurd (of_decide_eq_true haf) hno
  · rw [hcl] at hres
    cases hres
  · rw [hcl] at hres
    cases hres

end

theorem knows_begin (hena : cfg.enabled = true) (hac : account ≠ "")
    (hst : call ≠ .allowConnect → pc = .stale) (hlk : call = .allowConnect → pc = .lookup) :
    ThreadKnows cfg history ⟨call, account, decide (recorded account ∈ history), pc⟩ := by
  have hpc : pc = .stale ∨ pc = .lookup := by
    by_cases hcl : call = .allowConnect
    · exact .inr (hlk hcl)
    · exact .inl (hst hcl)
  refine ⟨⟨hena, hac⟩, fun haf => ⟨of_decide_eq_true haf, fun hcl => ?_⟩,
    fun m resp hgot => ?_, fun hbl => ?_⟩
  · exact hst fun hcn => absurd (hcl.symm.trans hcn) (by decide)
  · rcases hpc with heq | heq <;> exact absurd (heq.symm.trans hgot) (by simp)
  rcases hpc with heq | heq <;> exact absurd (heq.symm.trans hbl) (by simp)

theorem GateInv.answered (h : GateInv cfg s) (ht : s.threads.lookup n = some t)
    (hpc : t.pc ≠ .stale) :
    GateInv cfg { s.setPc n t (.got m resp) with
      history := .answered t.account m resp :: s.history } := by
  have hcn := h.cons (e := .answered t.account m resp) (fun _ => GateEvent.noConfusion) trivial
  have hkn : ThreadKnows cfg (.answered t.account m resp :: s.history)
      { t with pc := .got m resp } := by
    refine (hcn.threads n t ht).goOn hpc (fun m' resp' hgot => ?_) fun hbl => ?_
    · obtain ⟨rfl, rfl⟩ := GatePc.got.inj hgot
      exact .head _
    · simp at hbl
  exact { hcn with threads := FinMap.forall_insert hcn.threads hkn }

theorem returns_unknown (h : GateInv cfg s) (ht : ThreadKnows cfg s.history t) (hpc : t.pc = .blip)
    (hd : s.cache.lookup t.account = none) : Returns s.history t.call t.account t.after true := by
  have hno : recorded t.account ∉ s.history := by
    intro hmem
    have hkp := h.sticky t.account hmem
    rw [decision, hd] at hkp
    cases hkp
  refine ⟨fun hmem => absurd hmem hno, fun haf => ?_, fun hcl => ?_,
    fun _ hres => absurd hres (by decide)⟩
  · exact absurd (ht.after haf).1 hno
  · exact absurd ((ht.blip hpc).symm.trans hcl) (by decide)

theorem returns_refuse (ht : ThreadKnows cfg s.history t) (hpc : t.pc = .got m resp)
    (hcl : t.call ≠ .allowContinue) : Returns s.history t.call t.account t.after false := by
  refine ⟨fun _ _ => rfl, fun haf => ?_, fun _ hres => absurd hres (by decide),
    fun hcn => absurd hcn hcl⟩
  by_cases hrev : t.call = .definitivelyRevoked
  · exact absurd (hpc.symm.trans ((ht.after haf).2 hrev)) (by simp)
  · exact (onRevoke_eq_false hrev).symm

theorem gateInv_move (h : GateInv cfg s) (hmv : GateMove cfg s action s') : GateInv cfg s' := by
  cases hmv with
  | @ungated call account hoff => exact h.returned (returns_ungated h hoff)
  | @begin call account pc hena hac hst hlk =>
    exact { h with
      threads := FinMap.forall_insert h.threads
        (knows_begin hena hac hst hlk) }
  | @revokedSeen n t now ht hpc hrev =>
    exact h.finish (returns_onRevoke (h.seen t.account hrev))
  | @passStale n t now ht hpc hrev =>
    have hkn := h.threads n t ht
    refine h.setPc ⟨hkn.gated, fun haf => ?_, fun m resp hgot => ?_, fun hbl => ?_⟩
    · -- a revoke on record would have been seen
      have hkp := h.sticky t.account (hkn.after haf).1
      rw [hrev] at hkp
      cases hkp
    · simp at hgot
    · simp at hbl
  | @hit n t now d ht hpc hd => exact h.finish (returns_ofDecision h (h.threads n t ht) hd)
  | @miss n t now ht hpc hd | @ask n t now ht hpc =>
    refine h.setPc ((h.threads n t ht).goOn ?_ (fun m resp hgot => ?_) fun hbl => ?_)
    · exact fun hst => absurd (hpc.symm.trans hst) (by simp)
    · simp at hgot
    · simp at hbl
  | @answer n m t resp ht hpc =>
    refine h.answered ht ?_
    exact fun hst => absurd (hpc.symm.trans hst) (by simp)
  | @stored n m t resp ent now ht hpc hrd =>
    have hkn := h.threads n t ht
    have hmem := hkn.got m resp hpc
    have hset := h.setDecision t.account (s.freshDecision cfg t.account ent now) s.history
      (List.Subset.refl _) h.faithful (fun _ hmem => .inr hmem) hkn.gated
      (freshDecision_kept h) (freshDecision_seen h hrd) (freshDecision_denied h hmem hrd)
    exact hset.finish (returns_ofDecision hset hkn (Finmap.lookup_insert _))
  | @revoke n m t resp now ht hpc hrd =>
    have hkn := h.threads n t ht
    have hsn : RevokeSeen t.account (.recorded t.account :: s.history) :=
      ⟨m, resp, .tail _ (hkn.got m resp hpc), entitlementForAccount_eq_revoked hrd⟩
    have hset := h.setDecision t.account (s.revokedDecision cfg t.account now)
      (.recorded t.account :: s.history) (subset_cons_self _ _) ⟨trivial, h.faithful⟩
      (fun other hmem => (mem_cons.mp hmem).imp_left recorded.inj) hkn.gated
      (fun _ => rfl) (fun _ => hsn)
      (fun _ =>
        (returns_onRevoke (t := { t with call := .allowContinue }) hsn).deserved rfl rfl)
    exact hset.finish (returns_onRevoke hsn)
  | @refuse n m t resp now ht hpc hcl hrd =>
    exact h.finish (returns_refuse (h.threads n t ht) hpc hcl)
  | @blip n m t resp now ht hpc hcl hrd =>
    refine h.setPc ((h.threads n t ht).goOn ?_ (fun m resp hgot => ?_) fun _ => hcl)
    · exact fun hst => absurd (hpc.symm.trans hst) (by simp)
    · simp at hgot
  | @keep n t now d ht hpc hd =>
    have hkn := h.threads n t ht
    have hret := returns_ofDecision h hkn hd
    rw [hkn.blip hpc] at hret
    refine h.finish ?_
    rw [hkn.blip hpc]
    exact hret
  | @keepUnknown n t now ht hpc hd =>
    exact h.finish (returns_unknown h (h.threads n t ht) hpc hd)
  | @unmarked account now now' hoff => exact h
  | @mark account now now' hena hac =>
    exact h.setDecision account (s.markedDecision cfg account now now')
      (.marked account :: s.history) (subset_cons_self _ _) ⟨trivial, h.faithful⟩
      (fun other hmem => .inr (mem_of_cons_ne (by simp) hmem)) ⟨hena, hac⟩
      (fun hmem => h.sticky account (mem_of_cons_ne (by simp) hmem))
      (fun hrev => (h.seen account hrev).mono (subset_cons_self _ _))
      (fun _ => .inl mem_cons_self)

theorem gateInv_reachable (h : (gate cfg).Reachable (fun _ _ => True) s) : GateInv cfg s := by
  refine System.Reachable.invariant (P := GateInv cfg) (fun s hs => ?_) ?_ h
  · rw [hs]
    exact gateInv_new cfg
  · intro s action s' hinv _ hst
    exact gateInv_move hinv (gate_move hst)

/--
**A revoke is final and a blip is not a revoke.** In every run, for every call that has
returned and whatever happened before it: with a revoke on record `allowConnect` and
`allowContinue` return false; a call made with a revoke on record reports it, so that
`definitivelyRevoked` returns true; `definitivelyRevoked` returns true only if an answer
for the account was a revoke or a 404; and `allowContinue` returns false only if an
answer or a mark for the account was a definitive deny.
-/
theorem revoke_final_and_blip_harmless (cfg : GateConfig) (s : GateState)
    (h : (gate cfg).Reachable (fun _ _ => True) s) (newer older : List GateEvent)
    (call : GateCall) (account : String) (after result : Bool)
    (hreturned : s.history = newer ++ .returned call account after result :: older) :
    (recorded account ∈ older → call ≠ .definitivelyRevoked → result = false)
      ∧ (after = true → result = call.onRevoke)
      ∧ (call = .definitivelyRevoked → result = true → RevokeSeen account older)
      ∧ (call = .allowContinue → result = false → DenySeen account older) := by
  have hft := (gateInv_reachable h).faithful
  rw [hreturned] at hft
  have hret : Returns older call account after result := hft.past
  exact ⟨hret.refused, hret.final, hret.justified, hret.deserved⟩

def sampleGate : GateConfig := newEntitlementGate (some "secret") 0

theorem gate_reachable_new (cfg : GateConfig) : (gate cfg).Reachable ok .new := .init rfl

def readThrough (n : Nat) (now : Int) (resp : CPResponse) : List GateAct :=
  [.run n now, .run n now, .answer n resp, .run n now]

theorem revoked_after_404 :
    ∃ s older, (gate sampleGate).Reachable (fun _ _ => True) s
      ∧ s.history = .returned .definitivelyRevoked "acct" true true :: older
      ∧ RevokeSeen "acct" older := by
  obtain ⟨s, hrch, hend⟩ := (gate_reachable_new sampleGate).exists_after
    ([.call .allowConnect "acct"] ++ readThrough 0 5 (.answer 404 none)
      ++ [.call .definitivelyRevoked "acct", .run 1 90])
    (·.history.head? = some (.returned .definitivelyRevoked "acct" true true)) (by decide)
  obtain ⟨older, hhs⟩ := head?_eq_some_iff.mp hend
  exact ⟨s, older, hrch, hhs,
    (revoke_final_and_blip_harmless sampleGate s hrch [] older .definitivelyRevoked "acct" true
      true hhs).2.2.1 rfl rfl⟩

end VulosRelay.Server
