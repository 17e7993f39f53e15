import VulosRelay.Proof.RevokeFinal
import VulosRelay.Server.TokenStore

/-!
# Older reads and newer verdicts

The gate and the token store both read the control plane outside their mutex and store
the answer whatever has happened meanwhile. As long as no answer is stored that was asked
for before the last verdict, the verdict stands: an account that was marked stays over
quota until a later read clears it, and a token that was seen revoked stays out of the
cache until a later read allows it. Without that condition both can be undone.
-/

namespace VulosRelay.Server

open History List TokenEvent GateEvent FinMap

/-! ## Marks -/

/-- A read that began after every mark of the account has answered that it is not over quota. -/
def QuotaCleared (account : String) (history : List GateEvent) : Prop :=
  ∃ ent, GateEvent.answered account (marks account history) (.answer 200 (some ent)) ∈ history
    ∧ ent.overQuota = false

def ConnectCleared (e : GateEvent) (older : List GateEvent) : Prop :=
  match e with
  | .returned .allowConnect account _ true =>
    GateEvent.marked account ∈ older → QuotaCleared account older
  | _ => True

/-- An entitlement that a call is about to store was asked for after the last mark. -/
def FreshRead (cfg : GateConfig) (s : GateState) : GateAct → Prop
  | .run n _ => ∀ t m resp ent, s.threads.lookup n = some t → t.pc = .got m resp →
      entitlementForAccount cfg.sharedSecret resp = .ok ent → m = marks t.account s.history
  | _ => True

theorem marks_cons_of_ne (hne : marked account ≠ e) :
    marks account (e :: history) = marks account history :=
  countP_cons_of_neg (by simpa using hne.symm)

theorem QuotaCleared.cons (h : QuotaCleared account history) (hne : marked account ≠ e) :
    QuotaCleared account (e :: history) := by
  obtain ⟨ent, hmem, hqt⟩ := h
  refine ⟨ent, ?_, hqt⟩
  rw [marks_cons_of_ne hne]
  exact mem_cons_of_mem e hmem

/-- **A mark is in force until it is cleared.** -/
structure QuotaInv (cfg : GateConfig) (s : GateState) : Prop where
  held : ∀ account, GateEvent.marked account ∈ s.history →
    QuotaCleared account s.history ∨ (s.decision account).overQuota = true
  proper : ∀ account, GateEvent.marked account ∈ s.history → cfg.enabled = true ∧ account ≠ ""
  cleared : Each ConnectCleared s.history

variable {cfg : GateConfig} {s : GateState}

theorem quotaInv_new : QuotaInv cfg .new where
  held _ h := absurd h not_mem_nil
  proper _ h := absurd h not_mem_nil
  cleared := trivial

theorem QuotaInv.cons (h : QuotaInv cfg s) (hhs : s'.history = e :: s.history)
    (hne : ∀ account, marked account ≠ e)
    (hst : ∀ account, marked account ∈ s.history →
      (s.decision account).overQuota = true →
      QuotaCleared account s'.history ∨ (s'.decision account).overQuota = true)
    (hclr : ConnectCleared e s.history) : QuotaInv cfg s' where
  held account hmem := by
    rw [hhs] at hmem
    have hold := mem_of_cons_ne (hne account) hmem
    rcases h.held account hold with hcl | hqt
    · left
      rw [hhs]
      exact hcl.cons (hne account)
    · exact hst account hold hqt
  proper account hmem := by
    rw [hhs] at hmem
    exact h.proper account (mem_of_cons_ne (hne account) hmem)
  cleared := by
    rw [hhs]
    exact ⟨hclr, h.cleared⟩

theorem QuotaInv.finish (h : QuotaInv cfg s)
    (hcl : t.call = .allowConnect → result = true → marked t.account ∈ s.history →
      QuotaCleared t.account s.history) : QuotaInv cfg (s.finish n t result) := by
  refine h.cons rfl (fun _ => by simp) (fun _ _ hqt => .inr hqt) ?_
  unfold ConnectCleared
  split
  · rename_i heq
    obtain ⟨hcla, hac, -, hres⟩ := returned.inj heq
    rw [← hac]
    exact hcl hcla hres
  · trivial

theorem verdict_not_overQuota {d : GateDecision} (h : d.verdict = true) : d.overQuota = false := by
  rw [GateDecision.verdict, Bool.and_eq_true, Bool.and_eq_true] at h
  exact Bool.eq_false_of_not_eq_true' h.1.2

theorem QuotaInv.of_decision (h : QuotaInv cfg s) (hd : s.cache.lookup account = some d)
    (hvr : d.verdict = true) (hmr : marked account ∈ s.history) :
    QuotaCleared account s.history := by
  rcases h.held account hmr with hcl | hqt
  · exact hcl
  · rw [decision_of_lookup hd, verdict_not_overQuota hvr] at hqt
    cases hqt

theorem overQuota_freshDecision {now : Int} :
    (s.freshDecision cfg account ent now).overQuota = ent.overQuota := by
  unfold GateState.freshDecision
  split <;> rfl

theorem quotaInv_stored (h : QuotaInv cfg s) (hinv : GateInv cfg s)
    (ht : s.threads.lookup n = some t) (hpc : t.pc = .got m resp)
    (hrd : entitlementForAccount cfg.sharedSecret resp = .ok ent)
    (hfr : m = marks t.account s.history) :
    QuotaInv cfg ((s.setDecision t.account (s.freshDecision cfg t.account ent now)).finish n t
      (t.call.ofDecision (s.freshDecision cfg t.account ent now))) := by
  have hcl : ent.overQuota = false → QuotaCleared t.account s.history := by
    intro hqt
    have hmem := (hinv.threads n t ht).got m resp hpc
    rw [(entitlementForAccount_eq_ok hrd).1, hfr] at hmem
    exact ⟨ent, hmem, hqt⟩
  have hset : QuotaInv cfg (s.setDecision t.account (s.freshDecision cfg t.account ent now)) := by
    refine ⟨fun account hmem => ?_, h.proper, h.cleared⟩
    have hdec := decision_setDecision (s := s) t.account
      (s.freshDecision cfg t.account ent now) s.history account
    by_cases heq : account = t.account
    · rw [if_pos heq] at hdec
      cases hqt : ent.overQuota with
      | true =>
        right
        refine (congrArg GateDecision.overQuota hdec).trans ?_
        rw [overQuota_freshDecision, hqt]
      | false => exact .inl (heq ▸ hcl hqt)
    · rw [if_neg heq] at hdec
      exact (h.held account hmem).imp_right fun hqt =>
        (congrArg GateDecision.overQuota hdec).trans hqt
  refine hset.finish fun hcla hres _ => ?_
  rw [hcla] at hres
  have hqt := verdict_not_overQuota hres
  rw [overQuota_freshDecision] at hqt
  exact hcl hqt

theorem quotaInv_move (h : QuotaInv cfg s) (hinv : GateInv cfg s) (hfr : FreshRead cfg s action)
    (hmv : GateMove cfg s action s') :
    QuotaInv cfg s' := by
  cases hmv with
  | @ungated call account hoff =>
    refine h.cons rfl (fun _ => by simp) (fun _ _ hqt => .inr hqt) ?_
    unfold ConnectCleared
    split
    · rename_i heq
      obtain ⟨-, hac, -, -⟩ := returned.inj heq
      intro hmr
      -- only accounts that are gated are marked
      obtain ⟨hena, hnm⟩ := h.proper _ hmr
      rcases hoff with hds | hemp
      · rw [hds] at hena
        cases hena
      · exact absurd (hac.symm.trans hemp) hnm
    · trivial
  | begin _ _ _ _ | passStale _ _ _ | miss _ _ _ | ask _ _ | blip _ _ _ _ =>
    exact ⟨h.held, h.proper, h.cleared⟩
  | @revokedSeen n t now ht hpc hrev =>
    refine h.finish fun hcl hres => ?_
    rw [hcl] at hres
    cases hres
  | @hit n t now d ht hpc hd =>
    refine h.finish fun hcl hres => ?_
    rw [hcl] at hres
    exact h.of_decision hd hres
  | @answer n m t resp ht hpc =>
    exact h.cons rfl (fun _ => by simp) (fun _ _ hqt => .inr hqt) trivial
  | @stored n m t resp ent now ht hpc hrd =>
    exact quotaInv_stored h hinv ht hpc hrd (hfr t m resp ent ht hpc hrd)
  | @revoke n m t resp now ht hpc hrd =>
    have hrec : QuotaInv cfg
        { s.setDecision t.account (s.revokedDecision cfg t.account now) with
          history := .recorded t.account :: s.history } := by
      refine h.cons rfl (fun _ => by simp) (fun account _ hqt => .inr ?_) trivial
      rw [decision_setDecision]
      split
      · next heq => exact heq ▸ hqt
      · exact hqt
    refine hrec.finish fun hcl hres => ?_
    rw [hcl] at hres
    cases hres
  | @refuse n m t resp now ht hpc hcl hrd =>
    exact h.finish fun _ hres => absurd hres (by decide)
  | @keep n t now d ht hpc hd | @keepUnknown n t now ht hpc hd =>
    -- `allowConnect` never keeps a verdict after a failed read
    refine h.finish fun hcl => ?_
    exact absurd (((hinv.threads n t ht).blip hpc).symm.trans hcl) (by decide)
  | unmarked _ => exact h
  | @mark account now now' hena hac =>
    refine ⟨fun other hmem => ?_, fun other hmem => ?_, trivial, h.cleared⟩
    · rw [decision_setDecision]
      by_cases heq : other = account
      · rw [if_pos heq]
        exact .inr rfl
      have hne : marked other ≠ .marked account :=
        fun hmrk => heq (marked.inj hmrk)
      rw [if_neg heq]
      exact (h.held other (mem_of_cons_ne hne hmem)).imp_left fun hclr => hclr.cons hne
    · rcases mem_cons.mp hmem with heq | hold
      · rw [marked.inj heq]
        exact ⟨hena, hac⟩
      · exact h.proper other hold

theorem quotaInv_reachable (h : (gate cfg).Reachable (FreshRead cfg) s) : QuotaInv cfg s := by
  have hbt : GateInv cfg s ∧ QuotaInv cfg s := by
    refine System.Reachable.invariant (P := fun s => GateInv cfg s ∧ QuotaInv cfg s)
      (fun s hs => ?_) ?_ h
    · rw [hs]
      exact ⟨gateInv_new cfg, quotaInv_new⟩
    intro s action s' hinv hfr hst
    have hmv := gate_move hst
    exact ⟨gateInv_move hinv.1 hmv, quotaInv_move hinv.2 hinv.1 hfr hmv⟩
  exact hbt.2

/-! ## Revoked tokens -/

/-- A read that began after every revoke of the token was seen has answered with an allow. -/
def TokenCleared (token : String) (history : List TokenEvent) : Prop :=
  ∃ ent, TokenEvent.answered token (revokes token history) (.answer 200 (some ent)) ∈ history
    ∧ ent.revoked = false ∧ ent.accountId ≠ ""

def AuthorizeCleared (e : TokenEvent) (older : List TokenEvent) : Prop :=
  match e with
  | .returned token _ (.ok _) => TokenEvent.revoked token ∈ older → TokenCleared token older
  | _ => True

/-- The tokens that calls are made with, trimmed, are among some tokens. -/
def Presents {κ : Type} (env : TokenEnv κ) (tokens : Set String) : TokenAct → Prop
  | .authorize token _ => env.trimSpace token ∈ tokens
  | _ => True

/-- An allow that a call is about to store was asked for after the last revoke seen. -/
def FreshTokenRead {κ : Type} (s : TokenState κ) : TokenAct → Prop
  | .run n _ _ => ∀ t m resp ent, s.threads.lookup n = some t → t.pc = .got m resp →
      entitlementForCredential resp = .ok ent → ent.accountId ≠ "" → m = revokes t.token s.history
  | _ => True

theorem revokes_cons_of_ne (hne : revoked token ≠ e) :
    revokes token (e :: history) = revokes token history :=
  countP_cons_of_neg (by simpa using hne.symm)

theorem TokenCleared.cons (h : TokenCleared token history) (hne : revoked token ≠ e) :
    TokenCleared token (e :: history) := by
  obtain ⟨ent, hmem, hal⟩ := h
  refine ⟨ent, ?_, hal⟩
  rw [revokes_cons_of_ne hne]
  exact mem_cons_of_mem e hmem

section
variable {κ : Type} [DecidableEq κ] {env : TokenEnv κ} {ttl : Int} {s s' : TokenState κ}

inductive TokenMove (env : TokenEnv κ) (ttl : Int) (s : TokenState κ) :
    TokenAct → TokenState κ → Prop where
  | refuse {token token' name : String} {error : AuthError} :
      TokenMove env ttl s (.authorize token name)
        { s with history := .returned token' name (.error error) :: s.history }
  | begin {token name : String} :
      TokenMove env ttl s (.authorize token name)
        { s with
          threads := s.threads.insert s.calls ⟨env.trimSpace token, name, .lookup⟩
          calls := s.calls + 1 }
  | hit {n : Nat} {t : TokenThread} {now now' : Int} {e : TokenEntry} :
      s.threads.lookup n = some t → s.cache.lookup (env.sha256 t.token) = some e →
      TokenMove env ttl s (.run n now now') (s.finish n t (TokenState.bind env t e.account e.names))
  | pass {n : Nat} {t : TokenThread} {now now' : Int} {pc : TokenPc} :
      s.threads.lookup n = some t → (∀ m resp, pc ≠ .got m resp) →
      TokenMove env ttl s (.run n now now') (s.setPc n t pc)
  | answer {n m : Nat} {t : TokenThread} {resp : CPResponse} : s.threads.lookup n = some t →
      TokenMove env ttl s (.answer n resp)
        { s.setPc n t (.got m resp) with history := .answered t.token m resp :: s.history }
  | purge {n m : Nat} {t : TokenThread} {resp : CPResponse} {now now' : Int} :
      s.threads.lookup n = some t → t.pc = .got m resp →
      TokenMove env ttl s (.run n now now')
        ({ s with
            cache := s.cache.erase (env.sha256 t.token)
            history := .revoked t.token :: s.history }.finish n t (.error .credentialRevoked))
  | fail {n : Nat} {t : TokenThread} {now now' : Int} {error : AuthError} :
      s.threads.lookup n = some t →
      TokenMove env ttl s (.run n now now') (s.finish n t (.error error))
  | stored {n m : Nat} {t : TokenThread} {resp : CPResponse} {ent : Entitlement}
      {now now' : Int} :
      s.threads.lookup n = some t → t.pc = .got m resp → doEntitlement resp = .ok ent →
      ent.accountId ≠ "" →
      TokenMove env ttl s (.run n now now')
        ({ s with
            cache := TokenState.cleanup
              (s.cache.insert (env.sha256 t.token)
                ⟨ent.accountId, TokenState.authorizedNames env ent, now + ttl⟩) now' }.finish n t
          (TokenState.bind env t ent.accountId (TokenState.authorizedNames env ent)))

theorem tokenMove_advance (ht : s.threads.lookup n = some t)
    (h : s.advance env ttl n t now now' = some s') :
    TokenMove env ttl s (.run n now now') s' := by
  unfold TokenState.advance at h
  split at h
  · split at h
    · rename_i e he
      cases h
      exact .hit ht (Option.filter_eq_some_iff.mp he).1
    · cases h
      exact .pass ht (by simp)
  · cases h
    exact .pass ht (by simp)
  · simp at h
  rename_i m resp hpc
  cases h
  unfold TokenState.store
  split
  · exact .purge ht hpc
  · exact .fail ht
  rename_i ent hrd
  split
  · exact .fail ht
  · next hac => exact .stored ht hpc hrd hac

theorem token_move (h : (tokenStore env ttl).step s action = some s') :
    TokenMove env ttl s action s' := by
  cases action with
  | authorize token name =>
    cases h
    show TokenMove env ttl s _ (s.authorize env token name)
    unfold TokenState.authorize
    dsimp only
    split
    · exact .refuse
    split
    · exact .refuse
    · exact .begin
  | run n now now' =>
    obtain ⟨t, ht, had⟩ := Option.bind_eq_some_iff.mp h
    exact tokenMove_advance ht had
  | answer n resp =>
    have hst : s.step env ttl (.answer n resp) = some s' := h
    rw [TokenState.step] at hst
    split at hst
    · rename_i t ht
      split at hst
      · cases hst
        exact .answer ht
      · simp at hst
    · simp at hst

/-- What a call of `Authorize` knows: its token is one of some, and what it was answered. -/
structure TokenKnows (tokens : Set String) (history : List TokenEvent) (t : TokenThread) :
    Prop where
  token : t.token ∈ tokens
  got : ∀ m resp, t.pc = .got m resp → TokenEvent.answered t.token m resp ∈ history

theorem TokenKnows.mono (hsub : history ⊆ history') (h : TokenKnows tokens history t) :
    TokenKnows tokens history' t :=
  ⟨h.token, fun m resp hpc => hsub (h.got m resp hpc)⟩

/-- **A token that was seen revoked is out of the cache until it is cleared.** -/
structure TokenInv (env : TokenEnv κ) (tokens : Set String) (s : TokenState κ) : Prop where
  /-- Revokes are seen of tokens that calls were made with. -/
  presented : ∀ token, TokenEvent.revoked token ∈ s.history → token ∈ tokens
  out : ∀ token, TokenEvent.revoked token ∈ s.history →
    TokenCleared token s.history ∨ env.sha256 token ∉ s.cache
  threads : ∀ n t, s.threads.lookup n = some t → TokenKnows tokens s.history t
  cleared : Each AuthorizeCleared s.history

variable {tokens : Set String}

omit [DecidableEq κ] in
theorem tokenInv_new : TokenInv env tokens .new where
  presented _ h := absurd h not_mem_nil
  out _ h := absurd h not_mem_nil
  threads n t h := absurd h (by simp [TokenState.new])
  cleared := trivial

omit [DecidableEq κ] in
theorem TokenInv.cons (h : TokenInv env tokens s) (hne : ∀ token, revoked token ≠ e)
    (hclr : AuthorizeCleared e s.history) :
    TokenInv env tokens { s with history := e :: s.history } where
  presented token hmem := h.presented token (mem_of_cons_ne (hne token) hmem)
  out token hmem :=
    (h.out token (mem_of_cons_ne (hne token) hmem)).imp_left fun hcl => hcl.cons (hne token)
  threads n t ht := (h.threads n t ht).mono (subset_cons_self _ _)
  cleared := ⟨hclr, h.cleared⟩

omit [DecidableEq κ] in
theorem TokenInv.finish (h : TokenInv env tokens s)
    (hcl : ∀ account, result = .ok account → revoked t.token ∈ s.history →
      TokenCleared t.token s.history) : TokenInv env tokens (s.finish n t result) := by
  have hret : AuthorizeCleared (.returned t.token t.name result) s.history := by
    unfold AuthorizeCleared
    split
    · rename_i heq
      obtain ⟨htok, -, hres⟩ := returned.inj heq
      rw [← htok]
      exact hcl _ hres
    · trivial
  have hcn := h.cons (fun _ => TokenEvent.noConfusion) hret
  exact { hcn with threads := forall_erase hcn.threads }

theorem notMem_cleanup {cache : FinMap κ TokenEntry} {k : κ} (h : k ∉ cache) {now : Int} :
    k ∉ TokenState.cleanup cache now := by
  unfold TokenState.cleanup
  split
  · intro hmem
    obtain ⟨e, he⟩ := mem_iff_lookup.mp hmem
    exact h (mem_of_lookup (lookup_filter_eq_some.mp he).1)
  · exact h

theorem TokenInv.purge (h : TokenInv env tokens s) (htok : token ∈ tokens) :
    TokenInv env tokens
      { s with
        cache := s.cache.erase (env.sha256 token)
        history := .revoked token :: s.history } where
  presented other hmem := by
    rcases mem_cons.mp hmem with heq | hold
    · rw [revoked.inj heq]
      exact htok
    · exact h.presented other hold
  out other hmem := by
    by_cases heq : other = token
    · right
      rw [heq]
      exact fun hmem => (Finmap.mem_erase.mp hmem).1 rfl
    have hne : revoked other ≠ .revoked token :=
      fun hrev => heq (revoked.inj hrev)
    rcases h.out other (mem_of_cons_ne hne hmem) with hcl | hout
    · exact .inl (hcl.cons hne)
    · exact .inr fun hmem => hout (Finmap.mem_erase.mp hmem).2
  threads n t ht := (h.threads n t ht).mono (subset_cons_self _ _)
  cleared := ⟨trivial, h.cleared⟩

section

variable (hinj : Set.InjOn env.sha256 tokens)

include hinj

theorem TokenInv.store (h : TokenInv env tokens s) (htok : token ∈ tokens)
    (hcl : TokenCleared token s.history) (entry : TokenEntry) (now : Int) :
    TokenInv env tokens
      { s with
        cache := TokenState.cleanup (s.cache.insert (env.sha256 token) entry) now } where
  presented := h.presented
  out other hmem := by
    by_cases heq : other = token
    · exact .inl (heq ▸ hcl)
    refine (h.out other hmem).imp_right fun hout => notMem_cleanup (fun hin => ?_)
    rcases Finmap.mem_insert.mp hin with hkey | hin
    · exact heq (hinj (h.presented other hmem) htok hkey)
    · exact hout hin
  threads := h.threads
  cleared := h.cleared

theorem tokenInv_move (h : TokenInv env tokens s) (hfr : FreshTokenRead s action)
    (hpr : Presents env tokens action) (hmv : TokenMove env ttl s action s') :
    TokenInv env tokens s' := by
  cases hmv with
  | refuse => exact h.cons (fun _ => TokenEvent.noConfusion) trivial
  | @begin token name =>
    have hkn : TokenKnows tokens s.history ⟨env.trimSpace token, name, .lookup⟩ :=
      ⟨hpr, nofun⟩
    exact { h with threads := forall_insert h.threads hkn }
  | @hit n t now now' e ht he =>
    refine h.finish fun account _ hrev => (h.out t.token hrev).resolve_right ?_
    exact not_not.mpr (mem_of_lookup he)
  | @pass n t now now' pc ht hpc =>
    have hkn : TokenKnows tokens s.history { t with pc := pc } :=
      ⟨(h.threads n t ht).token, fun m resp heq => absurd heq (hpc m resp)⟩
    exact { h with threads := forall_insert h.threads hkn }
  | @answer n m t resp ht =>
    have hcn := h.cons (e := .answered t.token m resp) (fun _ => TokenEvent.noConfusion) trivial
    have hkn : TokenKnows tokens (.answered t.token m resp :: s.history)
        { t with pc := .got m resp } := by
      refine ⟨(h.threads n t ht).token, fun m' resp' hpc => ?_⟩
      obtain ⟨rfl, rfl⟩ := TokenPc.got.inj hpc
      exact .head _
    exact { hcn with threads := forall_insert hcn.threads hkn }
  | @purge n m t resp now now' ht hpc =>
    refine (h.purge (h.threads n t ht).token).finish fun account hres => ?_
    simp at hres
  | fail ht => exact h.finish nofun
  | @stored n m t resp ent now now' ht hpc hrd hac =>
    have hkn := h.threads n t ht
    -- the read began after the last revoke, so its allow clears the token
    have hcl : TokenCleared t.token s.history := by
      have hmem := hkn.got m resp hpc
      obtain ⟨hrs, hrev⟩ := (doEntitlement_spec _).1 _ hrd
      rw [hrs, hfr t m resp ent ht hpc hrd hac] at hmem
      exact ⟨ent, hmem, hrev, hac⟩
    exact (h.store hinj hkn.token hcl _ now').finish fun _ _ _ => hcl

theorem tokenInv_reachable (h : (tokenStore env ttl).Reachable
      (fun s action => FreshTokenRead s action ∧ Presents env tokens action) s) :
    TokenInv env tokens s := by
  refine System.Reachable.invariant (P := TokenInv env tokens) (fun s hs => ?_) ?_ h
  · rw [hs]
    exact tokenInv_new
  · intro s action s' hinv hok hst
    exact tokenInv_move hinj hinv hok.1 hok.2 (token_move hst)

end

end

/-! ## Both -/

/--
**No older read overwrites a newer verdict, as long as none is stored after one.** In
every run of the gate in which each entitlement stored was asked for after the last mark of
its account, `allowConnect` returns true for a marked account only after a read that
began after the mark answered that it is not over quota. In every run of the token store
in which each allow stored was asked for after the last revoke seen of its token,
`Authorize` succeeds for a token that was seen revoked only after a read that began after
that answered with an allow. `hinj` says that no two of the tokens that the calls are made
with have one hash.
-/
theorem no_older_read_overwrites {κ : Type} [DecidableEq κ] (cfg : GateConfig) (env : TokenEnv κ)
    (ttl : Int) (tokens : Set String) (hinj : Set.InjOn env.sha256 tokens) :
    (∀ s, (gate cfg).Reachable (FreshRead cfg) s →
      ∀ newer older account after,
        s.history = newer ++ .returned .allowConnect account after true :: older →
        marked account ∈ older → QuotaCleared account older)
    ∧ ∀ s, (tokenStore env ttl).Reachable
          (fun s action => FreshTokenRead s action ∧ Presents env tokens action) s →
        ∀ newer older token name account,
          s.history = newer ++ .returned token name (.ok account) :: older →
          revoked token ∈ older → TokenCleared token older := by
  refine ⟨fun s h newer older account after hret => ?_,
    fun s h newer older token name account hret => ?_⟩
  · have hclr := (quotaInv_reachable h).cleared
    rw [hret] at hclr
    exact hclr.past
  have hclr := (tokenInv_reachable hinj h).cleared
  rw [hret] at hclr
  exact hclr.past

def sampleEnv : TokenEnv String := ⟨id, id, id⟩

def allowance (overQuota : Bool) : CPResponse :=
  .answer 200 (some ⟨"acct", true, overQuota, false, ["box"]⟩)

def freshReadCheck (s : GateState) : GateAct → Bool
  | .run n _ =>
    match s.threads.lookup n with
    | some t =>
      match t.pc with
      | .got m _ => m = marks t.account s.history
      | _ => true
    | none => true
  | _ => true

theorem freshRead_of_check (h : freshReadCheck s action = true) : FreshRead cfg s action := by
  cases action with
  | run n now =>
    intro t m resp ent ht hpc _
    simp only [freshReadCheck, ht, hpc, decide_eq_true_eq] at h
    exact h
  | call call account | answer n resp | mark account now now' => trivial

theorem tokenStore_reachable_new [DecidableEq κ] (env : TokenEnv κ) (ttl : Int) :
    (tokenStore env ttl).Reachable ok .new := .init rfl

def authorizeRead (n : Nat) (resp : CPResponse) : List TokenAct :=
  [.authorize "tok" "box", .run n 5 5, .run n 5 5, .answer n resp]

def freshTokenCheck (s : TokenState String) : TokenAct → Bool
  | .run n _ _ =>
    match s.threads.lookup n with
    | some t =>
      match t.pc with
      | .got m _ => m = revokes t.token s.history
      | _ => true
    | none => true
  | .authorize token _ => token = "tok"
  | .answer _ _ => true

theorem freshToken_of_check {s : TokenState String} {action : TokenAct}
    (h : freshTokenCheck s action = true) :
    FreshTokenRead s action ∧ Presents sampleEnv {"tok"} action := by
  cases action with
  | run n now now' =>
    refine ⟨fun t m resp ent ht hpc _ _ => ?_, trivial⟩
    simp only [freshTokenCheck, ht, hpc, decide_eq_true_eq] at h
    exact h
  | authorize token name =>
    have htok : token = "tok" := of_decide_eq_true h
    exact ⟨trivial, htok⟩
  | answer n resp => exact ⟨trivial, trivial⟩

/--
Marked, then read again and found under quota: the account is let in, and was cleared. Seen
revoked, then read again and allowed: the token is authorized, and was cleared.
-/
theorem let_in_after_clearing_read :
    (∃ s older, (gate sampleGate).Reachable (FreshRead sampleGate) s
      ∧ s.history = .returned .allowConnect "acct" false true :: older
      ∧ marked "acct" ∈ older ∧ QuotaCleared "acct" older)
    ∧ ∃ s older, (tokenStore sampleEnv (newCPTokenStore 0)).Reachable
        (fun s action => FreshTokenRead s action ∧ Presents sampleEnv {"tok"} action) s
      ∧ s.history = .returned "tok" "box" (.ok "acct") :: older
      ∧ revoked "tok" ∈ older ∧ TokenCleared "tok" older := by
  obtain ⟨hgt, htk⟩ := no_older_read_overwrites sampleGate sampleEnv (newCPTokenStore 0)
    {"tok"} (Function.injective_id.injOn)
  constructor
  · obtain ⟨s, hrch, hend⟩ := System.Reachable.exists_of_run freshReadCheck
      ([.mark "acct" 5 5, .call .allowConnect "acct"]
        ++ readThrough 0 (100 * GoTime.second) (allowance false))
      (fun s : GateState =>
        decide (s.history.head? = some (.returned .allowConnect "acct" false true))
          && decide (marked "acct" ∈ s.history.tail))
      (fun _ _ => freshRead_of_check) (gate_reachable_new sampleGate) (by decide)
    rw [Bool.and_eq_true, decide_eq_true_eq, decide_eq_true_eq] at hend
    obtain ⟨older, hhs⟩ := head?_eq_some_iff.mp hend.1
    have hmr : marked "acct" ∈ older := by
      have htl := hend.2
      rw [hhs] at htl
      exact htl
    exact ⟨s, older, hrch, hhs, hmr, hgt s hrch [] older "acct" false hhs hmr⟩
  · obtain ⟨s, hrch, hend⟩ := System.Reachable.exists_of_run freshTokenCheck
      (authorizeRead 0 (.answer 404 none) ++ [.run 0 6 6]
        ++ authorizeRead 1 (allowance false) ++ [.run 1 7 7])
      (fun s : TokenState String =>
        decide (s.history.head? = some (.returned "tok" "box" (.ok "acct")))
          && decide (revoked "tok" ∈ s.history.tail))
      (fun _ _ => freshToken_of_check)
      (tokenStore_reachable_new sampleEnv (newCPTokenStore 0)) (by decide)
    rw [Bool.and_eq_true, decide_eq_true_eq, decide_eq_true_eq] at hend
    obtain ⟨older, hhs⟩ := head?_eq_some_iff.mp hend.1
    have hrev : revoked "tok" ∈ older := by
      have htl := hend.2
      rw [hhs] at htl
      exact htl
    exact ⟨s, older, hrch, hhs, hrev, htk s hrch [] older "tok" "box" "acct" hhs hrev⟩

/--
**An older read undoes a newer verdict.** A read of the account is answered, the account
is marked, and the answer is stored: the next `allowConnect` lets the account in. A read
of the token is answered, another call sees the token revoked and purges it, and the
first answer is stored: the next `Authorize` succeeds.
-/
theorem older_read_undoes_verdict :
    (∃ s older, (gate sampleGate).Reachable (fun _ _ => True) s
      ∧ s.history = .returned .allowConnect "acct" false true :: older
      ∧ marked "acct" ∈ older ∧ ¬ QuotaCleared "acct" older)
    ∧ ∃ s older, (tokenStore sampleEnv (newCPTokenStore 0)).Reachable (fun _ _ => True) s
      ∧ s.history = .returned "tok" "box" (.ok "acct") :: older
      ∧ revoked "tok" ∈ older ∧ ¬ TokenCleared "tok" older := by
  constructor
  · obtain ⟨s, hrch, hend⟩ := (gate_reachable_new sampleGate).exists_after
      [.call .allowConnect "acct", .run 0 5, .run 0 5, .answer 0 (allowance false),
        .mark "acct" 6 6, .run 0 7, .call .allowConnect "acct", .run 1 8]
      (·.history
        = [.returned .allowConnect "acct" false true, .returned .allowConnect "acct" false true,
          .marked "acct", .answered "acct" 0 (allowance false)]) (by decide)
    refine ⟨s, _, hrch, hend, by simp, fun hcl => ?_⟩
    obtain ⟨ent, hmem, -⟩ := hcl
    simp [marks] at hmem
  · obtain ⟨s, hrch, hend⟩ :=
      (tokenStore_reachable_new sampleEnv (newCPTokenStore 0)).exists_after
        (authorizeRead 0 (allowance false) ++ authorizeRead 1 (.answer 404 none)
          ++ [.run 1 6 6, .run 0 7 7, .authorize "tok" "box", .run 2 8 8])
        (·.history = [.returned "tok" "box" (.ok "acct"), .returned "tok" "box" (.ok "acct"),
          .returned "tok" "box" (.error .credentialRevoked), .revoked "tok",
          .answered "tok" 0 (.answer 404 none), .answered "tok" 0 (allowance false)])
        (by decide)
    refine ⟨s, _, hrch, hend, by simp, fun hcl => ?_⟩
    obtain ⟨ent, hmem, -⟩ := hcl
    simp [revokes] at hmem

end VulosRelay.Server
