import VulosRelay.Client.Endpoints
import VulosRelay.Lib.History

/-!
# Where requests with credentials go

The guard of `probe` lets a request through if the base it is for is on the page's own
origin, or on https and on a host of the module's lists. What can go wrong is in the
lists and after the guard. `seedFromResolveBackend` puts the hosts of both sides of the
new pair on the list, also of a side that it has taken from the cache; and the guard looks
at the base, while the request goes to the base with the health path appended, which for
a base such as `/` is another host.

`Inv` says that the lists hold only trusted hosts. Each step keeps it if no cached side of
a seeded pair brings a host that is not trusted (`HarmlessSide`), and each request goes
where its base does if the health path leads nowhere else (`StaysOn`).
-/

namespace VulosRelay.Client.Endpoints

open JsText List Pair Bool

variable (surface : Surface)

variable {history : List Event} {s : State}

def BackendTarget.hosts (target : BackendTarget) : List Text :=
  [target.cloud, target.lan].filterMap (hostOf surface)

/--
A host that is trusted for good: the page's own, one of an injected or build-time
endpoint, or one of a field of a target that has been seeded.
-/
def Trusted (history : List Event) (host : Text) : Prop :=
  host = surface.pageHost
  ∨ host ∈ (configuredEndpoints surface).filterMap (hostOf surface)
  ∨ ∃ target, Event.seeded target ∈ history ∧ host ∈ target.hosts surface

def allowedHosts : List Event → List Text
  | [] => []
  | .configured hosts :: _ => hosts
  | .seeded _ :: older => allowedHosts older
  | .requested _ :: older => allowedHosts older

/-- A place where a request with credentials may go. -/
def Allowed (history : List Event) (site : Site) : Prop :=
  site.origin = surface.pageOrigin
  ∨ site.protocol = literal "https:"
    ∧ (Trusted surface history site.host
      ∨ ∃ entry ∈ allowedHosts history, hostMatches site.host entry = true)

def GoesWhereAllowed (event : Event) (older : List Event) : Prop :=
  ∀ site, event = .requested site → Allowed surface older site

/-- With the health path appended, a base is still on its own site. -/
def StaysOn (healthPath : Text) (base : Field) : Prop :=
  ∀ b site, base = .text b → b ≠ [] → surface.parse (b ++ healthPath) = some site →
    surface.parse b = some site

/-- A cached side that a seed takes over brings only a trusted host. -/
def HarmlessSide (history : List Event) (given cached : Field) : Prop :=
  given.truthy = false → ∀ host, hostOf surface cached = some host → Trusted surface history host

/-- A selection probes: the last choice is not still good, and none is under way. -/
def Selects (s : State) (force : Bool) (now : Int) : Prop :=
  (force = true ∨ s.selectedAt = 0 ∨ revalidateAfter ≤ now - s.selectedAt) ∧ s.selecting = none

/-- The bases of a selection: each side as it is resolved, and the page itself. -/
def selectionBases (s : State) : List Field :=
  candidates ⟨resolveSide surface cloud s, resolveSide surface lan s⟩

/--
The condition on a step: a seed takes over from the cache only sides with trusted hosts,
and what is probed stays on its site with the health path appended.
-/
def CacheHarmless (s : State) : Action → Prop
  | .seed (some target) =>
    ∀ stored, s.storage s.lsKey = some stored →
      HarmlessSide surface (.seeded target :: s.history) target.cloud stored.cloud
      ∧ HarmlessSide surface (.seeded target :: s.history) target.lan stored.lan
  | .select force now =>
    Selects s force now → ∀ base ∈ selectionBases surface s, StaysOn surface s.healthPath base
  | .probe base => StaysOn surface s.healthPath base
  | _ => True

structure Inv (s : State) : Prop where
  seeded : ∀ host ∈ s.seededHosts, Trusted surface s.history host
  allowed : ∀ entry ∈ s.allowedProbeHosts, entry ∈ allowedHosts s.history
  requests : History.Each (GoesWhereAllowed surface) s.history

variable {surface}

/-! ## The history grows -/

theorem Trusted.cons (h : Trusted surface history host) (event : Event) :
    Trusted surface (event :: history) host := by
  rcases h with hpg | hcn | ⟨target, hmem, hhs⟩
  · exact .inl hpg
  · exact .inr (.inl hcn)
  · exact .inr (.inr ⟨target, .tail _ hmem, hhs⟩)

theorem Allowed.cons_requested (h : Allowed surface history site) (other : Site) :
    Allowed surface (.requested other :: history) site := by
  rcases h with hor | ⟨hht, htr | hen⟩
  · exact .inl hor
  · exact .inr ⟨hht, .inl (htr.cons _)⟩
  · exact .inr ⟨hht, .inr hen⟩

theorem inv_record {sites : List Site} (hs : Inv surface s)
    (h : ∀ site ∈ sites, Allowed surface s.history site) : Inv surface (record s sites) := by
  induction sites generalizing s with
  | nil => exact hs
  | cons site sites ih =>
    have hst := h site (.head _)
    let s' : State := { s with history := .requested site :: s.history }
    have hs' : Inv surface s' := {
      seeded := fun host hmem => (hs.seeded host hmem).cons _
      allowed := hs.allowed
      requests := by
        refine ⟨fun other heq => ?_, hs.requests⟩
        rw [← Event.requested.inj heq]
        exact hst }
    have hrs : Inv surface (record s' sites) := by
      refine ih hs' fun other hmem => ?_
      exact (h other (.tail _ hmem)).cons_requested site
    have hsm : record s' sites = record s (site :: sites) := by
      simp [record, s', append_assoc]
    rw [← hsm]
    exact hrs

/-! ## The guard -/

/-- **The guard is sound**: what it lets through is a place where a request may go. -/
theorem allowed_of_guard (hs : Inv surface s) (hb : b ≠ [])
    (hgr : isCredentialedProbeAllowed surface s (.text b) = true) :
    ∃ site, surface.parse b = some site ∧ Allowed surface s.history site := by
  rw [isCredentialedProbeAllowed, if_neg (by simp [hb]), parseBase, if_neg hb] at hgr
  cases hpr : surface.parse b with
  | none =>
    rw [hpr] at hgr
    exact absurd hgr false_ne_true
  | some site =>
    rw [hpr] at hgr
    refine ⟨site, rfl, ?_⟩
    dsimp only at hgr
    split at hgr
    · rename_i hsm
      rw [sameOrigin, and_eq_true, decide_eq_true_eq, decide_eq_true_eq] at hsm
      exact .inl hsm.2
    split at hgr
    · exact absurd hgr false_ne_true
    rename_i hht
    refine .inr ⟨Classical.not_not.mp hht, ?_⟩
    split at hgr
    · next hpg => exact .inl (.inl hpg.2)
    rw [or_eq_true, contains_iff_mem, any_eq_true] at hgr
    rcases hgr with hcn | ⟨entry, hen, hmt⟩
    · rcases mem_append.mp hcn with hhs | hhs
      · exact .inl (.inr (.inl hhs))
      · exact .inl (hs.seeded site.host hhs)
    · exact .inr ⟨entry, hs.allowed entry hen, hmt⟩

theorem allowed_of_probeRequest (hs : Inv surface s) {base : Field} {site : Site}
    (hst : StaysOn surface s.healthPath base) (h : probeRequest surface s base = some site) :
    Allowed surface s.history site := by
  cases base with
  | text b =>
    rw [probeRequest] at h
    split at h
    · cases h
    rename_i hb
    split at h
    · rename_i hgr
      obtain ⟨own, hown, hal⟩ := allowed_of_guard hs hb hgr
      have hsti := hst b site rfl hb h
      rw [hown] at hsti
      cases hsti
      exact hal
    · cases h
  | falsy => cases h
  | other => cases h

/-! ## What the functions write -/

variable {pair : Pair}

theorem keepPair_fields {s : State} : (keepPair s pair).seededHosts = s.seededHosts
    ∧ (keepPair s pair).allowedProbeHosts = s.allowedProbeHosts
    ∧ (keepPair s pair).healthPath = s.healthPath ∧ (keepPair s pair).history = s.history
    ∧ (keepPair s pair).pair = pair := by
  rw [keepPair]
  split <;> exact ⟨rfl, rfl, rfl, rfl, rfl⟩

theorem inv_keepPair (hs : Inv surface s) : Inv surface (keepPair s pair) := by
  obtain ⟨hsd, hal, -, hhs, -⟩ := keepPair_fields
  exact {
    seeded := by rw [hsd, hhs]; exact hs.seeded
    allowed := by rw [hal, hhs]; exact hs.allowed
    requests := by rw [hhs]; exact hs.requests }

theorem Field.or_cases (a b : Field) : a.truthy = true ∧ a.or b = a
    ∨ a.truthy = false ∧ a.or b = b := by
  rw [Field.or]
  cases h : a.truthy with
  | true => exact .inl ⟨rfl, rfl⟩
  | false => exact .inr ⟨rfl, rfl⟩

theorem hostOf_empty : hostOf surface (.text []) = none := rfl

theorem sanitize_stored :
    sanitizeEndpoint surface (stored.or (.text [])) = stored
    ∨ sanitizeEndpoint surface (stored.or (.text [])) = .text [] := by
  rw [sanitizeEndpoint]
  split
  · rcases stored.or_cases (.text []) with ⟨-, h⟩ | ⟨-, h⟩
    · exact .inl h
    · exact .inr h
  · exact .inr rfl

theorem mem_addHosts (h : host ∈ addHosts surface hosts bases) :
    host ∈ hosts ∨ ∃ base ∈ bases, hostOf surface base = some host := by
  induction bases generalizing hosts with
  | nil => exact .inl h
  | cons base bases ih =>
    rw [addHosts, foldl_cons] at h
    rcases ih h with hold | ⟨later, hmem, hlt⟩
    · cases hbs : hostOf surface base with
      | none =>
        rw [hbs] at hold
        exact .inl hold
      | some new =>
        rw [hbs] at hold
        dsimp only at hold
        split at hold
        · exact .inl hold
        rcases mem_append.mp hold with hin | hnew
        · exact .inl hin
        · rw [mem_singleton.mp hnew]
          exact .inr ⟨base, .head _, hbs⟩
    · exact .inr ⟨later, .tail _ hmem, hlt⟩

theorem seedSide_trusted {given : Field} (cached : Field) {host : Text}
    (hgv : ∀ host, hostOf surface given = some host → Trusted surface history host)
    (hch : HarmlessSide surface history given cached) {read : Field}
    (hrd : read = cached ∨ read = .text [])
    (h : hostOf surface ((given.or read).or (.text [])) = some host) :
    Trusted surface history host := by
  rcases Field.or_cases (given.or read) (.text []) with ⟨-, heq⟩ | ⟨-, heq⟩
  · rw [heq] at h
    rcases given.or_cases read with ⟨-, hor⟩ | ⟨hfl, hor⟩
    · rw [hor] at h
      exact hgv host h
    rw [hor] at h
    rcases hrd with hr | hr
    · rw [hr] at h
      exact hch hfl host h
    · rw [hr, hostOf_empty] at h
      cases h
  · rw [heq, hostOf_empty] at h
    cases h

theorem readCache_side (hsd : side = cloud ∨ side = lan) :
    s.storage s.lsKey = none ∧ readCache surface s = none
    ∨ ∃ stored cached, s.storage s.lsKey = some stored ∧ readCache surface s = some cached
      ∧ (side cached = side stored ∨ side cached = .text []) := by
  rw [readCache]
  cases hsto : s.storage s.lsKey with
  | none => exact .inl ⟨rfl, rfl⟩
  | some stored =>
    refine .inr ⟨stored, _, rfl, rfl, ?_⟩
    rcases hsd with rfl | rfl
    · exact sanitize_stored
    · exact sanitize_stored

/-! ## Seeding -/

theorem inv_seed {target : BackendTarget} (hs : Inv surface s)
    (hok : CacheHarmless surface s (.seed (some target))) :
    Inv surface (seedFromResolveBackend surface s target) := by
  obtain ⟨hsd, hal, -, hhs, -⟩ := keepPair_fields
  have hgv : ∀ given ∈ [target.cloud, target.lan], ∀ host, hostOf surface given = some host →
      Trusted surface (.seeded target :: s.history) host := by
    intro given hmem host hhst
    exact .inr (.inr ⟨target, .head _, mem_filterMap.mpr ⟨given, hmem, hhst⟩⟩)
  -- a side that the target does not give is the stored one, which is harmless, or empty
  have hsdi : ∀ side : Pair → Field, side = cloud ∨ side = lan →
      ∀ given ∈ [target.cloud, target.lan],
        (∀ stored, s.storage s.lsKey = some stored →
          HarmlessSide surface (.seeded target :: s.history) given (side stored)) →
        ∀ host, hostOf surface ((given.or
            (side ((readCache surface s).getD ⟨.text [], .text []⟩))).or (.text [])) = some host →
          Trusted surface (.seeded target :: s.history) host := by
    intro side hsds given hmem hhr host hhst
    rcases readCache_side hsds with
      ⟨-, hrd⟩ | ⟨stored, cached, hsto, hrd, hch⟩
    · rw [hrd] at hhst
      have hemp : side ⟨.text [], .text []⟩ = .text [] := by
        rcases hsds with rfl | rfl <;> rfl
      exact seedSide_trusted (.text []) (hgv given hmem)
        (nofun) (.inl hemp) hhst
    · rw [hrd] at hhst
      exact seedSide_trusted _ (hgv given hmem) (hhr stored hsto) hch hhst
  exact {
    seeded := by
      intro host hmem
      rw [seedFromResolveBackend] at hmem ⊢
      rw [hsd] at hmem
      rw [hhs]
      rcases mem_addHosts hmem with hold | ⟨base, hbs, hhst⟩
      · exact (hs.seeded host hold).cons _
      rcases mem_cons.mp hbs with rfl | hbs
      · exact hsdi cloud (.inl rfl) target.cloud (by simp)
          (fun stored h => (hok stored h).1) host hhst
      rw [mem_singleton.mp hbs] at hhst
      exact hsdi lan (.inr rfl) target.lan (by simp)
        (fun stored h => (hok stored h).2) host hhst
    allowed := by
      intro entry hmem
      rw [seedFromResolveBackend] at hmem ⊢
      rw [hal] at hmem
      rw [hhs]
      exact hs.allowed entry hmem
    requests := by
      rw [seedFromResolveBackend]
      rw [hhs]
      exact ⟨fun site heq => (by cases heq), hs.requests⟩ }

/-! ## Selecting -/

theorem staysOn_empty {healthPath : Text} : StaysOn surface healthPath (.text []) := by
  intro b site hbs hne
  exact absurd (Field.text.inj hbs).symm hne

theorem inv_select {force : Bool} {now : Int} (hs : Inv surface s)
    (hok : CacheHarmless surface s (.select force now)) :
    Inv surface (selectEndpoint surface s force now) := by
  rw [selectEndpoint]
  split
  · exact hs
  rename_i hold
  split
  · exact hs
  rename_i hsel
  have hsls : Selects s force now := by
    refine ⟨?_, by simpa using hsel⟩
    simp only [Bool.and_eq_true, Bool.not_eq_true', decide_eq_true_eq] at hold
    by_cases hat : s.selectedAt = 0
    · exact .inr (.inl hat)
    cases force with
    | true => exact .inl rfl
    | false => exact .inr (.inr (Int.not_lt.mp fun hlt => hold ⟨⟨rfl, hat⟩, hlt⟩))
  have hres : Inv surface (resolveEndpoints surface s) := inv_keepPair hs
  obtain ⟨-, -, hpt, -, hpr⟩ := keepPair_fields
  have hprb : ∀ selecting, Inv surface
      { resolveEndpoints surface s with selecting := selecting } :=
    fun selecting => ⟨hres.seeded, hres.allowed, hres.requests⟩
  refine inv_record (hprb _) fun site hst => ?_
  obtain ⟨base, hbs, hrq⟩ := mem_filterMap.mp hst
  refine allowed_of_probeRequest hres ?_ hrq
  rw [resolveEndpoints, hpr] at hbs
  rw [resolveEndpoints, hpt]
  exact hok hsls base hbs

/-! ## Every run -/

theorem inv_configure (hs : Inv surface s) : Inv surface (configure s opts) := by
  rw [configure]
  cases opts.allowedProbeHosts with
  | none => exact ⟨hs.seeded, hs.allowed, hs.requests⟩
  | some hosts =>
    exact {
      seeded := fun host hmem => (hs.seeded host hmem).cons _
      allowed := fun entry hmem => (mem_filter.mp hmem).1
      requests := ⟨fun site heq => (by cases heq), hs.requests⟩ }

theorem inv_step (hs : Inv surface s) (hok : CacheHarmless surface s action)
    (h : step surface s action = some s') :
    Inv surface s' := by
  cases action with
  | configure opts =>
    cases h
    exact inv_configure hs
  | seed target =>
    cases target with
    | none =>
      cases h
      exact hs
    | some target =>
      cases h
      exact inv_seed hs hok
  | resolve =>
    cases h
    exact inv_keepPair hs
  | select force now =>
    cases h
    exact inv_select hs hok
  | finish answered now =>
    obtain ⟨bases, -, hs'⟩ := Option.map_eq_some_iff.mp h
    rw [← hs']
    exact ⟨hs.seeded, hs.allowed, hs.requests⟩
  | probe base =>
    cases h
    refine inv_record hs fun site hst => ?_
    exact allowed_of_probeRequest hs hok (Option.mem_toList.mp hst)
  | invalidate | tamper key value =>
    cases h
    exact ⟨hs.seeded, hs.allowed, hs.requests⟩

theorem inv_reachable (h : (endpoints surface).Reachable (CacheHarmless surface) s) :
    Inv surface s := by
  refine h.invariant (fun s hin => ?_) fun s action s' hs hok hst => inv_step hs hok hst
  obtain ⟨storage, rfl⟩ := hin
  exact ⟨fun host hmem => (by cases hmem), fun entry hmem => (by cases hmem), trivial⟩

/--
**Requests with credentials go only to trusted places, if the cache is harmless.** In
every run in which no seed takes over an untrusted host from the cache and no base leads
elsewhere with the health path appended, every request that was sent with credentials
went to the page's own origin, or over https to the page's own host, to a host of an
injected or build-time endpoint or of a field of a target seeded before, or to a host
that the `allowedProbeHosts` in force match.
-/
theorem credentialed_requests_trusted (surface : Surface) (s : State)
    (h : (endpoints surface).Reachable (CacheHarmless surface) s) :
    ∀ newer older site, s.history = newer ++ .requested site :: older →
      Allowed surface older site := by
  intro newer older site hhs
  have hrq := (inv_reachable h).requests
  rw [hhs] at hrq
  exact hrq.past site rfl

/-! ## A page -/

def sampleParse (s : Text) : Option Site :=
  let on (rest : Text) : Option Site :=
    let host := rest.takeWhile (· ≠ 0x2F)
    if host = [] then none
    else some ⟨literal "https:", host, literal "https://" ++ host⟩
  if (literal "https://").isPrefixOf s then on (s.drop 8)
  else if (literal "//").isPrefixOf s then on (s.drop 2)
  else if (literal "/").isPrefixOf s then on (literal "app.example")
  else none

def samplePage : Surface where
  pageOrigin := literal "https://app.example"
  pageHost := literal "app.example"
  parse := sampleParse
  injected := none
  env := ⟨.text [], .text []⟩

def sampleTarget : BackendTarget :=
  ⟨.text (literal "https://box.vulos.org"), .falsy, none, none⟩

theorem endpoints_reachable_new :
    (endpoints samplePage).Reachable ok (.new fun _ => none) := .init ⟨_, rfl⟩

def boxSite : Site :=
  ⟨literal "https:", literal "box.vulos.org", literal "https://box.vulos.org"⟩

theorem staysOn_box :
    StaysOn samplePage defaultHealthPath (.text (literal "https://box.vulos.org")) := by
  intro b site hb _ hpr
  rw [← Field.text.inj hb] at hpr ⊢
  have hbt : sampleParse (literal "https://box.vulos.org" ++ defaultHealthPath)
      = sampleParse (literal "https://box.vulos.org") := by decide
  exact hbt.symm.trans hpr

def harmlessCheck (s : State) : Action → Bool
  | .seed (some _) => (s.storage s.lsKey).isNone
  | .select _ _ =>
    s.healthPath = defaultHealthPath
      && (selectionBases samplePage s).all fun base =>
        base = .text [] || base = .text (literal "https://box.vulos.org")
  | .probe _ => false
  | _ => true

theorem cacheHarmless_of_check (h : harmlessCheck s action = true) :
    CacheHarmless samplePage s action := by
  cases action with
  | seed target =>
    cases target with
    | none => trivial
    | some target =>
      intro stored hsto
      rw [harmlessCheck, hsto] at h
      exact absurd h false_ne_true
  | select force now =>
    intro _ base hbs
    rw [harmlessCheck, and_eq_true, decide_eq_true_eq, all_eq_true] at h
    rw [h.1]
    have hcs := h.2 base hbs
    rw [or_eq_true, decide_eq_true_eq, decide_eq_true_eq] at hcs
    rcases hcs with rfl | rfl
    · exact staysOn_empty
    · exact staysOn_box
  | probe base => exact absurd h false_ne_true
  | configure opts | resolve | finish answered now | invalidate | tamper key value => trivial

theorem seeded_host_probed :
    ∃ s, (endpoints samplePage).Reachable (CacheHarmless samplePage) s
      ∧ s.history = [.requested boxSite, .seeded sampleTarget]
      ∧ Allowed samplePage [.seeded sampleTarget] boxSite := by
  obtain ⟨s, hrch, hend⟩ := System.Reachable.exists_of_run harmlessCheck
    [.seed (some sampleTarget), .select true 1000]
    (fun s : State => decide (s.history = [.requested boxSite, .seeded sampleTarget]))
    (fun _ _ => cacheHarmless_of_check) endpoints_reachable_new (by decide)
  have hhs := of_decide_eq_true hend
  exact ⟨s, hrch, hhs, credentialed_requests_trusted samplePage s hrch [] _ boxSite hhs⟩

theorem not_allowed (hor : site.origin ≠ literal "https://app.example")
    (hpg : site.host ≠ literal "app.example")
    (hsd : ∀ target, Event.seeded target ∈ history → site.host ∉ target.hosts samplePage)
    (hen : allowedHosts history = []) : ¬ Allowed samplePage history site := by
  intro hal
  rcases hal with horg | ⟨-, htr | ⟨entry, hmem, -⟩⟩
  · exact hor horg
  · rcases htr with hhs | hcn | ⟨target, hmem, hhs⟩
    · exact hpg hhs
    · cases hcn
    · exact hsd target hmem hhs
  · rw [hen] at hmem
    cases hmem

/--
**A poisoned cache sends the credentials elsewhere.** A cached LAN endpoint becomes a
trusted host when a target without a LAN candidate is seeded, and the next selection
probes it. And a cached `/` is on the page's own origin, but with the health path it is
`//api/auth/status`, on the host `api`.
-/
theorem poisoned_cache_widens :
    (∃ s older, (endpoints samplePage).Reachable (fun _ _ => True) s
      ∧ s.history = .requested boxSite :: .requested
        ⟨literal "https:", literal "evil.example", literal "https://evil.example"⟩ :: older
      ∧ ¬ Allowed samplePage older
        ⟨literal "https:", literal "evil.example", literal "https://evil.example"⟩)
    ∧ ∃ s, (endpoints samplePage).Reachable (fun _ _ => True) s
      ∧ s.history = [.requested ⟨literal "https:", literal "api", literal "https://api"⟩]
      ∧ ¬ Allowed samplePage [] ⟨literal "https:", literal "api", literal "https://api"⟩ := by
  constructor
  · obtain ⟨s, hrch, hend⟩ := endpoints_reachable_new.exists_after
      [.tamper defaultLsKey (some ⟨.falsy, .text (literal "https://evil.example")⟩),
        .seed (some sampleTarget), .select true 1000]
      (·.history = [.requested boxSite,
        .requested ⟨literal "https:", literal "evil.example", literal "https://evil.example"⟩,
        .seeded sampleTarget]) (by decide)
    refine ⟨s, _, hrch, hend, ?_⟩
    refine not_allowed (by decide) (by decide) (fun target hmem => ?_) rfl
    rw [Event.seeded.inj (mem_singleton.mp hmem)]
    decide
  · obtain ⟨s, hrch, hend⟩ := endpoints_reachable_new.exists_after
      [.tamper defaultLsKey (some ⟨.text (literal "/"), .falsy⟩), .select true 1000]
      (·.history = [.requested ⟨literal "https:", literal "api", literal "https://api"⟩])
      (by decide)
    refine ⟨s, hrch, hend, ?_⟩
    refine not_allowed (by decide) (by decide) (fun target hmem => ?_) rfl
    cases hmem

end VulosRelay.Client.Endpoints
