import VulosRelay.Lib.JsText
import VulosRelay.Lib.System

/-!
# Endpoint selection of the web client

The model of `client/src/endpoints.js`: the module state, the localStorage entry it reads
and writes, and the requests it sends with credentials. The functions run to their first
`await` without interruption, so a call is one step up to its requests; `selectEndpoint`
ends in a second step, when its probes have been answered.

`new URL` is a parameter of the model, and so is what the page was built and served with.
The contents of localStorage are what `JSON.parse` makes of them; anybody may change them
at any moment (`tamper`), which also stands for a storage that refuses to read or write.
-/

namespace VulosRelay.Client.Endpoints

open JsText

inductive Field where
  | text (s : Text)
  | falsy
  | other
  deriving DecidableEq

namespace Field

def truthy : Field → Bool
  | .text s => s ≠ []
  | .falsy => false
  | .other => true

def or (a b : Field) : Field := if a.truthy then a else b

end Field

structure Pair where
  cloud : Field
  lan : Field
  deriving DecidableEq

structure Site where
  protocol : Text
  host : Text
  origin : Text
  deriving DecidableEq

structure Surface where
  pageOrigin : Text
  pageHost : Text
  /-- `new URL(base, location.href)`, `none` if it throws; `fetch` resolves alike. -/
  parse : Text → Option Site
  injected : Option Pair
  env : Pair

structure Candidate where
  Endpoint : Field
  endpoint : Field
  deriving DecidableEq

structure BackendTarget where
  Endpoint : Field
  endpoint : Field
  LANCandidate : Option Candidate
  lan_candidate : Option Candidate
  deriving DecidableEq

namespace BackendTarget

def cloud (target : BackendTarget) : Field := target.Endpoint.or target.endpoint

def lan (target : BackendTarget) : Field :=
  match target.LANCandidate.or target.lan_candidate with
  | some candidate => candidate.Endpoint.or candidate.endpoint
  | none => .falsy

end BackendTarget

structure Options where
  lsKeyPrefix : Option Text
  healthPath : Option Text
  allowedProbeHosts : Option (List Text)
  deriving DecidableEq

inductive Event where
  | configured (allowedProbeHosts : List Text)
  | seeded (target : BackendTarget)
  | requested (site : Site)
  deriving DecidableEq

structure State where
  lsKey : Text
  healthPath : Text
  allowedProbeHosts : List Text
  seededHosts : List Text
  pair : Pair
  selected : Field
  selectedAt : Int
  /-- The selection in flight: its candidates, and whether each may be reachable. -/
  selecting : Option (List (Field × Bool))
  /-- localStorage, of each key what `JSON.parse` gives if that is an object. -/
  storage : Text → Option Pair
  history : List Event

def defaultLsKey : Text := literal "vulos.relay-client.endpoints.v1"

def defaultHealthPath : Text := literal "/api/auth/status"

def State.new (storage : Text → Option Pair) : State where
  lsKey := defaultLsKey
  healthPath := defaultHealthPath
  allowedProbeHosts := []
  seededHosts := []
  pair := ⟨.text [], .text []⟩
  selected := .text []
  selectedAt := 0
  selecting := none
  storage := storage
  history := []

def configure (s : State) (opts : Options) : State :=
  let renamed := { s with
    lsKey := (opts.lsKeyPrefix.filter (· ≠ [])).getD s.lsKey
    healthPath := (opts.healthPath.filter (· ≠ [])).getD s.healthPath }
  match opts.allowedProbeHosts with
  | some hosts =>
    { renamed with
      allowedProbeHosts := hosts.filter (· ≠ [])
      history := .configured hosts :: s.history }
  | none => renamed

section Guard

variable (surface : Surface)

def parseBase : Field → Option Site
  | .text base => if base = [] then none else surface.parse base
  | _ => none

def sameOrigin (site : Site) : Bool :=
  surface.pageOrigin ≠ [] && site.origin = surface.pageOrigin

def isSafeEndpointScheme (base : Field) : Bool :=
  if base = .text [] then true
  else match parseBase surface base with
    | none => false
    | some site => site.protocol = literal "https:" || sameOrigin surface site

def sanitizeEndpoint (base : Field) : Field :=
  if isSafeEndpointScheme surface base then base else .text []

def hostOf (base : Field) : Option Text :=
  ((parseBase surface base).map Site.host).filter (· ≠ [])

def configuredEndpoints : List Field :=
  match surface.injected with
  | some injected => [injected.cloud, injected.lan, surface.env.cloud, surface.env.lan]
  | none => [surface.env.cloud, surface.env.lan]

def configuredHosts (s : State) : List Text :=
  (configuredEndpoints surface).filterMap (hostOf surface) ++ s.seededHosts

def hostMatches (host entry : Text) : Bool :=
  if host = entry then true
  else if (literal ".").isPrefixOf entry then entry.isSuffixOf host || host = entry.drop 1
  else if (literal "*.").isPrefixOf entry then
    (entry.drop 1).isSuffixOf host || host = entry.drop 2
  else false

def isCredentialedProbeAllowed (s : State) (base : Field) : Bool :=
  if base = .text [] then true
  else match parseBase surface base with
    | none => false
    | some site =>
      if sameOrigin surface site then true
      else if site.protocol ≠ literal "https:" then false
      else if site.host ≠ [] ∧ site.host = surface.pageHost then true
      else (configuredHosts surface s).contains site.host
        || s.allowedProbeHosts.any (hostMatches site.host)

def readCache (s : State) : Option Pair :=
  (s.storage s.lsKey).map fun v =>
    ⟨sanitizeEndpoint surface (v.cloud.or (.text [])),
      sanitizeEndpoint surface (v.lan.or (.text []))⟩

def keepPair (s : State) (pair : Pair) : State :=
  if pair.cloud.truthy || pair.lan.truthy then
    { s with
      pair := pair
      storage := fun key => if key = s.lsKey then some pair else s.storage key }
  else { s with pair := pair }

def resolveSide (side : Pair → Field) (s : State) : Field :=
  ((((surface.injected.map side).getD .falsy).or (side surface.env)).or
    (((readCache surface s).map side).getD .falsy)).or (.text [])

def resolveEndpoints (s : State) : State :=
  keepPair s ⟨resolveSide surface Pair.cloud s, resolveSide surface Pair.lan s⟩

def addHosts (hosts : List Text) (bases : List Field) : List Text :=
  bases.foldl (fun hosts base =>
    match hostOf surface base with
    | some host => if hosts.contains host then hosts else hosts ++ [host]
    | none => hosts) hosts

def seedPair (s : State) (target : BackendTarget) : Pair :=
  let cached := (readCache surface s).getD ⟨.text [], .text []⟩
  ⟨(target.cloud.or cached.cloud).or (.text []), (target.lan.or cached.lan).or (.text [])⟩

def seedFromResolveBackend (s : State) (target : BackendTarget) : State :=
  let pair := seedPair surface s target
  let kept := keepPair s pair
  { kept with
    seededHosts := addHosts surface kept.seededHosts [pair.cloud, pair.lan]
    -- invalidateEndpoint()
    selectedAt := 0
    history := .seeded target :: kept.history }

def probeRequest (s : State) (base : Field) : Option Site :=
  match base with
  | .text b =>
    if b = [] then none
    else if isCredentialedProbeAllowed surface s base then surface.parse (b ++ s.healthPath)
    else none
  | _ => none

def record (s : State) (sites : List Site) : State :=
  { s with history := (sites.map Event.requested).reverse ++ s.history }

def candidates (pair : Pair) : List Field :=
  (if pair.lan.truthy then [pair.lan] else [])
    ++ (if pair.cloud.truthy then [pair.cloud] else []) ++ [.text []]

def revalidateAfter : Int := 30000

def selectEndpoint (s : State) (force : Bool) (now : Int) : State :=
  if !force && s.selectedAt ≠ 0 && now - s.selectedAt < revalidateAfter then s
  else if s.selecting.isSome then s
  else
    let resolved := resolveEndpoints surface s
    let bases := candidates resolved.pair
    let probing := { resolved with
      selecting := some (bases.map fun base =>
        (base, isCredentialedProbeAllowed surface resolved base)) }
    record probing (bases.filterMap (probeRequest surface resolved))

def finishSelect (s : State) (answered : List Bool) (now : Int) : Option State :=
  s.selecting.map fun bases =>
    let winner := (bases.zip answered).find? fun probed => probed.1.2 && probed.2
    { s with
      selected := (winner.map fun probed => probed.1.1).getD (.text [])
      selectedAt := now
      selecting := none }

end Guard

inductive Action where
  | configure (opts : Options)
  | seed (target : Option BackendTarget)
  | resolve
  | select (force : Bool) (now : Int)
  | finish (answered : List Bool) (now : Int)
  | probe (base : Field)
  | invalidate
  | tamper (key : Text) (value : Option Pair)

def step (surface : Surface) (s : State) : Action → Option State
  | .configure opts => some (configure s opts)
  | .seed none => some s
  | .seed (some target) => some (seedFromResolveBackend surface s target)
  | .resolve => some (resolveEndpoints surface s)
  | .select force now => some (selectEndpoint surface s force now)
  | .finish answered now => finishSelect s answered now
  | .probe base => some (record s (probeRequest surface s base).toList)
  | .invalidate => some { s with selectedAt := 0 }
  | .tamper key value =>
    some { s with storage := fun other => if other = key then value else s.storage other }

def endpoints (surface : Surface) : System State Action where
  init := fun s => ∃ storage, s = State.new storage
  step := step surface

end VulosRelay.Client.Endpoints
