import VulosRelay.Lib.FinMap
import VulosRelay.Lib.GoTime
import VulosRelay.Lib.System
import VulosRelay.Server.CPClient

/-!
# The token store of the control plane

The model of `CPTokenStore.Authorize` (`tunnel/server/cpclient.go`) and of `normalizeName`
(`tunnel/server/auth.go`) under concurrent calls, with the same steps as the entitlement
gate: a section under the mutex, the beginning of a request, its answer. `TrimSpace`,
`ToLower` and SHA-256 are the library's. A name is examined character by character: a
character that is not ASCII fails the test, as each of its bytes does.

The history lists, latest first, what has been answered, observed to be revoked and
returned. A read carries along how often the token had been seen revoked when it began.
-/

namespace VulosRelay.Server

structure TokenEnv (κ : Type) where
  trimSpace : String → String
  toLower : String → String
  sha256 : String → κ

def nameChar (c : Char) : Bool :=
  ('a' ≤ c && c ≤ 'z') || ('0' ≤ c && c ≤ '9') || c == '-'

def TokenEnv.normalizeName {κ : Type} (env : TokenEnv κ) (name : String) : String :=
  let name := env.toLower (env.trimSpace name)
  if name = "" ∨ 63 < name.utf8ByteSize then ""
  else if name.toList.all nameChar = false then ""
  else if name.toList.head? = some '-' ∨ name.toList.getLast? = some '-' then ""
  else name

structure TokenEntry where
  account : String
  names : Finset String
  expires : Int

inductive AuthError where
  | emptyToken
  | invalidName
  | nameNotAuthorized (name : String)
  | credentialRevoked
  | validationFailed
  | unknownCredential
  deriving DecidableEq, Repr

inductive TokenEvent where
  /-- `Authorize` has returned for a token, trimmed, and a name. -/
  | returned (token name : String) (result : Except AuthError String)
  /-- The control plane has answered a read that began after so many revokes. -/
  | answered (token : String) (revokes : Nat) (resp : CPResponse)
  | revoked (token : String)
  deriving DecidableEq

inductive TokenPc where
  | lookup
  | read
  | waiting (revokes : Nat)
  | got (revokes : Nat) (resp : CPResponse)
  deriving DecidableEq

structure TokenThread where
  token : String
  name : String
  pc : TokenPc
  deriving DecidableEq

structure TokenState (κ : Type) where
  cache : FinMap κ TokenEntry
  threads : FinMap Nat TokenThread
  calls : Nat
  history : List TokenEvent

def TokenState.new {κ : Type} : TokenState κ := ⟨∅, ∅, 0, []⟩

def revokes (token : String) (history : List TokenEvent) : Nat :=
  history.countP fun e => e = .revoked token

inductive TokenAct where
  | authorize (token name : String)
  /-- The next section of a call, with its readings of the clock. -/
  | run (thread : Nat) (now now' : Int)
  | answer (thread : Nat) (resp : CPResponse)

def newCPTokenStore (ttl : Int) : Int := if ttl ≤ 0 then 60 * GoTime.second else ttl

namespace TokenState

variable {κ : Type} [DecidableEq κ] (env : TokenEnv κ) (ttl : Int) (s : TokenState κ)

def authorizedNames (ent : Entitlement) : Finset String :=
  ((ent.authorizedRelayNames.map env.normalizeName).filter fun n => n ≠ "").toFinset

def bind (t : TokenThread) (account : String) (names : Finset String) : Except AuthError String :=
  if env.normalizeName t.name ∈ names then .ok account else .error (.nameNotAuthorized t.name)

def setPc (n : Nat) (t : TokenThread) (pc : TokenPc) : TokenState κ :=
  { s with threads := s.threads.insert n { t with pc := pc } }

def finish (n : Nat) (t : TokenThread) (result : Except AuthError String) : TokenState κ :=
  { s with
    threads := s.threads.erase n
    history := .returned t.token t.name result :: s.history }

def cleanup (cache : FinMap κ TokenEntry) (now : Int) : FinMap κ TokenEntry :=
  if 4096 < FinMap.size cache then FinMap.filter (fun _ e => ¬ e.expires < now) cache else cache

def store (n : Nat) (t : TokenThread) (resp : CPResponse) (now now' : Int) : TokenState κ :=
  match entitlementForCredential resp with
  | .error .credentialRevoked =>
    { s with
      cache := s.cache.erase (env.sha256 t.token)
      history := .revoked t.token :: s.history }.finish n t (.error .credentialRevoked)
  | .error .other => s.finish n t (.error .validationFailed)
  | .ok ent =>
    if ent.accountId = "" then s.finish n t (.error .unknownCredential)
    else
      let names := authorizedNames env ent
      { s with
        cache := cleanup
          (s.cache.insert (env.sha256 t.token) ⟨ent.accountId, names, now + ttl⟩)
          now' }.finish n t (bind env t ent.accountId names)

def advance (n : Nat) (t : TokenThread) (now now' : Int) : Option (TokenState κ) :=
  match t.pc with
  | .lookup =>
    match (s.cache.lookup (env.sha256 t.token)).filter fun e => now < e.expires with
    | some e => some (s.finish n t (bind env t e.account e.names))
    | none => some (s.setPc n t .read)
  | .read => some (s.setPc n t (.waiting (revokes t.token s.history)))
  | .waiting _ => none
  | .got _ resp => some (s.store env ttl n t resp now now')

def authorize (token name : String) : TokenState κ :=
  let token := env.trimSpace token
  if token = "" then
    { s with history := .returned token name (.error .emptyToken) :: s.history }
  else if env.normalizeName name = "" then
    { s with history := .returned token name (.error .invalidName) :: s.history }
  else
    { s with threads := s.threads.insert s.calls ⟨token, name, .lookup⟩, calls := s.calls + 1 }

def step : TokenAct → Option (TokenState κ)
  | .authorize token name => some (s.authorize env token name)
  | .run n now now' => (s.threads.lookup n).bind fun t => s.advance env ttl n t now now'
  | .answer n resp =>
    match s.threads.lookup n with
    | some t =>
      match t.pc with
      | .waiting m =>
        some { s.setPc n t (.got m resp) with
          history := .answered t.token m resp :: s.history }
      | _ => none
    | none => none

end TokenState

def tokenStore {κ : Type} [DecidableEq κ] (env : TokenEnv κ) (ttl : Int) :
    System (TokenState κ) TokenAct where
  init s := s = .new
  step := TokenState.step env ttl

end VulosRelay.Server
