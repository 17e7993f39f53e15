import VulosRelay.Server.TokenStore

/-!
# The static token store

The model of `NewStaticTokenStoreWithRevoked` and `staticTokenStore.Authorize`
(`tunnel/server/auth.go`) and of the revoked list (`tunnel/server/revocation.go`). The
grants are taken in the order of the list. Two hashes may lead to one entry, and a later
grant may write to it, so the map holds pointers: numbers, under which the entries stand.

The text of a grant's error is its case; each carries the position of the grant.
-/

namespace VulosRelay.Server

structure Grant where
  token : String
  names : List String
  accountId : String
  previousToken : String
  expiresAt : Int
  deriving DecidableEq

structure GrantEntry where
  names : Finset String
  account : String
  expiresAt : Int
  deriving DecidableEq

inductive GrantError where
  | emptyToken (i : Nat)
  | noNames (i : Nat)
  | conflictingAccount (i : Nat)
  | conflictingExpiry (i : Nat)
  | invalidName (i : Nat)
  | previousEqualsToken (i : Nat)
  | previousBound (i : Nat)
  | noGrants
  deriving DecidableEq

structure StaticStore (κ : Type) where
  byHash : FinMap κ Nat
  entries : FinMap Nat GrantEntry
  next : Nat

def StaticStore.new {κ : Type} : StaticStore κ := ⟨∅, ∅, 0⟩

def settle {α : Type} [DecidableEq α] (blank old new : α) : Option α :=
  if new = blank then some old
  else if old ≠ blank ∧ old ≠ new then none
  else some new

section Build

variable {κ : Type} [DecidableEq κ] (env : TokenEnv κ)

def StaticStore.bind (s : StaticStore κ) (h : κ) (p : Nat) : StaticStore κ :=
  { s with byHash := s.byHash.insert h p }

def StaticStore.entryFor (s : StaticStore κ) (i : Nat) (g : Grant) (h : κ) :
    Except GrantError (StaticStore κ × Nat × GrantEntry) :=
  match s.byHash.lookup h with
  | none =>
    .ok ({ s.bind h s.next with next := s.next + 1 }, s.next,
      ⟨∅, env.trimSpace g.accountId, GoTime.zero⟩)
  | some p =>
    let entry := (s.entries.lookup p).getD ⟨∅, "", GoTime.zero⟩
    match settle "" entry.account (env.trimSpace g.accountId) with
    | none => .error (.conflictingAccount i)
    | some account => .ok (s, p, { entry with account := account })

def addNames (i : Nat) : Finset String → List String → Except GrantError (Finset String)
  | names, [] => .ok names
  | names, n :: rest =>
    if env.normalizeName n = "" then .error (.invalidName i)
    else addNames i (insert (env.normalizeName n) names) rest

def fillEntry (i : Nat) (g : Grant) (entry : GrantEntry) : Except GrantError GrantEntry :=
  match settle GoTime.zero entry.expiresAt g.expiresAt with
  | none => .error (.conflictingExpiry i)
  | some expiresAt =>
    (addNames env i entry.names g.names).map fun names =>
      { entry with names := names, expiresAt := expiresAt }

def StaticStore.bindPrevious (s : StaticStore κ) (i : Nat) (g : Grant) (p : Nat) :
    Except GrantError (StaticStore κ) :=
  let prev := env.trimSpace g.previousToken
  if prev = "" then .ok s
  else if prev = env.trimSpace g.token then .error (.previousEqualsToken i)
  else
    match s.byHash.lookup (env.sha256 prev) with
    | some q =>
      if q ≠ p then .error (.previousBound i) else .ok (s.bind (env.sha256 prev) p)
    | none => .ok (s.bind (env.sha256 prev) p)

def StaticStore.add (s : StaticStore κ) (i : Nat) (g : Grant) : Except GrantError (StaticStore κ) :=
  let tok := env.trimSpace g.token
  if tok = "" then .error (.emptyToken i)
  else if g.names = [] then .error (.noNames i)
  else do
    let (s, p, entry) ← s.entryFor env i g (env.sha256 tok)
    let entry ← fillEntry env i g entry
    { s with entries := s.entries.insert p entry }.bindPrevious env i g p

def StaticStore.addAll : StaticStore κ → Nat → List Grant → Except GrantError (StaticStore κ)
  | s, _, [] => .ok s
  | s, i, g :: rest => (s.add env i g).bind fun s' => s'.addAll (i + 1) rest

def newStaticTokenStore (grants : List Grant) : Except GrantError (StaticStore κ) :=
  (StaticStore.new.addAll env 0 grants).bind fun s =>
    if s.byHash = ∅ then .error .noGrants else .ok s

end Build

structure RevokedList (κ : Type) where
  tokenHashes : Finset κ
  names : Finset String
  accounts : Finset String

inductive StaticAuthError where
  | emptyToken
  | unknownToken
  | nameNotAuthorized (name : String)
  | expired
  | revoked
  deriving DecidableEq

section Authorize

variable {κ : Type} [DecidableEq κ] (env : TokenEnv κ)

def RevokedList.isRevoked (r : RevokedList κ) (token name account : String) : Bool :=
  (account ≠ "" && account ∈ r.accounts)
    || (env.normalizeName name ≠ "" && env.normalizeName name ∈ r.names)
    || (env.trimSpace token ≠ "" && env.sha256 (env.trimSpace token) ∈ r.tokenHashes)

def GrantEntry.expired (e : GrantEntry) (now : Int) : Bool :=
  e.expiresAt ≠ GoTime.zero && e.expiresAt < now

def GrantEntry.authorize (e : GrantEntry) (revoked : RevokedList κ) (now : Int)
    (token name : String) : Except StaticAuthError String :=
  if env.normalizeName name ∉ e.names then .error (.nameNotAuthorized name)
  else if e.expired now then .error .expired
  else if revoked.isRevoked env token name e.account then .error .revoked
  else .ok e.account

def StaticStore.authorize (s : StaticStore κ) (revoked : RevokedList κ) (now : Int)
    (token name : String) : Except StaticAuthError String :=
  let token := env.trimSpace token
  if token = "" then .error .emptyToken
  else
    match (s.byHash.lookup (env.sha256 token)).bind s.entries.lookup with
    | none => .error .unknownToken
    | some e => e.authorize env revoked now token name

end Authorize

end VulosRelay.Server
