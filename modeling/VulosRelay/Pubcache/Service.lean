import VulosRelay.Lib.System
import VulosRelay.Pubcache.PinStore
import VulosRelay.Pubcache.Store

/-!
# Lookups, pins and what may run between them

The model of `Service.lookup`, `pinStore.get`, `pinStore.pin` and `pinSource` as
programs that run next to each other. A program is cut where another one can
observe it: at every critical section of `p.mu` or `s.mu` and at every access to
a file. Between two cuts it only computes.

Any number of lookups run at once. `opMu` lets one pin or unpin run at a time;
an unpin holds both locks from beginning to end, so it is one step. Disk errors,
upstream answers and the clock are inputs of a step, and so is a change to the
bytes of an object file by someone else.
-/

namespace VulosRelay.Pubcache

structure Env where
  readFails : Bool := false
  upstream : Option Bytes := none
  now : Int := 0
  write : WriteOutcome := .ok
  indexOk : Bool := true

structure Config where
  blake3 : Bytes → Digest
  pin : PinConfig
  store : StoreConfig

structure Service where
  pins : PinStore
  disk : Disk
  store : Store

def Service.enter (sv : Service) (r : PinStore × List DiskOp) : Service :=
  { sv with pins := r.1, disk := sv.disk.run r.2 }

inductive LookupPc where
  | check
  | read (alreadyVerified : Bool)
  | quarantine
  | mark (body : Bytes)
  | cache
  | upstream
  | put (body : Bytes)
  | done (result : Option Bytes)
  deriving DecidableEq

def LookupPc.returned : LookupPc → Option (Option Bytes)
  | .done result => some result
  | _ => none

def lookupStep (cfg : Config) (env : Env) (kind : Kind) (addr : Addr) (sv : Service) :
    LookupPc → Service × LookupPc
  | .check =>
    let key := storeKeyStr kind.string addr.string
    if key ∈ sv.pins.objects then (sv, .read (decide (key ∈ sv.pins.verified)))
    else (sv, .cache)
  | .read alreadyVerified =>
    match if env.readFails then none else sv.disk.files.lookup (objectPath kind addr) with
    | none => (sv, .quarantine)
    | some body =>
      if alreadyVerified then (sv, .done (some body))
      else
        match verify cfg.blake3 kind addr body with
        | .error _ => (sv, .quarantine)
        | .ok _ => (sv, .mark body)
  | .quarantine =>
    (sv.enter (quarantine sv.pins (storeKeyStr kind.string addr.string) env.indexOk), .cache)
  | .mark body =>
    ({ sv with pins := markVerified sv.pins (storeKeyStr kind.string addr.string) },
      .done (some body))
  | .cache =>
    let r := sv.store.get cfg.store env.now (cacheKey kind addr)
    match r.2 with
    | some found => ({ sv with store := r.1 }, .done (some found.1))
    | none => ({ sv with store := r.1 }, .upstream)
  | .upstream =>
    match env.upstream with
    | none => (sv, .done none)
    | some body =>
      match verify cfg.blake3 kind addr body with
      | .error _ => (sv, .done none)
      | .ok _ => (sv, .put body)
  | .put body =>
    ({ sv with store := sv.store.put cfg.store env.now (cacheKey kind addr) body },
      .done (some body))
  | .done result => (sv, .done result)

structure Want where
  kind : Kind
  addr : Addr
  body : Option Bytes

def Want.key (w : Want) : String := storeKeyStr w.kind.string w.addr.string

inductive PinPc where
  | start
  | root
  | next
  | fetch (w : Want)
  /-- The body is in hand: verify it and check the budgets. -/
  | gate (w : Want) (body : Bytes)
  | write (w : Want) (body : Bytes)
  | register (w : Want) (n : Nat)
  | commit
  | undo (err : GoError)
  | rollback (err : GoError)
  | release (result : Except GoError PinRecord)

structure PinOp where
  kind : Kind
  addr : Addr
  owner : String
  pc : PinPc
  set : List Want
  objects : List String
  wrote : List String
  pinBytes : Int

def PinOp.rootKey (op : PinOp) : String := storeKeyStr op.kind.string op.addr.string

def PinOp.begin (kind : Kind) (addr : Addr) (owner : String) : PinOp :=
  { kind := kind, addr := addr, owner := owner, pc := .start, set := [], objects := [],
    wrote := [], pinBytes := 0 }

def dedupChunks : List Addr → List Addr → List Addr
  | _, [] => []
  | seen, c :: rest =>
    if c ∈ seen then dedupChunks seen rest else c :: dedupChunks (c :: seen) rest

def wantSet (blake3 : Bytes → Digest) (kind : Kind) (addr : Addr) (rootBody : Bytes) :
    Except GoError (List Want) :=
  let root : Want := { kind := kind, addr := addr, body := some rootBody }
  if kind = .manifest then
    (verifiedManifestChunks blake3 addr rootBody).bind fun chunks =>
      .ok (root :: (dedupChunks [] chunks).map fun c => { kind := .chunk, addr := c, body := none })
  else .ok [root]

def gateCheck (cfg : Config) (p : PinStore) (op : PinOp) (w : Want) (body : Bytes) :
    Except GoError Unit :=
  match verify cfg.blake3 w.kind w.addr body with
  | .error e =>
    .error ⟨e.sentinel, s!"refusing to persist unverified object {w.addr.string}: {e.text}"⟩
  | .ok _ =>
    if cfg.pin.maxObjBytes > 0 ∧ (body.length : Int) > cfg.pin.maxObjBytes then
      .error ⟨.pinBudget, s!"object {w.addr.string} is {body.length} bytes "
        ++ s!"(per-object max {cfg.pin.maxObjBytes})"⟩
    else if cfg.pin.maxPinBytes > 0 ∧ op.pinBytes + body.length > cfg.pin.maxPinBytes then
      .error ⟨.pinBudget, s!"pin exceeds the per-pin max of {cfg.pin.maxPinBytes} bytes"⟩
    else if cfg.pin.maxBytes > 0 ∧ p.bytes + body.length > cfg.pin.maxBytes then
      .error ⟨.pinBudget, s!"{p.bytes} of {cfg.pin.maxBytes} bytes used, "
        ++ s!"this pin needs {body.length} more"⟩
    else .ok ()

def PinOp.record (op : PinOp) (now : Int) : PinRecord :=
  { kind := op.kind.string, addr := op.addr.string, owner := op.owner, objects := op.objects,
    bytes := op.pinBytes, createdAt := now }

structure PinStep where
  pins : PinStore
  ops : List DiskOp
  next : PinOp ⊕ Except GoError PinRecord

def PinStep.quiet (p : PinStore) (op : PinOp) : PinStep := ⟨p, [], .inl op⟩

def pinStep (cfg : Config) (env : Env) (p : PinStore) (op : PinOp) (got : Option Bytes) : PinStep :=
  match op.pc with
  | .start =>
    match p.pins.lookup op.rootKey with
    | some existing => ⟨p, [], .inr (.ok existing)⟩
    | none =>
      if cfg.pin.maxPins > 0 ∧ (FinMap.size p.pins : Int) ≥ cfg.pin.maxPins then
        ⟨p, [], .inr (.error ⟨.pinBudget,
          s!"already holding {FinMap.size p.pins} pins (max {cfg.pin.maxPins})"⟩)⟩
      else .quiet p { op with pc := .root }
  | .root =>
    match got with
    | none => ⟨p, [], .inr (.error ⟨.notServed, ""⟩)⟩
    | some body =>
      match wantSet cfg.blake3 op.kind op.addr body with
      | .error e => ⟨p, [], .inr (.error e)⟩
      | .ok set => .quiet p { op with pc := .next, set := set }
  | .next =>
    match op.set with
    | [] => .quiet p { op with pc := .commit }
    | w :: rest =>
      match p.objects.lookup w.key with
      | some sz =>
        .quiet p { op with
          set := rest, objects := op.objects ++ [w.key], pinBytes := op.pinBytes + sz }
      | none =>
        match w.body with
        | some body => .quiet p { op with set := rest, pc := .gate w body }
        | none => .quiet p { op with set := rest, pc := .fetch w }
  | .fetch w =>
    match got with
    | none =>
      .quiet p { op with
        pc := .rollback ⟨.notServed, s!"pin {op.addr.string}: chunk {w.addr.string}"⟩ }
    | some body => .quiet p { op with pc := .gate w body }
  | .gate w body =>
    match gateCheck cfg p op w body with
    | .error e => .quiet p { op with pc := .rollback e }
    | .ok _ => .quiet p { op with pc := .write w body }
  | .write w body =>
    ⟨p, writeObject w.kind w.addr body env.write,
      .inl (if env.write = .ok then { op with pc := .register w body.length }
        else { op with pc := .rollback ⟨.io, "pin object"⟩ })⟩
  | .register w n =>
    .quiet (registerObject p w.key n)
      { op with
        pc := .next, objects := op.objects ++ [w.key], wrote := op.wrote ++ [w.key],
        pinBytes := op.pinBytes + n }
  | .commit =>
    let record := op.record env.now
    let r := commitRecord p op.rootKey record env.indexOk
    ⟨r.1, r.2,
      .inl (if env.indexOk then { op with pc := .release (.ok record) }
        else { op with pc := .undo ⟨.io, "persist pin index"⟩ })⟩
  | .undo e =>
    .quiet { p with pins := p.pins.erase op.rootKey } { op with pc := .rollback e }
  | .rollback e =>
    let r := rollback p op.wrote
    ⟨r.1, r.2, .inl { op with pc := .release (.error e) }⟩
  | .release result => ⟨releasePending p op.wrote, [], .inr result⟩

structure Reader where
  kind : Kind
  addr : Addr
  pc : LookupPc

structure PinThread where
  op : PinOp
  lookup : LookupPc

def PinOp.wanted (op : PinOp) : Option (Kind × Addr) :=
  match op.pc with
  | .root => some (op.kind, op.addr)
  | .fetch w => some (w.kind, w.addr)
  | _ => none

structure Served where
  kind : Kind
  addr : Addr
  body : Bytes
  deriving DecidableEq

structure Sys where
  svc : Service
  readers : Nat → Option Reader
  pin : Option PinThread
  served : List Served

structure PinTurn where
  svc : Service
  next : PinThread ⊕ Except GoError PinRecord
  served : List Served

def pinOwn (cfg : Config) (env : Env) (sv : Service) (op : PinOp) (got : Option Bytes)
    (log : List Served) : PinTurn :=
  let r := pinStep cfg env sv.pins op got
  { svc := sv.enter (r.pins, r.ops)
    next := r.next.map (fun op => ⟨op, .check⟩) id
    served := log }

def pinTurn (cfg : Config) (env : Env) (sv : Service) (t : PinThread) : PinTurn :=
  match t.op.wanted with
  | none => pinOwn cfg env sv t.op none []
  | some (kind, addr) =>
    match t.lookup.returned with
    | some none => pinOwn cfg env sv t.op none []
    | some (some body) => pinOwn cfg env sv t.op (some body) [⟨kind, addr, body⟩]
    | none =>
      let r := lookupStep cfg env kind addr sv t.lookup
      { svc := r.1, next := .inl { t with lookup := r.2 }, served := [] }

def pinTurns (cfg : Config) : List Env → Service → PinThread →
    Option (Service × Except GoError PinRecord)
  | [], _, _ => none
  | env :: envs, sv, t =>
    let turn := pinTurn cfg env sv t
    match turn.next with
    | .inl t' => pinTurns cfg envs turn.svc t'
    | .inr result => some (turn.svc, result)

def pinAlone (cfg : Config) (envs : List Env) (sv : Service) (kind : Kind) (addr : Addr)
    (owner : String) : Option (Service × Except GoError PinRecord) :=
  pinTurns cfg envs sv ⟨PinOp.begin kind addr owner, .check⟩

inductive Act where
  | request (r : Nat) (kind : Kind) (addr : Addr)
  | reader (r : Nat) (env : Env)
  | pin (kind : Kind) (addr : Addr) (owner : String)
  | pinTurn (env : Env)
  | unpin (kind : Kind) (addr : Addr) (owner : String) (env : Env)
  | tamper (kind : Kind) (addr : Addr) (body : Bytes)

def pinnable (kind : Kind) : Bool := kind ≠ .chunk

def Sys.step (cfg : Config) (s : Sys) : Act → Option Sys
  | .request r kind addr =>
    match s.readers r with
    | some _ => none
    | none => some { s with readers := Function.update s.readers r (some ⟨kind, addr, .check⟩) }
  | .reader r env =>
    match s.readers r with
    | none => none
    | some rd =>
      match rd.pc.returned with
      | some none => some { s with readers := Function.update s.readers r none }
      | some (some body) =>
        some { s with
          readers := Function.update s.readers r none
          served := s.served ++ [⟨rd.kind, rd.addr, body⟩] }
      | none =>
        let step := lookupStep cfg env rd.kind rd.addr s.svc rd.pc
        some { s with
          svc := step.1
          readers := Function.update s.readers r (some { rd with pc := step.2 }) }
  | .pin kind addr owner =>
    match s.pin with
    | some _ => none
    | none =>
      if pinnable kind then
        some { s with pin := some ⟨PinOp.begin kind addr owner, .check⟩ }
      else none
  | .pinTurn env =>
    match s.pin with
    | none => none
    | some t =>
      let turn := pinTurn cfg env s.svc t
      some { s with
        svc := turn.svc
        pin := turn.next.getLeft?
        served := s.served ++ turn.served }
  | .unpin kind addr owner env =>
    match s.pin with
    | some _ => none
    | none =>
      if pinnable kind then
        let r := unpin s.svc.pins kind addr owner env.indexOk
        some { s with svc := s.svc.enter (r.1, r.2.1) }
      else none
  | .tamper kind addr body =>
    if objectPath kind addr ∈ s.svc.disk.files then
      some { s with svc := { s.svc with disk := { s.svc.disk with
        files := s.svc.disk.files.insert (objectPath kind addr) body } } }
    else none

def Sys.opened (p : PinStore) (d : Disk) : Sys :=
  { svc := ⟨p, d, .empty⟩, readers := fun _ => none, pin := none, served := [] }

def system (cfg : Config) (dirOk : Disk → PinStore → Prop) : System Sys Act where
  init s := ∃ (d : Disk) (mkdirOk indexOk : Bool) (p : PinStore) (d' : Disk),
    newPinStore d mkdirOk indexOk = .ok (p, d') ∧ dirOk d p ∧ s = Sys.opened p d'
  step := Sys.step cfg

end VulosRelay.Pubcache
