import VulosRelay.Pubcache.Service

/-!
# Crashes

What a crash leaves of the file operations of one step. A step performs its
operations in order, so a crash leaves the directory as some of them have made
it. Creating, removing and renaming a file happen at once. Removing several
objects happens one by one, in an order nobody fixed, so any part of them may be
gone. The bytes that reached a temporary file do not matter, because nothing ever
reads one.
-/

namespace VulosRelay.Pubcache

/-- `Torn d ops d'`: a crash while `ops` are performed on `d` can leave `d'`. -/
inductive Torn : Disk → List DiskOp → Disk → Prop where
  | here {d : Disk} {ops : List DiskOp} : Torn d ops d
  | later {d d' : Disk} {op : DiskOp} {ops : List DiskOp} :
      Torn (op.apply d) ops d' → Torn d (op :: ops) d'
  | partWay {d : Disk} {ps ps' : Multiset ObjPath} {ops : List DiskOp} : ps' ≤ ps →
      Torn d (.removeObjects ps :: ops) ((DiskOp.removeObjects ps').apply d)

def lookupOps (env : Env) (kind : Kind) (addr : Addr) (sv : Service) : LookupPc → List DiskOp
  | .quarantine => (quarantine sv.pins (storeKeyStr kind.string addr.string) env.indexOk).2
  | _ => []

def turnOps (cfg : Config) (env : Env) (sv : Service) (t : PinThread) : List DiskOp :=
  match t.op.wanted with
  | none => (pinStep cfg env sv.pins t.op none).ops
  | some (kind, addr) =>
    match t.lookup.returned with
    | some got => (pinStep cfg env sv.pins t.op got).ops
    | none => lookupOps env kind addr sv t.lookup

def Sys.ops (cfg : Config) (s : Sys) : Act → List DiskOp
  | .reader r env =>
    match s.readers r with
    | none => []
    | some rd => lookupOps env rd.kind rd.addr s.svc rd.pc
  | .pinTurn env =>
    match s.pin with
    | none => []
    | some t => turnOps cfg env s.svc t
  | .unpin kind addr owner env =>
    match s.pin with
    | some _ => []
    | none => (unpin s.svc.pins kind addr owner env.indexOk).2.1
  | _ => []

def Act.isCall : Act → Bool
  | .pin .. | .pinTurn _ | .unpin .. => true
  | _ => false

def Sys.steps (cfg : Config) : Sys → List Act → Option Sys
  | s, [] => some s
  | s, a :: as => (Sys.step cfg s a).bind fun s' => Sys.steps cfg s' as

/-- A crash in one pin or unpin that begins in `s₀`: the root it is about, and the directory. -/
inductive Crash (cfg : Config) (s₀ : Sys) : String → Disk → Prop where
  /-- In a pin, after some of its turns and during the next. -/
  | pin {s : Sys} {d : Disk} (kind : Kind) (addr : Addr) (owner : String) (envs : List Env)
      (env : Env) :
      Sys.steps cfg s₀ (.pin kind addr owner :: envs.map .pinTurn) = some s →
      Torn s.svc.disk (Sys.ops cfg s (.pinTurn env)) d →
      Crash cfg s₀ (storeKeyStr kind.string addr.string) d
  | unpin {d : Disk} (kind : Kind) (addr : Addr) (owner : String) (env : Env) :
      Torn s₀.svc.disk (Sys.ops cfg s₀ (.unpin kind addr owner env)) d →
      Crash cfg s₀ (storeKeyStr kind.string addr.string) d

/-- An unused directory, or what a number of crashes have left of one. -/
def LeftBy (cfg : Config) : Nat → Disk → Prop
  | 0, d => d = freshDir
  | n + 1, d => ∃ s₀ root, (system cfg fun d _ => LeftBy cfg n d).Reachable
      (fun _ a => a.isCall = true) s₀ ∧ s₀.pin = none ∧ Crash cfg s₀ root d

end VulosRelay.Pubcache
