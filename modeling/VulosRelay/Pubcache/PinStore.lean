import Mathlib.Data.Multiset.Sort
import Mathlib.Data.Prod.Lex
import Mathlib.Data.String.Basic
import VulosRelay.Lib.FinMap
import VulosRelay.Pubcache.Verify

/-!
# The pin store

The model of `tunnel/pubcache/pin.go` up to its critical sections: the records
and maps, the files on disk, opening a directory, and what each section under
`p.mu` does. How the sections of one `pin` call follow each other, and what may
run between them, is the subject of `Pubcache.Service`.

Keys are the `"kind:addr"` strings of the source. A section returns the new maps
and the file operations it performs, in order, so that the moment of a crash can
be chosen later. Removing a file is taken to succeed, as the source does not look
at the result. The counters that are only reported are left out.
-/

namespace VulosRelay.Pubcache

def storeKeyStr (kind addr : String) : String := kind ++ ":" ++ addr

def parseObjectKind (s : String) : Option Kind :=
  if s = "announce" then some .announce
  else if s = "manifest" then some .manifest
  else if s = "chunk" then some .chunk
  else none

structure ObjPath where
  kind : String
  addr : String
  deriving DecidableEq, Repr

def splitStoreKey (k : String) : Option ObjPath :=
  match k.toList.span (· ≠ ':') with
  | (kind, _ :: addr) =>
    if kind = [] ∨ addr = [] then none else some ⟨String.ofList kind, String.ofList addr⟩
  | (_, []) => none

def objectPath (kind : Kind) (addr : Addr) : ObjPath := ⟨kind.string, addr.string⟩

def pinTmpSuffix : String := ".tmp"

structure PinRecord where
  kind : String
  addr : String
  owner : String
  objects : List String
  bytes : Int
  createdAt : Int
  deriving DecidableEq, Repr

instance : LinearOrder PinRecord :=
  LinearOrder.lift'
    (fun r => toLex (r.kind, toLex (r.addr, toLex (r.owner, toLex (r.objects,
      toLex (r.bytes, r.createdAt))))))
    (by
      rintro ⟨_, _, _, _, _, _⟩ ⟨_, _, _, _, _, _⟩ h
      simp only [EmbeddingLike.apply_eq_iff_eq, Prod.mk.injEq] at h
      obtain ⟨rfl, rfl, rfl, rfl, rfl, rfl⟩ := h
      rfl)

structure PinConfig where
  maxBytes : Int
  maxPinBytes : Int
  maxObjBytes : Int
  maxPins : Int

structure PinStore where
  pins : FinMap String PinRecord
  objects : FinMap String Nat
  verified : Finset String
  bytes : Int
  pending : FinMap String Nat

def PinStore.empty : PinStore := ⟨∅, ∅, ∅, 0, ∅⟩

def recordReferences (rec : PinRecord) (key : String) : Bool := key ∈ rec.objects

def named (pins : FinMap String PinRecord) (key : String) : Bool :=
  FinMap.any (fun _ rec => recordReferences rec key) pins

inductive IndexFile where
  | missing
  | unreadable
  | garbage
  | doc (version : Int) (pins : List (Option PinRecord))
  deriving DecidableEq

structure Disk where
  files : FinMap ObjPath Bytes
  tmps : Finset ObjPath
  index : IndexFile

def freshDir : Disk := ⟨∅, ∅, .missing⟩

inductive DiskOp where
  /-- Create or truncate the temporary file of an object and write into it. -/
  | createTmp (p : ObjPath)
  | removeTmp (p : ObjPath)
  | renameTmp (p : ObjPath) (body : Bytes)
  /-- Remove object files one by one, in the order a map iteration happens to give. -/
  | removeObjects (ps : Multiset ObjPath)
  | replaceIndex (pins : List PinRecord)

def pinIndexVersion : Int := 1

def DiskOp.apply : DiskOp → Disk → Disk
  | .createTmp p, d => { d with tmps := insert p d.tmps }
  | .removeTmp p, d => { d with tmps := d.tmps.erase p }
  | .renameTmp p body, d => { d with tmps := d.tmps.erase p, files := d.files.insert p body }
  | .removeObjects ps, d => { d with files := FinMap.filter (fun p _ => p ∉ ps) d.files }
  | .replaceIndex pins, d => { d with index := .doc pinIndexVersion (pins.map some) }

def Disk.run (d : Disk) (ops : List DiskOp) : Disk := ops.foldl (fun d op => op.apply d) d

inductive WriteOutcome where
  | ok
  /-- The directory or the temporary file could not be made. -/
  | noFile
  /-- A later step failed and the temporary file was removed. -/
  | removed
  /-- A later step failed and so did removing the temporary file. -/
  | left
  deriving DecidableEq

def writeObject (kind : Kind) (addr : Addr) (body : Bytes) : WriteOutcome → List DiskOp
  | .ok => [.createTmp (objectPath kind addr), .renameTmp (objectPath kind addr) body]
  | .noFile => []
  | .removed => [.createTmp (objectPath kind addr), .removeTmp (objectPath kind addr)]
  | .left => [.createTmp (objectPath kind addr)]

def writeIndexLocked (p : PinStore) (ok : Bool) : List DiskOp :=
  if ok then [.replaceIndex (Multiset.sort (p.pins.entries.map Sigma.snd) (· ≤ ·))] else []

def statObject (d : Disk) (obj : String) : Option Nat :=
  match splitStoreKey obj with
  | none => none
  | some path =>
    match parseObjectKind path.kind, parseAddr path.addr with
    | some _, .ok _ => (d.files.lookup path).map List.length
    | _, _ => none

def skipRecord (rec : PinRecord) : Bool :=
  rec.kind = "" ∨ rec.addr = "" ∨ rec.objects = []

def addObject (d : Disk) (p : PinStore) (obj : String) : PinStore :=
  if obj ∈ p.objects then p
  else
    match statObject d obj with
    | none => p
    | some sz => { p with objects := p.objects.insert obj sz, bytes := p.bytes + sz }

def loadRecord (d : Disk) (p : PinStore) : Option PinRecord → PinStore
  | none => p
  | some rec =>
    if skipRecord rec then p
    else if rec.objects.all fun obj => (statObject d obj).isSome then
      rec.objects.foldl (addObject d)
        { p with pins := p.pins.insert (storeKeyStr rec.kind rec.addr) rec }
    else p

def sweepOrphans (p : PinStore) (d : Disk) : Disk :=
  { d with
    files := FinMap.filter (fun path _ => storeKeyStr path.kind path.addr ∈ p.objects) d.files
    tmps := d.tmps.filter fun path =>
      storeKeyStr path.kind (path.addr ++ pinTmpSuffix) ∈ p.objects }

def newPinStore (d : Disk) (mkdirOk indexOk : Bool) : Except GoError (PinStore × Disk) :=
  if mkdirOk then
    match d.index with
    | .missing => .ok (.empty, sweepOrphans .empty d)
    | .unreadable => .error ⟨.io, "read pin index"⟩
    | .garbage => .error ⟨.io, "parse pin index"⟩
    | .doc version recs =>
      if version ≠ pinIndexVersion then
        .error ⟨.pinIndex,
          s!"pin index version {version} is not supported (want {pinIndexVersion})"⟩
      else
        let p := recs.foldl (loadRecord d) .empty
        if indexOk then .ok (p, (sweepOrphans p d).run (writeIndexLocked p true))
        else .error ⟨.io, "write pin index"⟩
  else .error ⟨.io, "pin dir"⟩

def pathsOf (keys : Multiset String) : Multiset ObjPath := keys.filterMap splitStoreKey

def PinStore.live (p : PinStore) (key : String) : Bool :=
  named p.pins key || decide (key ∈ p.pending)

def PinStore.garbage (p : PinStore) : FinMap String Nat :=
  FinMap.filter (fun k _ => !p.live k) p.objects

def reclaimUnreferencedLocked (p : PinStore) : PinStore × List DiskOp :=
  ({ p with
      objects := FinMap.filter (fun k _ => p.live k) p.objects
      verified := p.verified.filter (fun k => k ∉ p.garbage)
      bytes := p.bytes - FinMap.total p.garbage },
   [.removeObjects (pathsOf p.garbage.keys.val)])

def dropObject (p : PinStore) (key : String) : PinStore :=
  match p.objects.lookup key with
  | none => p
  | some sz =>
    { p with
      objects := p.objects.erase key
      verified := p.verified.erase key
      bytes := p.bytes - sz }

def quarantine (p : PinStore) (badKey : String) (indexOk : Bool) : PinStore × List DiskOp :=
  let p := { p with pins := FinMap.filter (fun _ rec => !recordReferences rec badKey) p.pins }
  let p := dropObject p badKey
  let r := reclaimUnreferencedLocked p
  (r.1, .removeObjects (pathsOf {badKey}) :: r.2 ++ writeIndexLocked r.1 indexOk)

def markVerified (p : PinStore) (key : String) : PinStore :=
  { p with verified := insert key p.verified }

def registerObject (p : PinStore) (key : String) (n : Nat) : PinStore :=
  { p with
    objects := p.objects.insert key n
    verified := insert key p.verified
    bytes := p.bytes + n
    pending := p.pending.insert key ((p.pending.lookup key).getD 0 + 1) }

def commitRecord (p : PinStore) (rootKey : String) (rec : PinRecord) (indexOk : Bool) :
    PinStore × List DiskOp :=
  let p := { p with pins := p.pins.insert rootKey rec }
  (p, writeIndexLocked p indexOk)

def rollback (p : PinStore) (wrote : List String) : PinStore × List DiskOp :=
  (wrote.foldl dropObject p, [.removeObjects (pathsOf wrote)])

def releaseKey (pending : FinMap String Nat) (key : String) : FinMap String Nat :=
  if (pending.lookup key).getD 0 ≤ 1 then pending.erase key
  else pending.insert key ((pending.lookup key).getD 0 - 1)

def releasePending (p : PinStore) (wrote : List String) : PinStore :=
  { p with pending := wrote.foldl releaseKey p.pending }

def keyEq (a b : String) : Bool := a = b

def unpin (p : PinStore) (kind : Kind) (addr : Addr) (owner : String) (indexOk : Bool) :
    PinStore × List DiskOp × Except GoError PinRecord :=
  let rootKey := storeKeyStr kind.string addr.string
  match p.pins.lookup rootKey with
  | none => (p, [], .error ⟨.pinNotFound, ""⟩)
  | some rec =>
    if rec.owner ≠ "" ∧ ¬ keyEq rec.owner owner then (p, [], .error ⟨.pinForbidden, ""⟩)
    else
      let r := reclaimUnreferencedLocked { p with pins := p.pins.erase rootKey }
      (r.1, r.2 ++ writeIndexLocked r.1 indexOk,
        if indexOk then .ok rec else .error ⟨.io, "persist pin index"⟩)

end VulosRelay.Pubcache
