import VulosRelay.Proof.PinSections

/-!
# What one step can do

Everything the invariants of the pin store need to know about a step, said once.
`PinMove` lists the moves of a pin in flight: what it requires, which section it
runs and where it goes. `ViewStep` lists what any step of the whole system does
to the maps, the files and the pin in flight. Lookups appear there only through
the two sections they run, since how far a lookup has come is of no concern to
the store.
-/

namespace VulosRelay.Proof

open VulosRelay.Pubcache Option

/-- One move of a pin: the maps after it, the file operations, and what comes next. -/
inductive PinMove (cfg : Config) (p : PinStore) (op : PinOp) :
    PinStore → List DiskOp → PinOp ⊕ Except GoError PinRecord → Prop where
  | already {rec : PinRecord} : op.pc = .start → p.pins.lookup op.rootKey = some rec →
      PinMove cfg p op p [] (.inr (.ok rec))
  | turnedAway {e : GoError} : op.pc = .start ∨ op.pc = .root →
      PinMove cfg p op p [] (.inr (.error e))
  | accept : op.pc = .start → op.rootKey ∉ p.pins →
      (cfg.pin.maxPins > 0 → (FinMap.size p.pins : Int) < cfg.pin.maxPins) →
      PinMove cfg p op p [] (.inl { op with pc := .root })
  | resolve {body : Bytes} {set : List Want} : op.pc = .root →
      wantSet cfg.blake3 op.kind op.addr body = .ok set →
      PinMove cfg p op p [] (.inl { op with pc := .next, set := set })
  | full : op.pc = .next → op.set = [] →
      PinMove cfg p op p [] (.inl { op with pc := .commit, set := [] })
  | share {w : Want} {rest : List Want} {sz : Nat} : op.pc = .next → op.set = w :: rest →
      p.objects.lookup w.key = some sz →
      PinMove cfg p op p [] (.inl { op with
        pc := .next, set := rest, objects := op.objects ++ [w.key],
        pinBytes := op.pinBytes + sz })
  /-- An object that is not held has to be fetched, unless its body is in hand. -/
  | acquire {w : Want} {rest : List Want} {pc : PinPc} : op.pc = .next → op.set = w :: rest →
      w.key ∉ p.objects → pc = .fetch w ∨ (∃ body, pc = .gate w body) →
      PinMove cfg p op p [] (.inl { op with set := rest, pc := pc })
  | fetched {w : Want} {body : Bytes} : op.pc = .fetch w →
      PinMove cfg p op p [] (.inl { op with pc := .gate w body })
  | pass {w : Want} {body : Bytes} : op.pc = .gate w body →
      verify cfg.blake3 w.kind w.addr body = .ok () →
      (cfg.pin.maxBytes > 0 → p.bytes + body.length ≤ cfg.pin.maxBytes) →
      PinMove cfg p op p [] (.inl { op with pc := .write w body })
  | written {w : Want} {body : Bytes} : op.pc = .write w body →
      PinMove cfg p op p (writeObject w.kind w.addr body .ok)
        (.inl { op with pc := .register w body.length })
  /-- Fetching, the gate or the write failed; no object file has changed. -/
  | fail {w : Want} {ops : List DiskOp} {e : GoError} :
      op.pc = .fetch w ∨ (∃ body, op.pc = .gate w body ∨ op.pc = .write w body) →
      ops = [] ∨ (∃ body outcome, outcome ≠ .ok ∧ ops = writeObject w.kind w.addr body outcome) →
      PinMove cfg p op p ops (.inl { op with pc := .rollback e })
  | register {w : Want} {n : Nat} : op.pc = .register w n →
      PinMove cfg p op (registerObject p w.key n) []
        (.inl { op with
          pc := .next, objects := op.objects ++ [w.key], wrote := op.wrote ++ [w.key],
          pinBytes := op.pinBytes + n })
  | commit {now : Int} : op.pc = .commit →
      PinMove cfg p op (commitRecord p op.rootKey (op.record now) true).1
        (commitRecord p op.rootKey (op.record now) true).2
        (.inl { op with pc := .release (.ok (op.record now)) })
  | commitFail {now : Int} {e : GoError} : op.pc = .commit →
      PinMove cfg p op (commitRecord p op.rootKey (op.record now) false).1 []
        (.inl { op with pc := .undo e })
  | undo {e : GoError} : op.pc = .undo e →
      PinMove cfg p op { p with pins := p.pins.erase op.rootKey } []
        (.inl { op with pc := .rollback e })
  | rollback {e : GoError} : op.pc = .rollback e →
      PinMove cfg p op (rollback p op.wrote).1 (rollback p op.wrote).2
        (.inl { op with pc := .release (.error e) })
  | release {result : Except GoError PinRecord} : op.pc = .release result →
      PinMove cfg p op (releasePending p op.wrote) [] (.inr result)

theorem gateCheck_eq_ok (h : gateCheck cfg p op w body = .ok ()) :
    verify cfg.blake3 w.kind w.addr body = .ok ()
      ∧ (cfg.pin.maxBytes > 0 → p.bytes + body.length ≤ cfg.pin.maxBytes) := by
  unfold gateCheck at h
  split at h
  · simp at h
  rename_i hv
  split at h
  · simp at h
  split at h
  · simp at h
  split at h
  · simp at h
  rename_i hrm
  refine ⟨hv, fun hpos => ?_⟩
  rw [not_and] at hrm
  exact Int.not_lt.mp (hrm hpos)

theorem pinStep_move (cfg : Config) (env : Env) (p : PinStore) (op : PinOp) (got : Option Bytes) :
    PinMove cfg p op (pinStep cfg env p op got).pins (pinStep cfg env p op got).ops
      (pinStep cfg env p op got).next := by
  unfold pinStep
  cases hpc : op.pc with
  | start =>
    cases hrt : p.pins.lookup op.rootKey with
    | some rec => exact .already hpc hrt
    | none =>
      dsimp only
      split
      · exact .turnedAway (.inl hpc)
      rename_i hcap
      refine .accept hpc (Finmap.lookup_eq_none.mp hrt) fun hpos => ?_
      rw [not_and] at hcap
      exact Int.not_le.mp (hcap hpos)
  | root =>
    cases got with
    | none => exact .turnedAway (.inr hpc)
    | some body =>
      dsimp only
      cases hset : wantSet cfg.blake3 op.kind op.addr body with
      | error e => exact .turnedAway (.inr hpc)
      | ok set => exact .resolve hpc hset
  | next =>
    cases hset : op.set with
    | nil => exact .full hpc hset
    | cons w rest =>
      dsimp only
      cases hobj : p.objects.lookup w.key with
      | some sz => exact .share hpc hset hobj
      | none =>
        have habs := Finmap.lookup_eq_none.mp hobj
        dsimp only
        cases w.body with
        | some body => exact .acquire hpc hset habs (.inr ⟨body, rfl⟩)
        | none => exact .acquire hpc hset habs (.inl rfl)
  | fetch w =>
    cases got with
    | none => exact .fail (.inl hpc) (.inl rfl)
    | some body => exact .fetched hpc
  | gate w body =>
    dsimp only
    cases hgt : gateCheck cfg p op w body with
    | error e => exact .fail (.inr ⟨body, .inl hpc⟩) (.inl rfl)
    | ok u =>
      obtain ⟨hv, hrm⟩ := gateCheck_eq_ok hgt
      exact .pass hpc hv hrm
  | write w body =>
    dsimp only
    by_cases hok : env.write = .ok
    · rw [if_pos hok, hok]
      exact .written hpc
    · rw [if_neg hok]
      exact .fail (.inr ⟨body, .inr hpc⟩) (.inr ⟨body, env.write, hok, rfl⟩)
  | register w n => exact .register hpc
  | commit =>
    cases hix : env.indexOk with
    | true => exact .commit hpc
    | false => exact .commitFail hpc
  | undo e => exact .undo hpc
  | rollback e => exact .rollback hpc
  | release result => exact .release hpc

/-- The steps of the system, each with what it takes for it to be possible. -/
inductive Taken (cfg : Config) (s : Sys) : Act → Sys → Prop where
  | request {r : Nat} {kind : Kind} {addr : Addr} : s.readers r = none →
      Taken cfg s (.request r kind addr)
        { s with readers := Function.update s.readers r (some ⟨kind, addr, .check⟩) }
  | refused {r : Nat} {env : Env} {rd : Reader} : s.readers r = some rd →
      rd.pc.returned = some none →
      Taken cfg s (.reader r env) { s with readers := Function.update s.readers r none }
  | answered {r : Nat} {env : Env} {rd : Reader} {body : Bytes} : s.readers r = some rd →
      rd.pc.returned = some (some body) →
      Taken cfg s (.reader r env)
        { s with
          readers := Function.update s.readers r none
          served := s.served ++ [⟨rd.kind, rd.addr, body⟩] }
  | lookup {r : Nat} {env : Env} {rd : Reader} : s.readers r = some rd →
      rd.pc.returned = none →
      Taken cfg s (.reader r env)
        { s with
          svc := (lookupStep cfg env rd.kind rd.addr s.svc rd.pc).1
          readers := Function.update s.readers r
            (some { rd with pc := (lookupStep cfg env rd.kind rd.addr s.svc rd.pc).2 }) }
  | pin {kind : Kind} {addr : Addr} {owner : String} : s.pin = none → pinnable kind = true →
      Taken cfg s (.pin kind addr owner)
        { s with pin := some ⟨PinOp.begin kind addr owner, .check⟩ }
  | turn {env : Env} {t : PinThread} : s.pin = some t →
      Taken cfg s (.pinTurn env)
        { s with
          svc := (pinTurn cfg env s.svc t).svc
          pin := (pinTurn cfg env s.svc t).next.getLeft?
          served := s.served ++ (pinTurn cfg env s.svc t).served }
  | unpin {kind : Kind} {addr : Addr} {owner : String} {env : Env} : s.pin = none →
      pinnable kind = true →
      Taken cfg s (.unpin kind addr owner env)
        { s with svc := s.svc.enter ((unpin s.svc.pins kind addr owner env.indexOk).1,
          (unpin s.svc.pins kind addr owner env.indexOk).2.1) }
  | tamper {kind : Kind} {addr : Addr} {body : Bytes} :
      objectPath kind addr ∈ s.svc.disk.files →
      Taken cfg s (.tamper kind addr body)
        { s with svc := { s.svc with disk := { s.svc.disk with
          files := s.svc.disk.files.insert (objectPath kind addr) body } } }

theorem step_taken (h : Sys.step cfg s a = some s') : Taken cfg s a s' := by
  cases a with
  | request r kind addr =>
    rw [Sys.step] at h
    cases hr : s.readers r with
    | some rd => rw [hr] at h; simp at h
    | none =>
      rw [hr] at h
      exact some.inj h ▸ .request hr
  | reader r env =>
    rw [Sys.step] at h
    cases hr : s.readers r with
    | none => rw [hr] at h; simp at h
    | some rd =>
      rw [hr] at h
      dsimp only at h
      cases hret : rd.pc.returned with
      | none =>
        rw [hret] at h
        exact some.inj h ▸ .lookup hr hret
      | some got =>
        rw [hret] at h
        cases got with
        | none => exact some.inj h ▸ .refused hr hret
        | some body => exact some.inj h ▸ .answered hr hret
  | pin kind addr owner =>
    rw [Sys.step] at h
    cases hpin : s.pin with
    | some t => rw [hpin] at h; simp at h
    | none =>
      rw [hpin] at h
      dsimp only at h
      split at h
      · rename_i hkn
        exact some.inj h ▸ .pin hpin hkn
      · simp at h
  | pinTurn env =>
    rw [Sys.step] at h
    cases hpin : s.pin with
    | none => rw [hpin] at h; simp at h
    | some t =>
      rw [hpin] at h
      exact some.inj h ▸ .turn hpin
  | unpin kind addr owner env =>
    rw [Sys.step] at h
    split at h
    · simp at h
    rename_i hpin
    split at h
    · rename_i hkn
      exact some.inj h ▸ .unpin hpin hkn
    · simp at h
  | tamper kind addr body =>
    rw [Sys.step] at h
    split at h
    · rename_i hfl
      exact some.inj h ▸ .tamper hfl
    · simp at h

structure View where
  p : PinStore
  d : Disk
  op : Option PinOp

def viewOf (s : Sys) : View := ⟨s.svc.pins, s.svc.disk, s.pin.map PinThread.op⟩

theorem viewOf_pinning (h : s.pin = some t) : viewOf s = ⟨s.svc.pins, s.svc.disk, some t.op⟩ := by
  rw [viewOf, h]
  rfl

theorem viewOf_idle (h : s.pin = none) : viewOf s = ⟨s.svc.pins, s.svc.disk, none⟩ := by
  rw [viewOf, h]
  rfl

def quarantining (kind : Kind) (addr : Addr) (pc : LookupPc) : Option String :=
  if pc = .quarantine then some (storeKeyStr kind.string addr.string) else none

def quarantineKey (s : Sys) : Act → Option String
  | .reader r _ =>
    match s.readers r with
    | some rd => quarantining rd.kind rd.addr rd.pc
    | none => none
  | .pinTurn _ =>
    match s.pin with
    | some t =>
      match t.op.wanted with
      | some (kind, addr) => quarantining kind addr t.lookup
      | none => none
    | none => none
  | _ => none

inductive ViewStep (cfg : Config) : Option String → View → View → Prop where
  | idle {v : View} : ViewStep cfg none v v
  | quarantine {v : View} (badKey : String) (indexOk : Bool) :
      ViewStep cfg (some badKey) v
        ⟨(quarantine v.p badKey indexOk).1, v.d.run (quarantine v.p badKey indexOk).2, v.op⟩
  | mark {v : View} (key : String) : ViewStep cfg none v ⟨markVerified v.p key, v.d, v.op⟩
  | tamper {v : View} {path : ObjPath} {body : Bytes} : path ∈ v.d.files →
      ViewStep cfg none v ⟨v.p, { v.d with files := v.d.files.insert path body }, v.op⟩
  | start {v : View} (kind : Kind) (addr : Addr) (owner : String) : v.op = none →
      pinnable kind = true →
      ViewStep cfg none v ⟨v.p, v.d, some (PinOp.begin kind addr owner)⟩
  | move {v : View} {op : PinOp} {p' : PinStore} {ops : List DiskOp}
      {next : PinOp ⊕ Except GoError PinRecord} : v.op = some op →
      PinMove cfg v.p op p' ops next →
      ViewStep cfg none v ⟨p', v.d.run ops, next.getLeft?⟩
  | unpin {v : View} (kind : Kind) (addr : Addr) (owner : String) (indexOk : Bool) : v.op = none →
      ViewStep cfg none v
        ⟨(unpin v.p kind addr owner indexOk).1, v.d.run (unpin v.p kind addr owner indexOk).2.1,
          none⟩

theorem lookupStep_store (cfg : Config) (env : Env) (kind : Kind) (addr : Addr) (sv : Service)
    (pc : LookupPc) :
    (pc = .quarantine ∧ (lookupStep cfg env kind addr sv pc).1
        = sv.enter (quarantine sv.pins (storeKeyStr kind.string addr.string) env.indexOk))
      ∨ (pc ≠ .quarantine ∧ (lookupStep cfg env kind addr sv pc).1.disk = sv.disk
        ∧ ((lookupStep cfg env kind addr sv pc).1.pins = sv.pins
          ∨ (lookupStep cfg env kind addr sv pc).1.pins
              = markVerified sv.pins (storeKeyStr kind.string addr.string))) := by
  cases pc with
  | quarantine => exact .inl ⟨rfl, rfl⟩
  | mark body => exact .inr ⟨by simp, rfl, .inr rfl⟩
  | check | cache =>
    refine .inr ⟨by simp, ?_⟩
    rw [lookupStep]
    split <;> exact ⟨rfl, .inl rfl⟩
  | read already =>
    refine .inr ⟨by simp, ?_⟩
    rw [lookupStep]
    split
    · exact ⟨rfl, .inl rfl⟩
    split
    · exact ⟨rfl, .inl rfl⟩
    split <;> exact ⟨rfl, .inl rfl⟩
  | upstream =>
    refine .inr ⟨by simp, ?_⟩
    rw [lookupStep]
    split
    · exact ⟨rfl, .inl rfl⟩
    split <;> exact ⟨rfl, .inl rfl⟩
  | put body | done result => exact .inr ⟨by simp, rfl, .inl rfl⟩

theorem lookupStep_view :
    ViewStep cfg (quarantining kind addr pc)
      ⟨sv.pins, sv.disk, op⟩
      ⟨(lookupStep cfg env kind addr sv pc).1.pins, (lookupStep cfg env kind addr sv pc).1.disk,
        op⟩ := by
  rcases lookupStep_store cfg env kind addr sv pc with ⟨hq, heq⟩ | ⟨hq, hd, hp⟩
  · rw [quarantining, if_pos hq, heq]
    exact .quarantine _ _
  rw [quarantining, if_neg hq, hd]
  rcases hp with hp | hp
  · rw [hp]
    exact .idle
  · rw [hp]
    exact .mark _

theorem quarantining_of_returned (h : pc.returned = some r) : quarantining kind addr pc = none := by
  cases pc with
  | done result => rfl
  | _ => exact absurd h (by simp [LookupPc.returned])

theorem pinOwn_view :
    ViewStep cfg none ⟨sv.pins, sv.disk, some op⟩
      ⟨(pinOwn cfg env sv op got log).svc.pins, (pinOwn cfg env sv op got log).svc.disk,
        (pinOwn cfg env sv op got log).next.getLeft?.map PinThread.op⟩ := by
  have hmv := ViewStep.move (v := ⟨sv.pins, sv.disk, some op⟩) rfl
    (pinStep_move cfg env sv.pins op got)
  have hnx : (pinOwn cfg env sv op got log).next.getLeft?.map PinThread.op
      = (pinStep cfg env sv.pins op got).next.getLeft? := by
    rw [pinOwn]
    cases (pinStep cfg env sv.pins op got).next <;> rfl
  rw [hnx]
  exact hmv

theorem step_view (h : Sys.step cfg s a = some s') :
    ViewStep cfg (quarantineKey s a) (viewOf s) (viewOf s') := by
  cases step_taken h with
  | request _ => exact .idle
  | refused hr hret | answered hr hret =>
    rw [quarantineKey, hr]
    dsimp only
    rw [quarantining_of_returned hret]
    exact .idle
  | @lookup r env rd hr _ =>
    rw [quarantineKey, hr]
    exact lookupStep_view
  | @pin kind addr owner hpin hkn =>
    exact .start kind addr owner (by rw [viewOf_idle hpin]) hkn
  | @turn env t hpin =>
    rw [quarantineKey, hpin, viewOf_pinning hpin, viewOf]
    dsimp only
    rw [pinTurn]
    cases t.op.wanted with
    | none => exact pinOwn_view
    | some w =>
      dsimp only
      cases hret : t.lookup.returned with
      | none => exact lookupStep_view
      | some got =>
        rw [quarantining_of_returned hret]
        cases got with
        | none => exact pinOwn_view
        | some body => exact pinOwn_view
  | @unpin kind addr owner env hpin _ =>
    rw [viewOf_idle hpin, viewOf]
    rw [hpin]
    exact .unpin kind addr owner env.indexOk rfl
  | tamper hfl => exact .tamper hfl

end VulosRelay.Proof
