import VulosRelay.Lib.FinMap
import VulosRelay.Lib.System

/-!
# The usage meter of the tunnel server

The model of `meter` (`tunnel/server/metering.go`) with the control plane it reports to.
Each section under the mutex is one step, so recording may come between any two steps of
a flush. There is one flush goroutine. A map is ranged over in any order, so the items of
a report are a finite map.

The network and the control plane: a report that was posted may arrive at any later time
or never, also after the meter has given it up. The control plane applies a report id at
most once, and answers 200 only for a report it has applied. The meter may see an error
for any report. The counter of report ids is a natural number.

Beside the meter the state keeps what has happened: the credits that were recorded, with
the batch that carries them, and the batches that were dropped.
-/

namespace VulosRelay.Server

structure MeterDelta where
  bytes : Int64
  sessions : Int64
  deriving DecidableEq, Repr

structure PendingReport where
  id : String
  items : FinMap String MeterDelta

structure MeterConfig where
  popId : String
  bootId : String
  maxAccounts : Nat
  maxRetryBatches : Nat

def newMeter (popId bootId : String) : MeterConfig := ⟨popId, bootId, 50000, 1024⟩

def MeterConfig.reportId (cfg : MeterConfig) (n : Nat) : String :=
  (cfg.popId ++ "-" ++ cfg.bootId ++ "-") ++ n.repr

inductive Flusher where
  | idle
  | taken (batches : List PendingReport)
  | sending (todo failed : List PendingReport)
  | waiting (batch : PendingReport) (todo failed : List PendingReport)

def Flusher.held : Flusher → List PendingReport
  | .idle => []
  | .taken batches => batches
  | .sending todo failed => todo ++ failed
  | .waiting batch todo failed => batch :: (todo ++ failed)

structure Credit where
  account : String
  delta : MeterDelta
  deriving DecidableEq, Repr

structure MeterState where
  pending : FinMap String MeterDelta
  retry : List PendingReport
  /-- A word of 64 bits. -/
  seq : Nat
  flusher : Flusher
  sent : List PendingReport
  applied : List PendingReport
  /-- The batches that were drained, each with the credits it carries. -/
  drained : List (PendingReport × List Credit)
  credits : List Credit
  /-- The batches dropped by an overflow of the retry queue. -/
  dropped : List PendingReport
  signalled : List String

def MeterState.new : MeterState := ⟨∅, [], 0, .idle, [], [], [], [], [], []⟩

inductive MeterAction where
  | addBytes (accountId : String) (n : Int64)
  | addSession (accountId : String)
  | takeRetry
  | drain
  | post
  | deliver (i : Nat)
  | fail
  | succeed (overQuota : List String)
  | requeue

namespace MeterState

variable (cfg : MeterConfig) (s : MeterState)

def record (account : String) (bytes sessions : Int64) : MeterState :=
  if account ∉ s.pending ∧ cfg.maxAccounts ≤ FinMap.size s.pending then s
  else
    let d := (s.pending.lookup account).getD ⟨0, 0⟩
    { s with
      pending := s.pending.insert account ⟨d.bytes + bytes, d.sessions + sessions⟩
      credits := s.credits ++ [⟨account, bytes, sessions⟩] }

def addBytes (accountId : String) (n : Int64) : MeterState :=
  if accountId = "" ∨ n ≤ 0 then s else s.record cfg accountId n 0

def addSession (accountId : String) : MeterState :=
  if accountId = "" then s else s.record cfg accountId 0 1

def items : FinMap String MeterDelta :=
  FinMap.filter (fun _ d => d.bytes ≠ 0 ∨ d.sessions ≠ 0) s.pending

def nextSeq : Nat := (s.seq + 1) % 2 ^ 64

def report : PendingReport := ⟨cfg.reportId s.nextSeq, s.items⟩

def drain (batches : List PendingReport) : MeterState :=
  if FinMap.size s.items = 0 then
    { s with
      pending := ∅
      flusher := if batches = [] then .idle else .sending batches [] }
  else
    { s with
      pending := ∅
      seq := s.nextSeq
      flusher := .sending (batches ++ [s.report cfg]) []
      drained := s.drained ++ [(s.report cfg, s.credits)]
      credits := [] }

def receive (batch : PendingReport) : MeterState :=
  if batch.id ∈ s.applied.map PendingReport.id then s
  else { s with applied := s.applied ++ [batch] }

def requeue (failed : List PendingReport) : MeterState :=
  if failed = [] then { s with flusher := .idle }
  else
    let all := s.retry ++ failed
    let drop := all.length - cfg.maxRetryBatches
    { s with
      retry := all.drop drop
      flusher := .idle
      dropped := s.dropped ++ all.take drop }

def step : MeterAction → Option MeterState
  | .addBytes accountId n => some (s.addBytes cfg accountId n)
  | .addSession accountId => some (s.addSession cfg accountId)
  | .takeRetry =>
    match s.flusher with
    | .idle => some { s with retry := [], flusher := .taken s.retry }
    | _ => none
  | .drain =>
    match s.flusher with
    | .taken batches => some (s.drain cfg batches)
    | _ => none
  | .post =>
    match s.flusher with
    | .sending (batch :: todo) failed =>
      some { s with flusher := .waiting batch todo failed, sent := s.sent ++ [batch] }
    | _ => none
  | .deliver i => (s.sent[i]?).map s.receive
  | .fail =>
    match s.flusher with
    | .waiting batch todo failed =>
      some { s with flusher := .sending todo (failed ++ [batch]) }
    | _ => none
  | .succeed overQuota =>
    match s.flusher with
    | .waiting batch todo failed =>
      if batch.id ∈ s.applied.map PendingReport.id then
        some { s with
          flusher := .sending todo failed
          signalled := s.signalled ++ overQuota }
      else none
    | _ => none
  | .requeue =>
    match s.flusher with
    | .sending [] failed => some (s.requeue cfg failed)
    | _ => none

end MeterState

def metering (cfg : MeterConfig) : System MeterState MeterAction where
  init s := s = .new
  step := MeterState.step cfg

end VulosRelay.Server
