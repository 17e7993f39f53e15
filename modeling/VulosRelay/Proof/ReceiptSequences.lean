import VulosRelay.Billing.Receipt
import VulosRelay.Lib.Positions

/-!
# The sequence numbers on the receipts of a payer

A log has one counter for all payers, so the number on a receipt is the place of the
receipt in the log. The numbers a payer sees are the places of their receipts, and those
follow one another exactly if no receipt of another payer was issued between two of
theirs.
-/

namespace VulosRelay.Billing

open List ReceiptLog UInt64

namespace ReceiptLog

def linePayers (calls : List BillCall) : List (List UInt8) :=
  calls.flatMap fun call => call.bill.lineItems.map fun _ => call.payer

def sequencesOf (payer : List UInt8) (receipts : List UsageReceipt) : List UInt64 :=
  receipts.filterMap fun r => if r.payer = some payer then r.sequence else none

/--
The log holds the receipts of these payers, each numbered with its place, and the next
place is the counter.
-/
structure Numbered (payers : List (List UInt8)) (log : ReceiptLog) : Prop where
  next : log.nextSequence = UInt64.ofNat payers.length
  stamps : log.receipts.map (fun r => (r.payer, r.sequence))
    = payers.zipIdx.map fun x => (some x.1, some (UInt64.ofNat x.2))

theorem numbered_new : Numbered [] new := ⟨rfl, rfl⟩

variable {payers : List (List UInt8)} {log : ReceiptLog}

theorem numbered_issueItem (h : Numbered payers log) (payer : List UInt8) (currency : String)
    (ik : IdentityKey) (item : LineItem) :
    Numbered (payers ++ [payer]) (log.issueItem payer currency ik item).1 where
  next := by
    show log.nextSequence + 1 = _
    rw [h.next, length_append, length_singleton, ofNat_add]
    rfl
  stamps := by
    rw [zipIdx_append, map_append, ← h.stamps]
    show (log.receipts ++ [_]).map _ = _
    rw [map_append]
    congr 1
    show [(some payer, some log.nextSequence)] = _
    rw [h.next]
    simp

theorem numbered_issueItems (payer : List UInt8) (currency : String) (ik : IdentityKey)
    (items : List LineItem) (h : Numbered payers log) :
    Numbered (payers ++ items.map fun _ => payer)
      (issueItems payer currency ik log items).1 := by
  induction items generalizing payers log with
  | nil =>
    rw [map_nil, append_nil]
    exact h
  | cons item items ih =>
    have hrs := ih (numbered_issueItem h payer currency ik item)
    rw [append_assoc] at hrs
    exact hrs

theorem numbered_issueAll (calls : List BillCall) (h : Numbered payers log) :
    Numbered (payers ++ linePayers calls) (log.issueAll calls) := by
  induction calls generalizing payers log with
  | nil =>
    show Numbered (payers ++ []) log
    rw [append_nil]
    exact h
  | cons call calls ih =>
    have hcl := numbered_issueItems call.payer call.bill.currency call.ik
      call.bill.lineItems h
    have hrs := ih hcl
    rw [append_assoc] at hrs
    exact hrs

theorem sequencesOf_eq (h : Numbered payers log) :
    sequencesOf payer log.receipts = (positions payer payers).map ofNat := by
  have hst : sequencesOf payer log.receipts
      = (log.receipts.map fun r => (r.payer, r.sequence)).filterMap
          fun x => if x.1 = some payer then x.2 else none := by
    rw [filterMap_map]
    rfl
  rw [hst, h.stamps, filterMap_map, positions, map_filterMap]
  refine filterMap_congr fun x _ => ?_
  simp only [Function.comp_apply, Option.some.injEq]
  split <;> rfl

theorem length_receipts (h : Numbered payers log) : log.receipts.length = payers.length := by
  have hlen := congrArg length h.stamps
  rw [length_map, length_map, length_zipIdx] at hlen
  exact hlen

theorem positions_lt (hi : i ∈ positions payer payers) : i < payers.length := by
  obtain ⟨hlt, -⟩ := List.getElem?_eq_some_iff.mp (mem_positions.mp hi)
  exact hlt

theorem toNat_sequencesOf (h : Numbered payers log) (hvec : log.receipts.length < 2 ^ 63) :
    (sequencesOf payer log.receipts).map toNat = positions payer payers := by
  rw [sequencesOf_eq h, map_map]
  refine (map_congr_left fun i hi => ?_).trans (map_id _)
  have hi := positions_lt hi
  rw [length_receipts h] at hvec
  show (ofNat i).toNat = i
  exact toNat_ofNat_of_lt' (by show i < 2 ^ 64; omega)

end ReceiptLog

open ReceiptLog

/--
**The receipts of a payer are numbered without a gap exactly if no line of another payer
was billed between two of theirs.** `hvec` is the bound on what a `Vec` holds.
-/
theorem payer_sequences_consecutive_iff (calls : List BillCall) (payer : List UInt8)
    (hvec : (new.issueAll calls).receipts.length < 2 ^ 63) :
    Consecutive ((sequencesOf payer (new.issueAll calls).receipts).map toNat)
      ↔ Unbroken payer (linePayers calls) := by
  have hnum := numbered_issueAll calls numbered_new
  rw [nil_append] at hnum
  rw [toNat_sequencesOf hnum hvec]
  exact consecutive_positions_iff payer (linePayers calls)

def messagesCall (payer : List UInt8) (units : List UInt64) : BillCall where
  payer := payer
  bill := ⟨"USD", 0, units.map fun n => ⟨.messages, n, n, 0, 0, 0⟩⟩
  ik := ⟨[7], fun identity _ => identity⟩

theorem own_lines_numbered_in_turn :
    Consecutive ((sequencesOf [1] (new.issueAll
      [messagesCall [1] [5, 6], messagesCall [2] [7]]).receipts).map toNat) := by
  refine (payer_sequences_consecutive_iff [messagesCall [1] [5, 6], messagesCall [2] [7]] [1]
    (by decide)).mpr ?_
  intro i j k hij hjk _ hk
  have hls : k < 2 := by
    rcases k with _ | _ | _ | k
    · exact Nat.zero_lt_two
    · exact Nat.one_lt_two
    · cases hk
    · exact absurd hk (by simp [linePayers, messagesCall])
  omega

/-- **A bill of another payer in between leaves a gap**: the first payer sees 0 and 2. -/
theorem sequence_gap_between_payers :
    sequencesOf [1] (new.issueAll
        [messagesCall [1] [5], messagesCall [2] [6], messagesCall [1] [7]]).receipts = [0, 2]
      ∧ ¬ Consecutive ((sequencesOf [1] (new.issueAll
        [messagesCall [1] [5], messagesCall [2] [6], messagesCall [1] [7]]).receipts).map
          toNat) := by
  have hsq : sequencesOf [1] (new.issueAll
      [messagesCall [1] [5], messagesCall [2] [6], messagesCall [1] [7]]).receipts = [0, 2] := by
    decide
  refine ⟨hsq, ?_⟩
  rw [hsq]
  intro h
  obtain ⟨start, hrn⟩ := h
  have hfst : 0 = start := (cons.inj hrn).1
  have hsnd : 2 = start + 1 := (cons.inj (cons.inj hrn).2).1
  omega

end VulosRelay.Billing
