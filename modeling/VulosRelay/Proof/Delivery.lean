import VulosRelay.Proof.QueueBounds

/-!
# What a pickup returns

The history of a queue, as far as a recipient is concerned, is the deposits that
were accepted and the acknowledgements. What awaits a key after a history is every
blob deposited for it that no later acknowledgement of the key names, in order. The
queue drops expired blobs now and then, in one place or another, so it does not hold
exactly these; but what it holds and what awaits the key have the same blobs
unexpired from the last clock value on (`Delivers`), and that is all a pickup shows.
-/

namespace VulosRelay.Rendezvous

open List Finmap Queue

inductive Event where
  | deposited (b : Blob)
  | acked (key : String) (ids : List String)

variable {now last : Int} {q : Queue} {events : List Event}

def QueueOp.clock : QueueOp → Int
  | .deposit _ _ _ _ now _ => now
  | .pickup _ now => now
  | .ack _ _ now => now
  | .sweep now => now

namespace Queue

def event (q : Queue) : QueueOp → Option Event
  | .deposit sender recipient payload ttl now rand =>
    if (q.deposit sender recipient payload ttl now rand).2.2 = .ok then
      some (.deposited (newBlob sender recipient payload ttl now rand))
    else none
  | .pickup _ _ => none
  | .ack key ids _ => some (.acked key ids)
  | .sweep _ => none

def history (q : Queue) : List QueueOp → List Event
  | [] => []
  | op :: ops => (q.event op).toList ++ history (q.step op) ops

end Queue

def named (key id : String) (events : List Event) : Bool :=
  events.any fun e =>
    match e with
    | .acked key' ids => key' = key ∧ id ∈ ids
    | .deposited _ => false

def awaiting (key : String) : List Event → List Blob
  | [] => []
  | .deposited b :: later =>
    if b.recipient = key ∧ named key b.id later = false then b :: awaiting key later
    else awaiting key later
  | .acked _ _ :: later => awaiting key later

theorem named_append {key id : String} {events later : List Event} :
    named key id (events ++ later) = (named key id events || named key id later) :=
  any_append

theorem awaiting_deposited (key : String) (b : Blob) : ∀ events : List Event,
    awaiting key (events ++ [.deposited b])
      = awaiting key events ++ if b.recipient = key then [b] else []
  | [] => by
    show (if b.recipient = key ∧ named key b.id [] = false then [b] else []) = _
    simp [awaiting, named]
  | .acked k ids :: events => awaiting_deposited key b events
  | .deposited b' :: events => by
    have hnm : named key b'.id (events ++ [.deposited b]) = named key b'.id events := by
      rw [named_append]
      simp [named]
    rw [cons_append, awaiting, awaiting, hnm, awaiting_deposited key b events]
    split <;> rfl

theorem awaiting_acked (key : String) (ids : List String) : ∀ events : List Event,
    awaiting key (events ++ [.acked key ids]) = (awaiting key events).filter fun b => b.id ∉ ids
  | [] => rfl
  | .acked k ids' :: events => awaiting_acked key ids events
  | .deposited b :: events => by
    have hnm : named key b.id (events ++ [.acked key ids])
        = (named key b.id events || decide (b.id ∈ ids)) := by
      rw [named_append]
      simp [named]
    rw [cons_append, awaiting, awaiting, hnm, awaiting_acked key ids events]
    by_cases hb : b.recipient = key ∧ named key b.id events = false
    · by_cases hid : b.id ∈ ids
      · rw [if_neg (by simp [hid]), if_pos hb, filter_cons_of_neg (by simp [hid])]
      · rw [if_pos (by simp [hb, hid]), if_pos hb, filter_cons_of_pos (by simp [hid])]
    · rw [if_neg hb, if_neg fun h => hb ⟨h.1, (Bool.or_eq_false_iff.mp h.2).1⟩]

theorem awaiting_acked_of_ne (hne : key' ≠ key) (ids : List String) :
    ∀ events : List Event, awaiting key (events ++ [.acked key' ids]) = awaiting key events
  | [] => rfl
  | .acked k ids' :: events => awaiting_acked_of_ne hne ids events
  | .deposited b :: events => by
    have hnm : named key b.id (events ++ [.acked key' ids]) = named key b.id events := by
      rw [named_append]
      simp [named, hne]
    rw [cons_append, awaiting, awaiting, hnm, awaiting_acked_of_ne hne ids events]

theorem live_live (h : now ≤ t) (blobs : List Blob) : live t (live now blobs) = live t blobs := by
  unfold live
  rw [filter_filter]
  refine filter_congr fun b _ => ?_
  rw [Bool.and_eq_left_iff_imp, decide_eq_true_eq, decide_eq_true_eq]
  omega

theorem live_append (t : Int) (a b : List Blob) : live t (a ++ b) = live t a ++ live t b :=
  filter_append a b

variable {now : Int}

theorem pending_reap :
    (q.reap now).pending key = live now (q.pending key) := by
  unfold pending
  rw [lookup_reap]
  cases q.byKey.lookup key with
  | none => rfl
  | some blobs =>
    show (remaining now blobs).getD [] = live now blobs
    unfold remaining
    split
    · next hno => exact hno.symm
    · rfl

theorem live_sweepLocked (h : now ≤ t) (q : Queue) (key : String) :
    live t ((q.sweepLocked now).pending key) = live t (q.pending key) := by
  unfold sweepLocked
  split
  · rfl
  · rw [pending_reap, live_live h]

theorem pending_append (q : Queue) (b : Blob) (key : String) :
    (q.append b).pending key = q.pending key ++ if b.recipient = key then [b] else [] := by
  show ((q.byKey.insert b.recipient (q.pending b.recipient ++ [b])).lookup key).getD [] = _
  by_cases hk : key = b.recipient
  · rw [hk, lookup_insert, if_pos rfl]
    rfl
  · rw [lookup_insert_of_ne _ hk, if_neg fun heq => hk heq.symm, append_nil]
    rfl

theorem enqueue_cases (q : Queue) (b : Blob) :
    (q.enqueue b = (q.append b, b.id, .ok)) ∨ ∃ res, res ≠ .ok ∧ q.enqueue b = (q, "", res) := by
  unfold enqueue
  split
  · exact .inr ⟨.capacity, by simp, rfl⟩
  split
  · exact .inr ⟨.quotaFull, by simp, rfl⟩
  split
  · exact .inr ⟨.quotaFull, by simp, rfl⟩
  · exact .inl rfl

theorem pending_keep {freed : Int} :
    (q.keep key kept freed).pending key' = if key' = key then kept else q.pending key' := by
  unfold keep pending
  by_cases hk : key' = key
  · rw [if_pos hk, hk]
    split
    · next hno => rw [lookup_erase, hno]; rfl
    · rw [lookup_insert]; rfl
  · rw [if_neg hk]
    split
    · rw [lookup_erase_ne hk]
    · rw [lookup_insert_of_ne _ hk]

theorem pending_ack :
    (q.ack key ids now).1.pending key' =
      if key' = key then (q.pending key).filter (fun b => b.id ∉ ids) else q.pending key' := by
  unfold Queue.ack
  split
  · rename_i hids
    rw [hids]
    split
    · next hk => rw [hk]; simp
    · rfl
  · split
    · rename_i hno
      split
      · next hk => rw [hk, hno]; rfl
      · rfl
    · exact pending_keep

/-- From `last` on, the queue and the history show the same blobs. -/
def Delivers (q : Queue) (last : Int) (events : List Event) : Prop :=
  ∀ key t, last ≤ t → live t (q.pending key) = live t (awaiting key events)

section

variable (h : Delivers q last events)

include h

theorem delivers_sweepLocked (hnow : last ≤ now) : Delivers (q.sweepLocked now) now events := by
  intro key t ht
  rw [live_sweepLocked ht]
  exact h key t (Int.le_trans hnow ht)

theorem delivers_append : Delivers (q.append b) last (events ++ [.deposited b]) := by
  intro key t ht
  rw [pending_append, awaiting_deposited, live_append, live_append, h key t ht]

theorem delivers_ack :
    Delivers (q.ack key ids now).1 last (events ++ [.acked key ids]) := by
  intro key' t ht
  rw [pending_ack]
  by_cases hk : key' = key
  · -- Filtering by id and by expiry commute.
    have hsm := h key t ht
    unfold live at hsm ⊢
    rw [if_pos hk, hk, awaiting_acked, filter_comm, hsm, filter_comm]
  · rw [if_neg hk, awaiting_acked_of_ne fun heq => hk heq.symm]
    exact h key' t ht

theorem delivers_step (hclk : last ≤ op.clock) :
    Delivers (q.step op) op.clock (events ++ (q.event op).toList) := by
  have hlt : Delivers q op.clock events := fun key t ht => h key t (Int.le_trans hclk ht)
  cases op with
  | deposit sender recipient payload ttl now rand =>
    show Delivers (q.deposit sender recipient payload ttl now rand).1 now
      (events ++ (if (q.deposit sender recipient payload ttl now rand).2.2 = .ok then _ else _ :
        Option Event).toList)
    unfold deposit
    split
    · rw [if_neg (by simp)]
      exact (append_nil events).symm ▸ hlt
    have hsw := delivers_sweepLocked h hclk
    rcases enqueue_cases (q.sweepLocked now)
      (newBlob sender recipient payload ttl now rand) with heq | ⟨res, hres, heq⟩
    · rw [heq, if_pos rfl]
      exact delivers_append hsw
    · rw [heq, if_neg hres]
      exact (append_nil events).symm ▸ hsw
  | pickup key now | sweep now =>
    exact (append_nil events).symm ▸ delivers_sweepLocked h hclk
  | ack key ids now => exact delivers_ack hlt

end

theorem delivers_run : ∀ {ops : List QueueOp} {q : Queue} {last : Int}
    {events : List Event}, Delivers q last events →
    (last :: (ops.map QueueOp.clock ++ [now])).Pairwise (· ≤ ·) →
    Delivers (q.run ops) now (events ++ q.history ops)
  | [], q, last, events, h, hclk => by
    have hnow : last ≤ now := (pairwise_cons.mp hclk).1 now (by simp)
    rw [history, append_nil]
    exact fun key t ht => h key t (Int.le_trans hnow ht)
  | op :: ops, q, last, events, h, hclk => by
    obtain ⟨hls, hrs⟩ := pairwise_cons.mp hclk
    have hst := delivers_step h (hls op.clock (by simp))
    rw [history, ← append_assoc]
    exact delivers_run hst hrs

theorem lookup_ack_of_ne (hne : key' ≠ key) :
    (q.ack key ids now).1.byKey.lookup key' = q.byKey.lookup key' ∧
      (q.ack key ids now).1.bytes.lookup key' = q.bytes.lookup key' := by
  unfold Queue.ack
  split
  · exact ⟨rfl, rfl⟩
  split
  · exact ⟨rfl, rfl⟩
  show (q.keep _ _ _).byKey.lookup key' = _ ∧ (q.keep _ _ _).bytes.lookup key' = _
  unfold keep
  split
  · exact ⟨lookup_erase_ne hne, lookup_erase_ne hne⟩
  · exact ⟨lookup_insert_of_ne _ hne, lookup_insert_of_ne _ hne⟩

theorem decode_view_payload (b : Blob) : Base64.decode b.view.payload.toList = some b.payload := by
  show Base64.decode (String.ofList (Base64.encode b.payload)).toList = _
  rw [String.toList_ofList, Base64.decode_encode]

/-- **At-least-once delivery.** With a clock that does not go back, a pickup returns exactly the
unexpired blobs that were deposited for the key and that no later acknowledgement of the key named,
in order, with the payloads they came with; and an acknowledgement touches its own key only. -/
theorem pickup_delivers (caps : QueueCaps) (ops : List QueueOp) (key : String) (now : Int)
    (hclock : (ops.map QueueOp.clock ++ [now]).Pairwise (· ≤ ·)) :
    (((newQueue caps).run ops).pickup key now).2 =
      ((awaiting key ((newQueue caps).history ops)).filter fun b => now < b.expiresAt).map
        Blob.view ∧
    (∀ b : Blob, Base64.decode b.view.payload.toList = some b.payload) ∧
    (∀ ids t key', key' ≠ key →
      let q := (newQueue caps).run ops
      (q.ack key ids t).1.byKey.lookup key' = q.byKey.lookup key' ∧
        (q.ack key ids t).1.bytes.lookup key' = q.bytes.lookup key') := by
  refine ⟨?_, decode_view_payload, fun ids t key' hne => lookup_ack_of_ne hne⟩
  have hemp : ∀ last, Delivers (newQueue caps) last [] := by
    intro last key t _
    simp [pending, newQueue, awaiting]
  have hrun : Delivers ((newQueue caps).run ops) now ((newQueue caps).history ops) := by
    cases hcl : ops.map QueueOp.clock ++ [now] with
    | nil => simp at hcl
    | cons first rest =>
      refine delivers_run (hemp first) ?_
      rw [hcl] at hclock ⊢
      refine pairwise_cons.mpr ⟨fun t ht => ?_, hclock⟩
      rcases mem_cons.mp ht with heq | hmem
      · rw [heq]
      · exact (pairwise_cons.mp hclock).1 t hmem
  show (live now ((((newQueue caps).run ops).sweepLocked now).pending key)).map Blob.view = _
  rw [live_sweepLocked (Int.le_refl now), hrun key now (Int.le_refl now)]
  rfl

def smallCaps : QueueCaps where
  maxBlobBytes := 100
  maxPerKeyBlobs := 2
  maxPerKeyBytes := 150
  defaultTTL := 10
  maxTTL := 20
  maxKeys := 0
  sweepEvery := 0

def someRand (n : UInt8) : List.Vector UInt8 10 := ⟨[n, 0, 0, 0, 0, 0, 0, 0, 0, 0], rfl⟩

theorem pickup_delivers_second :
    (((newQueue smallCaps).run
      [.deposit "s" "r" [1] 10 1 (someRand 1), .deposit "s" "r" [2] 10 2 (someRand 2),
        .ack "r" [newBlobID 1 (someRand 1)] 3]).pickup "r" 4).2
      = [(newBlob "s" "r" [2] 10 2 (someRand 2)).view] := by
  refine (pickup_delivers smallCaps _ "r" 4 (by decide)).1.trans ?_
  decide

/-- An acknowledgement that names an id before there is such a blob removes nothing: the blob that
gets the id later is delivered, though an earlier acknowledgement of its key named it. -/
theorem delivered_though_named_earlier :
    let ops : List QueueOp :=
      [.ack "r" [newBlobID 1 (someRand 1)] 1, .deposit "s" "r" [1] 10 1 (someRand 1)]
    (((newQueue smallCaps).run ops).pickup "r" 2).2
      = [(newBlob "s" "r" [1] 10 1 (someRand 1)).view] ∧
    named "r" (newBlobID 1 (someRand 1)) ((newQueue smallCaps).history ops) = true := by
  decide

end VulosRelay.Rendezvous
