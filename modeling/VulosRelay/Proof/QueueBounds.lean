import VulosRelay.Rendezvous.Queue

/-!
# The queue's two maps stay together

`deposit`, `ack` and the sweep each write the blobs of a key and its byte counter
separately. The invariant says that the second map is the first one measured: the
same keys, each with the size of its blobs (`counted`); and that what is stored for
a key is within both quotas and never nothing (`bounded`). Every operation is one of
three writes to the two maps, a blob at the back (`append`), the blobs of one key
filtered (`keep`) or those of all keys (`reap`), and the invariant is kept by each.
-/

namespace VulosRelay.Rendezvous

open List Finmap FinMap

/-- What is stored for a key is within the quotas. -/
structure Within (caps : QueueCaps) (blobs : List Blob) : Prop where
  nonempty : blobs ≠ []
  bytes : payloadBytes blobs ≤ caps.maxPerKeyBytes
  count : (blobs.length : Int) ≤ caps.maxPerKeyBlobs

/-- The queue is within its quotas, and its counters are right. -/
structure QueueOk (q : Queue) : Prop where
  /-- The counter of a key is the size of what is stored for it. -/
  counted : ∀ key, q.bytes.lookup key = (q.byKey.lookup key).map payloadBytes
  bounded : ∀ key blobs, q.byKey.lookup key = some blobs → Within q.caps blobs

theorem payloadBytes_append :
    payloadBytes (a ++ b) = payloadBytes a + payloadBytes b := by
  unfold payloadBytes
  rw [map_append, sum_append]

theorem payloadBytes_nonneg (blobs : List Blob) : 0 ≤ payloadBytes blobs := by
  induction blobs with
  | nil => exact Int.le_refl 0
  | cons b blobs ih =>
    have hcn : payloadBytes (b :: blobs) = (b.payload.length : Int) + payloadBytes blobs := rfl
    omega

theorem payloadBytes_filter (p : Blob → Bool) (blobs : List Blob) :
    payloadBytes blobs
      = payloadBytes (blobs.filter p) + payloadBytes (blobs.filter fun b => !p b) := by
  induction blobs with
  | nil => rfl
  | cons b blobs ih =>
    have hcn : ∀ l, payloadBytes (b :: l) = (b.payload.length : Int) + payloadBytes l :=
      fun _ => rfl
    cases hp : p b with
    | true =>
      rw [filter_cons_of_pos hp, filter_cons_of_neg (by simp [hp]), hcn, hcn, ih]
      omega
    | false =>
      rw [filter_cons_of_neg (by simp [hp]), filter_cons_of_pos (by simp [hp]), hcn, hcn, ih]
      omega

theorem Within.filter (h : Within caps blobs) (hne : blobs.filter p ≠ []) :
    Within caps (blobs.filter p) where
  nonempty := hne
  bytes := by
    have hsp := payloadBytes_filter p blobs
    have hdr := payloadBytes_nonneg (blobs.filter fun b => !p b)
    have hwh := h.bytes
    omega
  count := by
    have hlen := length_filter_le p blobs
    have hwh := h.count
    omega

def remaining (now : Int) (blobs : List Blob) : Option (List Blob) :=
  if live now blobs = [] then none else some (live now blobs)

theorem remaining_eq_some (h : remaining now blobs = some kept) :
    kept = live now blobs ∧ kept ≠ [] := by
  unfold remaining at h
  split at h
  · simp at h
  rename_i hne
  cases h
  exact ⟨rfl, hne⟩

theorem lookup_reap (q : Queue) (now : Int) (key : String) :
    (q.reap now).byKey.lookup key = (q.byKey.lookup key).bind (remaining now) :=
  lookup_mapFilter _ q.byKey key

variable {now : Int}

theorem lookup_reap_bytes {q : Queue} {key : String} {blobs : List Blob}
    (h : q.byKey.lookup key = some blobs) :
    (q.reap now).bytes.lookup key = (remaining now blobs).map payloadBytes := by
  have hcnt : (mapFilter (fun _ blobs => if live now blobs = [] then none
      else some (payloadBytes (live now blobs))) q.byKey).lookup key
      = (remaining now blobs).map payloadBytes := by
    rw [lookup_mapFilter, h]
    unfold remaining
    by_cases hlv : live now blobs = []
    · simp [hlv]
    · simp [hlv]
  unfold Queue.reap
  cases hrem : remaining now blobs with
  | none =>
    rw [hrem] at hcnt
    rw [lookup_union_right (lookup_eq_none.mp hcnt), lookup_filter,
      decide_eq_false (not_not.mpr (mem_of_lookup h))]
    cases q.bytes.lookup key <;> rfl
  | some kept =>
    rw [hrem] at hcnt
    rw [lookup_union_left (mem_of_lookup hcnt), hcnt]

theorem lookup_reap_bytes_none {q : Queue} {key : String} (h : q.byKey.lookup key = none) :
    (q.reap now).bytes.lookup key = q.bytes.lookup key := by
  have hcnt : (mapFilter (fun _ blobs => if live now blobs = [] then none
      else some (payloadBytes (live now blobs))) q.byKey).lookup key = none := by
    rw [lookup_mapFilter, h]
    rfl
  unfold Queue.reap
  rw [lookup_union_right (lookup_eq_none.mp hcnt), lookup_filter,
    decide_eq_true (lookup_eq_none.mp h)]
  cases q.bytes.lookup key <;> rfl

namespace QueueOk

variable {q : Queue}

section

variable (h : QueueOk q)

include h

theorem pendingBytes (key : String) : q.pendingBytes key = payloadBytes (q.pending key) := by
  unfold Queue.pendingBytes Queue.pending
  rw [h.counted key]
  cases q.byKey.lookup key with
  | none => rfl
  | some blobs => rfl

theorem reap (now : Int) : QueueOk (q.reap now) where
  counted key := by
    rw [lookup_reap]
    cases hk : q.byKey.lookup key with
    | none =>
      rw [lookup_reap_bytes_none hk, h.counted key, hk]
      rfl
    | some blobs => exact lookup_reap_bytes hk
  bounded key blobs hblobs := by
    rw [lookup_reap] at hblobs
    obtain ⟨before, hpre, hrem⟩ := Option.bind_eq_some_iff.mp hblobs
    obtain ⟨heq, hne⟩ := remaining_eq_some hrem
    rw [heq] at hne ⊢
    exact (h.bounded key before hpre).filter hne

theorem sweepLocked (now : Int) : QueueOk (q.sweepLocked now) := by
  unfold Queue.sweepLocked
  split
  · exact h
  · exact h.reap now

theorem append (hcnt : ((q.pending b.recipient).length : Int) < q.caps.maxPerKeyBlobs)
    (hby : q.pendingBytes b.recipient + b.payload.length ≤ q.caps.maxPerKeyBytes) :
    QueueOk (q.append b) where
  counted key := by
    show (q.bytes.insert _ _).lookup key = ((q.byKey.insert _ _).lookup key).map payloadBytes
    by_cases hk : key = b.recipient
    · rw [hk, lookup_insert, lookup_insert, h.pendingBytes, Option.map_some, payloadBytes_append]
      rfl
    · rw [lookup_insert_of_ne _ hk, lookup_insert_of_ne _ hk]
      exact h.counted key
  bounded key blobs hblobs := by
    have hlk : (q.byKey.insert b.recipient (q.pending b.recipient ++ [b])).lookup key
        = some blobs := hblobs
    by_cases hk : key = b.recipient
    · rw [hk, lookup_insert] at hlk
      cases hlk
      refine ⟨by simp, ?_, ?_⟩
      · rw [payloadBytes_append, ← h.pendingBytes]
        exact hby
      · rw [length_append, length_singleton]
        exact Int.add_one_le_of_lt hcnt
    · rw [lookup_insert_of_ne _ hk] at hlk
      exact h.bounded key blobs hlk

theorem enqueue (b : Blob) : QueueOk (q.enqueue b).1 := by
  unfold Queue.enqueue
  split
  · exact h
  split
  · exact h
  rename_i hcnt
  split
  · exact h
  · next hby => exact h.append (Int.not_le.mp hcnt) (Int.not_lt.mp hby)

theorem keep (p : Blob → Bool) (hne : q.pending key ≠ []) :
    QueueOk (q.keep key ((q.pending key).filter p)
      (payloadBytes ((q.pending key).filter fun b => !p b))) := by
  have hlk : q.byKey.lookup key = some (q.pending key) := by
    unfold Queue.pending at hne ⊢
    cases hk : q.byKey.lookup key with
    | none => rw [hk] at hne; exact absurd rfl hne
    | some blobs => rfl
  unfold Queue.keep
  split
  · refine ⟨fun key' => ?_, fun key' blobs hbl => ?_⟩
    · by_cases hk : key' = key
      · rw [hk, lookup_erase, lookup_erase]
        rfl
      · rw [lookup_erase_ne hk, lookup_erase_ne hk]
        exact h.counted key'
    · by_cases hk : key' = key
      · rw [hk, lookup_erase] at hbl
        simp at hbl
      · rw [lookup_erase_ne hk] at hbl
        exact h.bounded key' blobs hbl
  · rename_i hkp
    -- The clamp at zero never acts: what is freed was counted.
    have hcn :
        (if q.pendingBytes key - payloadBytes ((q.pending key).filter fun b => !p b) < 0 then 0
          else q.pendingBytes key - payloadBytes ((q.pending key).filter fun b => !p b))
        = payloadBytes ((q.pending key).filter p) := by
      have hsp := payloadBytes_filter p (q.pending key)
      have hpos := payloadBytes_nonneg ((q.pending key).filter p)
      rw [h.pendingBytes]
      split <;> omega
    refine ⟨fun key' => ?_, fun key' blobs hbl => ?_⟩
    · by_cases hk : key' = key
      · rw [hk, lookup_insert, lookup_insert, hcn]
        rfl
      · rw [lookup_insert_of_ne _ hk, lookup_insert_of_ne _ hk]
        exact h.counted key'
    · by_cases hk : key' = key
      · rw [hk, lookup_insert] at hbl
        cases hbl
        exact (h.bounded key _ hlk).filter hkp
      · rw [lookup_insert_of_ne _ hk] at hbl
        exact h.bounded key' blobs hbl

theorem ack (key : String) (ids : List String) (now : Int) : QueueOk (q.ack key ids now).1 := by
  unfold Queue.ack
  split
  · exact h
  split
  · exact h
  rename_i hne
  have hkp := h.keep (fun b => decide (b.id ∉ ids)) hne
  simpa using hkp

theorem step (op : QueueOp) : QueueOk (q.step op) := by
  cases op with
  | deposit sender recipient payload ttl now rand =>
    show QueueOk (q.deposit sender recipient payload ttl now rand).1
    unfold Queue.deposit
    split
    · exact h
    · exact (h.sweepLocked now).enqueue _
  | pickup key now | sweep now => exact h.sweepLocked now
  | ack key ids now => exact h.ack key ids now

theorem run (ops : List QueueOp) : QueueOk (q.run ops) := by
  induction ops generalizing q with
  | nil => exact h
  | cons op ops ih => exact ih (h.step op)

end

theorem new (caps : QueueCaps) : QueueOk (newQueue caps) where
  counted key := by simp [newQueue]
  bounded key blobs hblobs := absurd hblobs (by simp [newQueue])

end QueueOk

section

variable (q : Queue)

theorem sweepLocked_caps : (q.sweepLocked now).caps = q.caps := by
  unfold Queue.sweepLocked
  split <;> rfl

theorem enqueue_caps : (q.enqueue b).1.caps = q.caps := by
  unfold Queue.enqueue
  split
  · rfl
  split
  · rfl
  split <;> rfl

theorem keep_caps {freed : Int} :
    (q.keep key kept freed).caps = q.caps := by
  unfold Queue.keep
  split <;> rfl

theorem step_caps : (q.step op).caps = q.caps := by
  cases op with
  | deposit sender recipient payload ttl now rand =>
    show (q.deposit sender recipient payload ttl now rand).1.caps = q.caps
    unfold Queue.deposit
    split
    · rfl
    · rw [enqueue_caps, sweepLocked_caps]
  | pickup key now | sweep now => exact sweepLocked_caps q
  | ack key ids now =>
    show (q.ack key ids now).1.caps = q.caps
    unfold Queue.ack
    split
    · rfl
    split
    · rfl
    · exact keep_caps q

theorem run_caps : (q.run ops).caps = q.caps := by
  induction ops generalizing q with
  | nil => rfl
  | cons op ops ih => exact (ih (q.step op)).trans (step_caps q)

end

/-- **The queue's bounds**, after every sequence of calls at any clock values. A negative quota
lets nothing in, so it is one only for keys that have blobs. -/
theorem queue_bounds (caps : QueueCaps) (ops : List QueueOp) :
    let q := (newQueue caps).run ops
    (∀ key, q.pendingBytes key = payloadBytes (q.pending key)) ∧
    (∀ key, 0 ≤ caps.maxPerKeyBytes ∨ key ∈ q.byKey →
      q.pendingBytes key ≤ caps.maxPerKeyBytes) ∧
    (∀ key, 0 ≤ caps.maxPerKeyBlobs ∨ key ∈ q.byKey →
      ((q.pending key).length : Int) ≤ caps.maxPerKeyBlobs) ∧
    (∀ key, key ∈ q.bytes → key ∈ q.byKey) ∧
    (∀ key, q.byKey.lookup key ≠ some []) := by
  intro q
  have hok : QueueOk q := (QueueOk.new caps).run ops
  have hcp : q.caps = (newQueue caps).caps := run_caps _
  have hbn : ∀ key blobs, q.byKey.lookup key = some blobs →
      Within (newQueue caps).caps blobs := hcp ▸ hok.bounded
  -- A key has blobs within the quotas, or none.
  have hpn : ∀ key, Within (newQueue caps).caps (q.pending key)
      ∨ q.pending key = [] ∧ key ∉ q.byKey := by
    intro key
    rw [Queue.pending]
    cases hk : q.byKey.lookup key with
    | none => exact .inr ⟨rfl, lookup_eq_none.mp hk⟩
    | some blobs => exact .inl (hbn key blobs hk)
  refine ⟨hok.pendingBytes, ?_, ?_, ?_, ?_⟩
  · intro key hqt
    rw [hok.pendingBytes]
    rcases hpn key with hin | ⟨hno, habs⟩
    · exact hin.bytes
    · rw [hno]
      exact hqt.resolve_right habs
  · intro key hqt
    rcases hpn key with hin | ⟨hno, habs⟩
    · exact hin.count
    · rw [hno]
      exact hqt.resolve_right habs
  · intro key hmem
    obtain ⟨n, hn⟩ := mem_iff_lookup.mp hmem
    rw [hok.counted key] at hn
    obtain ⟨blobs, hbl, -⟩ := Option.map_eq_some_iff.mp hn
    exact mem_of_lookup hbl
  · intro key hk
    exact (hok.bounded key [] hk).nonempty rfl

end VulosRelay.Rendezvous
