import VulosRelay.Rendezvous.Presence

/-!
# Lifetimes of records and blobs

A requested number of seconds is multiplied by 10⁹ in signed words before it is compared
with the cap, so a large request may come out negative; and a default is merged without
regard to the maximum. `clamp_bounded_iff` says when neither happens.
-/

namespace VulosRelay.Rendezvous

open GoTime

/-- What is stored at `now` lives on, and for `max` at most. -/
def Bounded (now max expiresAt : Int) : Prop := now < expiresAt ∧ expiresAt ≤ now + max

/-- The seconds do not wrap to a number that is not positive, and the default that stands for
none is not longer than the maximum. -/
def Honoured (default max seconds : Int) : Prop :=
  if seconds ≤ 0 then default ≤ max else 0 < int64 (seconds * second)

theorem clamp_bounded_iff {default max : Int} (hdf : 0 < default) (hmax : 0 < max)
    {now seconds : Int} :
    Bounded now max (now + clamp default max seconds) ↔ Honoured default max seconds := by
  unfold Bounded Honoured clamp
  split
  · omega
  split <;> omega

theorem mergeCaps_pos (hbs : base ∈ [defaultSignalCaps, defaultMailboxCaps]) :
    0 < (mergeCaps override base).defaultTTL ∧ 0 < (mergeCaps override base).maxTTL := by
  have hpos : 0 < base.defaultTTL ∧ 0 < base.maxTTL := by
    simp only [List.mem_cons, List.not_mem_nil, or_false] at hbs
    rcases hbs with rfl | rfl <;> decide
  unfold mergeCaps
  dsimp only
  constructor <;> split <;> omega

theorem upsert_expiry {s : PresenceStore}
    (h : (s.upsert key endpoints metaText ttl now).2 = some expiresAt) :
    expiresAt = now + ttl := by
  unfold PresenceStore.upsert at h
  dsimp only at h
  split at h
  · cases h
  · exact (Option.some.inj h).symm

/--
**Lifetimes are positive and within the maximum, exactly here**: of the blobs of a queue with
the caps that `mergeCaps` produces, and of the records of the presence directory.
-/
theorem lifetimes_bounded_iff (override base : QueueCaps)
    (hbase : base ∈ [defaultSignalCaps, defaultMailboxCaps]) (seconds now : Int) :
    (∀ (q : Queue) sender recipient payload rand,
      q.caps = (newQueue (mergeCaps override base)).caps →
      (Bounded now q.caps.maxTTL
          (Queue.newBlob sender recipient payload (q.clampTTL seconds) now rand).expiresAt ↔
        Honoured q.caps.defaultTTL q.caps.maxTTL seconds)) ∧
    ∀ (s : PresenceStore) key endpoints metaText expiresAt,
      (s.upsert key endpoints metaText (clampPresenceTTL seconds) now).2 = some expiresAt →
      (Bounded now maxPresenceTTL expiresAt ↔
        Honoured defaultPresenceTTL maxPresenceTTL seconds) := by
  constructor
  · intro q sender recipient payload rand hcp
    obtain ⟨hdf, hmax⟩ := mergeCaps_pos hbase
    refine clamp_bounded_iff ?_ ?_
    · rw [hcp]
      exact hdf
    · rw [hcp]
      exact hmax
  · intro s key endpoints metaText expiresAt h
    rw [upsert_expiry h]
    exact clamp_bounded_iff (by decide) (by decide)

def noCaps : QueueCaps := ⟨0, 0, 0, 0, 0, 0, 0⟩

theorem mailbox_hour_honoured :
    Bounded 0 (48 * (60 * minute)) (Queue.newBlob "a" "b" []
      ((newQueue (mergeCaps noCaps defaultMailboxCaps)).clampTTL 3600) 0
      (List.Vector.replicate 10 0)).expiresAt :=
  ((lifetimes_bounded_iff noCaps defaultMailboxCaps (by simp) 3600 0).1
    (newQueue (mergeCaps noCaps defaultMailboxCaps)) "a" "b" [] (List.Vector.replicate 10 0)
    rfl).mpr (by unfold Honoured; decide)

/-- 9223372037 seconds wrap to a negative lifetime, for a record and for a blob; and a mailbox
with a maximum of one hour keeps a blob for which nothing is requested for two days. -/
theorem lifetimes_unbounded :
    clampPresenceTTL 9223372037 < 0 ∧
      (newQueue (mergeCaps noCaps defaultMailboxCaps)).clampTTL 9223372037 < 0 ∧
      (newQueue (mergeCaps { noCaps with maxTTL := 60 * minute } defaultMailboxCaps)).clampTTL 0
        = 48 * (60 * minute) := by
  decide

end VulosRelay.Rendezvous
