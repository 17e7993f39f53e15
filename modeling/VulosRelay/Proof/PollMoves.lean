import VulosRelay.Proof.Delivery
import VulosRelay.Rendezvous.LongPoll

/-!
# The steps of a long poll and of the deposits around it

`Move` lists what a step can be, so that an invariant is checked move by move. Two
invariants hold in every run, whatever the order of the steps. A thread that has read
the clock is not ahead of it, and a blob that has still to be notified is in its queue
until it expires (`Threads`). The poll's channel is registered under the poll's key or
nowhere, and is in nobody else's hands before a notify of that key takes it (`Channel`).
-/

namespace VulosRelay.Rendezvous

open Keyauth List Finmap Option Notifier

variable {cfg : PollConfig}

/-- The queue takes the blob of a deposit that read the clock at `now`. -/
def Stores (q : Queue) (t : DepositThread) (now : Int) : Prop :=
  (q.deposit t.sender t.recipient t.payload (q.clampTTL t.ttlSec) now t.rand).2.2 = .ok

/-- What the queue method makes of a deposit: nothing, or a sweep, or a sweep and a blob at the
back, which is then to be notified. -/
inductive Enqueued (q : Queue) (t : DepositThread) (now : Int) :
    Queue → Option DepositPc → Prop where
  | tooLarge : Enqueued q t now q none
  | full : Enqueued q t now (q.sweepLocked now) none
  | stored {b : Blob} : b.recipient = t.recipient → Stores q t now →
      Enqueued q t now ((q.sweepLocked now).append b) (some (.notify b))

inductive Move (cfg : PollConfig) (s : Sys) : Act → Sys → Prop where
  | tick {now : Int} : s.clock ≤ now → Move cfg s (.tick now) { s with clock := now }
  | read : s.poll = .arrive → Move cfg s .poll { s with poll := .pickup s.clock }
  | found {now : Int} : s.poll = .pickup now → ((s.queue cfg.box).pickup cfg.key now).2 ≠ [] →
      Move cfg s .poll (s.pickupThen cfg now fun blobs => .write blobs .found)
  | nothing {now : Int} : s.poll = .pickup now → ((s.queue cfg.box).pickup cfg.key now).2 = [] →
      Move cfg s .poll (s.pickupThen cfg now fun _ => .register)
  | register : s.poll = .register →
      Move cfg s .poll { s with notifier := s.notifier.wait cfg.key pollChan, poll := .arm }
  | arm : s.poll = .arm → Move cfg s .poll { s with poll := .select s.clock }
  | reread : s.poll = .woken → Move cfg s .poll { s with poll := .repickup s.clock }
  | repickup {now : Int} : s.poll = .repickup now →
      Move cfg s .poll (s.pickupThen cfg now fun blobs => .cancel blobs .woken)
  | cancel {blobs : List BlobView} {cause : Cause} : s.poll = .cancel blobs cause →
      Move cfg s .poll
        { s with notifier := s.notifier.cancel cfg.key pollChan, poll := .write blobs cause }
  | write {blobs : List BlobView} {cause : Cause} : s.poll = .write blobs cause →
      Move cfg s .poll { s with poll := .answered blobs cause }
  | wake {armed : Int} : s.poll = .select armed → pollChan ∈ s.notifier.closed →
      Move cfg s .wake { s with poll := .woken }
  | expire {armed : Int} : s.poll = .select armed → armed + cfg.wait ≤ s.clock →
      Move cfg s .expire { s with poll := .cancel [] (.expired armed) }
  | leave {armed : Int} : s.poll = .select armed →
      Move cfg s .leave { s with poll := .cancel [] .gone }
  | begin {d : Nat} {t : DepositThread} : s.deposits d = none →
      Move cfg s (.arrive d t) (s.setDeposit d (some { t with pc := .arrive }))
  | readDeposit {d : Nat} {t : DepositThread} : s.deposits d = some t → t.pc = .arrive →
      Move cfg s (.deposit d) (s.setDeposit d (some { t with pc := .enqueue s.clock }))
  | enqueue {d : Nat} {t : DepositThread} {now : Int} {q : Queue} {pc : Option DepositPc} :
      s.deposits d = some t → t.pc = .enqueue now → Enqueued (s.queue t.box) t now q pc →
      Move cfg s (.deposit d)
        ((s.setQueue t.box q).setDeposit d (pc.map fun pc => { t with pc := pc }))
  | notify {d : Nat} {t : DepositThread} {b : Blob} : s.deposits d = some t → t.pc = .notify b →
      Move cfg s (.deposit d)
        ({ s with notifier := s.notifier.take t.recipient }.setDeposit d
          (some { t with pc := .close (s.notifier.list t.recipient) }))
  | close {d : Nat} {t : DepositThread} {chans : List Nat} : s.deposits d = some t →
      t.pc = .close chans →
      Move cfg s (.deposit d) ({ s with notifier := s.notifier.close chans }.setDeposit d none)

def afterDeposit (t : DepositThread) (ttl now : Int) (res : DepositResult) : Option DepositPc :=
  if res = .ok then
    some (.notify (Queue.newBlob t.sender t.recipient t.payload ttl now t.rand))
  else none

theorem enqueued_deposit (q : Queue) (t : DepositThread) (now : Int) :
    let result := q.deposit t.sender t.recipient t.payload (q.clampTTL t.ttlSec) now t.rand
    Enqueued q t now result.1 (afterDeposit t (q.clampTTL t.ttlSec) now result.2.2) := by
  dsimp only [Queue.deposit]
  split
  · exact .tooLarge
  rename_i hfit
  rcases enqueue_cases (q.sweepLocked now)
    (Queue.newBlob t.sender t.recipient t.payload (q.clampTTL t.ttlSec) now t.rand)
    with heq | ⟨res, hres, heq⟩
  · have hsto : Stores q t now := by
      rw [Stores, Queue.deposit, if_neg hfit, heq]
    rw [heq]
    exact .stored rfl hsto
  · rw [heq, afterDeposit, if_neg hres]
    exact .full

theorem move_of_pollStep (h : s.pollStep cfg = some s') : Move cfg s .poll s' := by
  unfold Sys.pollStep at h
  split at h
  · next hpc => exact some.inj h ▸ .read hpc
  · rename_i now hpc
    cases h
    by_cases hbl : ((s.queue cfg.box).pickup cfg.key now).2 = []
    · have hmv := Move.nothing hpc hbl
      simpa only [Sys.pickupThen, if_pos hbl] using hmv
    · have hmv := Move.found hpc hbl
      simpa only [Sys.pickupThen, if_neg hbl] using hmv
  · next hpc => exact some.inj h ▸ .register hpc
  · next hpc => exact some.inj h ▸ .arm hpc
  · simp at h
  · next hpc => exact some.inj h ▸ .reread hpc
  · next now hpc => exact some.inj h ▸ .repickup hpc
  · next blobs cause hpc => exact some.inj h ▸ .cancel hpc
  · next blobs cause hpc => exact some.inj h ▸ .write hpc
  · simp at h

variable {t : DepositThread}

theorem move_of_depositStep (ht : s.deposits d = some t) :
    Move cfg s (.deposit d) (s.depositStep d t) := by
  unfold Sys.depositStep
  split
  · next hpc => exact .readDeposit ht hpc
  · rename_i now hpc
    have hmv : Move cfg s (.deposit d) _ := Move.enqueue ht hpc
      (enqueued_deposit (s.queue t.box) t now)
    unfold afterDeposit at hmv
    dsimp only
    split
    · next hres => rw [if_pos hres] at hmv; exact hmv
    · next hres => rw [if_neg hres] at hmv; exact hmv
  · next b hpc => exact .notify ht hpc
  · next chans hpc => exact .close ht hpc

theorem move_of_step (h : (pollSystem cfg).step s a = some s') : Move cfg s a s' := by
  have h' : s.step cfg a = some s' := h
  unfold Sys.step at h'
  split at h'
  · split at h'
    · next hle => exact some.inj h' ▸ .tick hle
    · simp at h'
  · exact move_of_pollStep h'
  · split at h'
    · rename_i armed hpc
      split at h'
      · next hcls => exact some.inj h' ▸ .wake hpc hcls
      · simp at h'
    · simp at h'
  · split at h'
    · rename_i armed hpc
      split at h'
      · next hle => exact some.inj h' ▸ .expire hpc hle
      · simp at h'
    · simp at h'
  · split at h'
    · next armed hpc => exact some.inj h' ▸ .leave hpc
    · simp at h'
  · split at h'
    · rename_i d t hno
      cases h'
      exact .begin (isNone_iff_eq_none.mp hno)
    · simp at h'
  · rename_i d
    obtain ⟨t, ht, heq⟩ := map_eq_some_iff.mp h'
    rw [← heq]
    exact move_of_depositStep ht

/-! ## Queues -/

/-- No blob that is unexpired at `clk` is lost. -/
def Kept (clk : Int) (q q' : Queue) : Prop :=
  ∀ key b, b ∈ q.pending key → clk < b.expiresAt → b ∈ q'.pending key

theorem mem_live : b ∈ live now blobs ↔ b ∈ blobs ∧ now < b.expiresAt := by
  unfold live
  rw [mem_filter, decide_eq_true_iff]

theorem kept_sweepLocked (h : now ≤ clk) : Kept clk q (q.sweepLocked now) := by
  intro key b hb hlv
  have hmem : b ∈ live clk ((q.sweepLocked now).pending key) := by
    rw [live_sweepLocked h]
    exact mem_live.mpr ⟨hb, hlv⟩
  exact (mem_live.mp hmem).1

theorem kept_enqueued (h : Enqueued q t now q' pc) (hnow : now ≤ clk) : Kept clk q q' := by
  intro key b hb hlv
  cases h with
  | tooLarge => exact hb
  | full => exact kept_sweepLocked hnow key b hb hlv
  | stored hrec _ =>
    rw [pending_append]
    exact mem_append_left _ (kept_sweepLocked hnow key b hb hlv)

theorem Enqueued.stores (h : Enqueued q t now q' (some pc)) : Stores q t now := by
  cases h with
  | stored _ hsto => exact hsto

theorem enqueued_pc (h : Enqueued q t now q' (some pc)) :
    ∃ b, pc = .notify b ∧ b ∈ q'.pending t.recipient := by
  cases h with
  | @stored b hrec _ =>
    refine ⟨b, rfl, ?_⟩
    rw [pending_append, if_pos hrec]
    exact mem_append_right _ (mem_singleton_self b)

theorem live_enqueued (h : Enqueued q t now q' pc) (hnow : now ≤ clk)
    (hb : b ∈ live clk (q'.pending key)) :
    b ∈ live clk (q.pending key) ∨ t.recipient = key ∧ pc = some (.notify b) := by
  cases h with
  | tooLarge => exact .inl hb
  | full => exact .inl (live_sweepLocked hnow q key ▸ hb)
  | @stored b' hrec _ =>
    rw [pending_append, live_append, mem_append, live_sweepLocked hnow] at hb
    rcases hb with hb | hb
    · exact .inl hb
    right
    split at hb
    · rename_i hkey
      rw [mem_singleton.mp (mem_live.mp hb).1]
      exact ⟨hrec ▸ hkey, rfl⟩
    · exact absurd (mem_live.mp hb).1 (by simp)

section

variable (s : Sys)

@[simp] theorem queue_setQueue_self (box : Box) (q : Queue) : (s.setQueue box q).queue box = q := by
  cases box <;> rfl

theorem queue_setQueue_of_ne (q : Queue) (h : box' ≠ box) :
    (s.setQueue box q).queue box' = s.queue box' := by
  cases box <;> cases box'
  · exact absurd rfl h
  · rfl
  · rfl
  · exact absurd rfl h

@[simp] theorem clock_setQueue (box : Box) (q : Queue) : (s.setQueue box q).clock = s.clock := by
  cases box <;> rfl

@[simp] theorem notifier_setQueue (box : Box) (q : Queue) :
    (s.setQueue box q).notifier = s.notifier := by
  cases box <;> rfl

@[simp] theorem poll_setQueue (box : Box) (q : Queue) : (s.setQueue box q).poll = s.poll := by
  cases box <;> rfl

@[simp] theorem deposits_setQueue (box : Box) (q : Queue) :
    (s.setQueue box q).deposits = s.deposits := by
  cases box <;> rfl

theorem deposits_setDeposit (d : Nat) (t : Option DepositThread) (d' : Nat) :
    (s.setDeposit d t).deposits d' = if d' = d then t else s.deposits d' := rfl

/-! ## Clock readings, and blobs that are still to be notified -/

end

structure Threads (s : Sys) : Prop where
  pollNow : ∀ now, s.poll = .pickup now ∨ s.poll = .repickup now → now ≤ s.clock
  depositNow : ∀ d t now, s.deposits d = some t → t.pc = .enqueue now → now ≤ s.clock
  held : ∀ d t b, s.deposits d = some t → t.pc = .notify b → s.clock < b.expiresAt →
    b ∈ (s.queue t.box).pending t.recipient

namespace Threads

variable {s : Sys}

section

variable (h : Threads s)

include h

theorem setPoll (pc : PollPc) (hnow : ∀ now, pc = .pickup now ∨ pc = .repickup now → now ≤ s.clock)
    :
    Threads { s with poll := pc } :=
  ⟨hnow, h.depositNow, h.held⟩

theorem setNotifier (n : Notifier) : Threads { s with notifier := n } :=
  ⟨h.pollNow, h.depositNow, h.held⟩

theorem setQueue (hkp : Kept s.clock (s.queue box) q) :
    Threads (s.setQueue box q) where
  pollNow now := by
    rw [poll_setQueue, clock_setQueue]
    exact h.pollNow now
  depositNow d t now := by
    rw [deposits_setQueue, clock_setQueue]
    exact h.depositNow d t now
  held d t b := by
    rw [deposits_setQueue, clock_setQueue]
    intro ht hpc hlv
    have hmem := h.held d t b ht hpc hlv
    by_cases hbox : t.box = box
    · rw [hbox] at hmem ⊢
      rw [queue_setQueue_self]
      exact hkp t.recipient b hmem hlv
    · rw [queue_setQueue_of_ne s q hbox]
      exact hmem

theorem setDeposit (d : Nat) {t : Option DepositThread}
    (hnow : ∀ t' now, t = some t' → t'.pc = .enqueue now → now ≤ s.clock)
    (hhl : ∀ t' b, t = some t' → t'.pc = .notify b → s.clock < b.expiresAt →
      b ∈ (s.queue t'.box).pending t'.recipient) :
    Threads (s.setDeposit d t) where
  pollNow := h.pollNow
  depositNow d' t' now := by
    rw [deposits_setDeposit]
    split
    · exact hnow t' now
    · exact h.depositNow d' t' now
  held d' t' b := by
    rw [deposits_setDeposit]
    split
    · exact hhl t' b
    · exact h.held d' t' b

theorem setDeposit_idle (d : Nat) {t : Option DepositThread}
    (ht : ∀ t', t = some t' → (∀ now, t'.pc ≠ .enqueue now) ∧ ∀ b, t'.pc ≠ .notify b) :
    Threads (s.setDeposit d t) :=
  h.setDeposit d (fun t' now ht' hpc => absurd hpc ((ht t' ht').1 now))
    fun t' b ht' hpc => absurd hpc ((ht t' ht').2 b)

theorem pickupThen (hnow : now ≤ s.clock) (next : List BlobView → PollPc)
    (hnx : ∀ blobs now, ¬ (next blobs = .pickup now ∨ next blobs = .repickup now)) :
    Threads (s.pickupThen cfg now next) := by
  have hqu : Threads (s.setQueue cfg.box ((s.queue cfg.box).pickup cfg.key now).1) :=
    h.setQueue (kept_sweepLocked hnow)
  exact hqu.setPoll _ fun now' hpc => absurd hpc (hnx _ now')

theorem move {s' : Sys} {a : Act} (hmv : Move cfg s a s') : Threads s' := by
  cases hmv with
  | tick hle =>
    refine ⟨fun now hpc => ?_, fun d t now ht hpc => ?_, fun d t b ht hpc hlv => ?_⟩
    · exact Int.le_trans (h.pollNow now hpc) hle
    · exact Int.le_trans (h.depositNow d t now ht hpc) hle
    · exact h.held d t b ht hpc (Int.lt_of_le_of_lt hle hlv)
  | read hpc =>
    refine h.setPoll _ fun now hnow => ?_
    rcases hnow with hnow | hnow
    · injection hnow with hnow
      exact Int.le_of_eq hnow.symm
    · simp at hnow
  | found hpc hbl | nothing hpc hbl =>
    exact h.pickupThen (h.pollNow _ (.inl hpc)) _ (by simp)
  | register hpc => exact (h.setNotifier (s.notifier.wait _ _)).setPoll .arm (by simp)
  | arm hpc | write hpc | wake hpc hcls | expire hpc hle | leave hpc =>
    exact h.setPoll _ (by simp)
  | reread hpc =>
    refine h.setPoll _ fun now hnow => ?_
    rcases hnow with hnow | hnow
    · simp at hnow
    · injection hnow with hnow
      exact Int.le_of_eq hnow.symm
  | repickup hpc => exact h.pickupThen (h.pollNow _ (.inr hpc)) _ (by simp)
  | cancel hpc => exact (h.setNotifier (s.notifier.cancel _ _)).setPoll (.write _ _) (by simp)
  | begin hno =>
    refine h.setDeposit_idle _ fun t' ht => ?_
    cases ht
    simp
  | readDeposit ht hpc =>
    refine h.setDeposit _ (fun t' now ht' hpc' => ?_) (fun t' b ht' hpc' => ?_)
    · rw [← some.inj ht'] at hpc'
      injection hpc' with hnow
      exact Int.le_of_eq hnow.symm
    · rw [← some.inj ht'] at hpc'
      simp at hpc'
  | @enqueue d t now q pc ht hpc henq =>
    have hnow := h.depositNow d t now ht hpc
    have hqu := h.setQueue (kept_enqueued henq hnow)
    refine hqu.setDeposit d (fun t' now' ht' hpc' => ?_) (fun t' b ht' hpc' hlv => ?_)
    · obtain ⟨pc', hsm, heq⟩ := map_eq_some_iff.mp ht'
      obtain ⟨b, hb, -⟩ := enqueued_pc (hsm ▸ henq)
      rw [← heq, hb] at hpc'
      simp at hpc'
    · obtain ⟨pc', hsm, heq⟩ := map_eq_some_iff.mp ht'
      obtain ⟨b', hb, hmem⟩ := enqueued_pc (hsm ▸ henq)
      rw [← heq, hb] at hpc'
      injection hpc' with hb'
      rw [← heq, ← hb', queue_setQueue_self]
      exact hmem
  | notify ht hpc =>
    refine (h.setNotifier _).setDeposit_idle _ fun t' ht' => ?_
    cases ht'
    simp
  | close ht hpc => exact (h.setNotifier _).setDeposit_idle _ nofun

end

end Threads

/-! ## Where the poll's channel is -/

namespace Notifier

theorem list_wait (n : Notifier) (key : String) (ch : Nat) (key' : String) :
    (n.wait key ch).list key' = if key' = key then n.list key ++ [ch] else n.list key' := by
  unfold list wait
  by_cases hk : key' = key
  · rw [hk, lookup_insert, if_pos rfl]
    rfl
  · rw [lookup_insert_of_ne _ hk, if_neg hk]

theorem list_take (n : Notifier) (key key' : String) :
    (n.take key).list key' = if key' = key then [] else n.list key' := by
  unfold list take
  by_cases hk : key' = key
  · rw [hk, lookup_erase, if_pos rfl]
    rfl
  · rw [lookup_erase_ne hk, if_neg hk]

theorem mem_list_cancel {n : Notifier} {key key' : String} {ch ch' : Nat}
    (h : ch' ∈ (n.cancel key ch).list key') : ch' ∈ n.list key' := by
  unfold cancel at h
  by_cases hk : key' = key
  · rw [hk] at h ⊢
    split at h
    · unfold list at h
      rw [lookup_erase] at h
      simp at h
    unfold list at h
    rw [lookup_insert] at h
    exact mem_of_mem_erase h
  · split at h
    · unfold list at h
      rwa [lookup_erase_ne hk] at h
    · unfold list at h
      rwa [lookup_insert_of_ne _ hk] at h

end Notifier

def PollPc.early : PollPc → Bool
  | .arrive => true
  | .pickup _ => true
  | .register => true
  | _ => false

def Loose (s : Sys) : Prop :=
  pollChan ∉ s.notifier.closed ∧
    ∀ d t chans, s.deposits d = some t → t.pc = .close chans → pollChan ∉ chans

/-- The channel is registered under the poll's key or nowhere, and until a notify of that key takes
it nobody else has it. -/
structure Channel (cfg : PollConfig) (s : Sys) : Prop where
  home : ∀ key, pollChan ∈ s.notifier.list key → key = cfg.key ∧ s.poll.early = false
  free : s.poll.early = true ∨ pollChan ∈ s.notifier.list cfg.key → Loose s

theorem Loose.setDeposit {s : Sys} (h : Loose s) (d : Nat) {t : Option DepositThread}
    (ht : ∀ t' chans, t = some t' → t'.pc = .close chans → pollChan ∉ chans) :
    Loose (s.setDeposit d t) := by
  refine ⟨h.1, fun d' t' chans => ?_⟩
  rw [deposits_setDeposit]
  split
  · exact ht t' chans
  · exact h.2 d' t' chans

namespace Channel

variable {s : Sys}

section

variable (h : Channel cfg s)

include h

theorem setPoll (pc : PollPc) (hpc : pc.early = true → s.poll.early = true) :
    Channel cfg { s with poll := pc } where
  home key hmem := by
    obtain ⟨hkey, her⟩ := h.home key hmem
    refine ⟨hkey, Bool.eq_false_of_not_eq_true fun htr => ?_⟩
    rw [hpc htr] at her
    simp at her
  free hfree := h.free (hfree.imp_left hpc)

theorem setQueue (box : Box) (q : Queue) :
    Channel cfg (s.setQueue box q) where
  home := by
    rw [notifier_setQueue, poll_setQueue]
    exact h.home
  free := by
    unfold Loose
    rw [notifier_setQueue, poll_setQueue, deposits_setQueue]
    exact h.free

theorem setDeposit (d : Nat) {t : Option DepositThread}
    (ht : ∀ t' chans, t = some t' → t'.pc ≠ .close chans) : Channel cfg (s.setDeposit d t) where
  home := h.home
  free hfree := (h.free hfree).setDeposit d fun t' chans ht' hpc => absurd hpc (ht t' chans ht')

theorem move {s' : Sys} {a : Act} (hmv : Move cfg s a s') : Channel cfg s' := by
  cases hmv with
  | tick hle => exact ⟨h.home, h.free⟩
  | read hpc => exact h.setPoll _ fun _ => by rw [hpc]; rfl
  | found hpc hbl | repickup hpc => exact (h.setQueue _ _).setPoll _ (by simp [PollPc.early])
  | nothing hpc hbl =>
    exact (h.setQueue _ _).setPoll _ fun _ => by rw [poll_setQueue, hpc]; rfl
  | register hpc =>
    refine ⟨fun key hmem => ?_, fun _ => h.free (.inl (by rw [hpc]; rfl))⟩
    refine ⟨?_, rfl⟩
    by_contra hkey
    have hls : pollChan ∈ (s.notifier.wait cfg.key pollChan).list key := hmem
    rw [list_wait, if_neg hkey] at hls
    exact hkey (h.home key hls).1
  | arm hpc | reread hpc | write hpc | wake hpc hcls | expire hpc hle | leave hpc =>
    exact h.setPoll _ (by simp [PollPc.early])
  | cancel hpc =>
    refine ⟨fun key hmem => ?_, fun hfr => ?_⟩
    · exact ⟨(h.home key (mem_list_cancel hmem)).1, rfl⟩
    rcases hfr with her | hmem
    · exact absurd her (by simp [PollPc.early])
    unfold Loose cancel
    have hlso := h.free (.inr (mem_list_cancel hmem))
    split <;> exact hlso
  | begin hno =>
    refine h.setDeposit _ fun t' chans ht => ?_
    cases ht
    simp
  | readDeposit ht hpc =>
    refine h.setDeposit _ fun t' chans ht' => ?_
    cases ht'
    simp
  | enqueue ht hpc henq =>
    refine (h.setQueue _ _).setDeposit _ fun t' chans ht' hcl => ?_
    obtain ⟨pc', hsm, heq⟩ := map_eq_some_iff.mp ht'
    obtain ⟨b, hb, -⟩ := enqueued_pc (hsm ▸ henq)
    rw [← heq, hb] at hcl
    simp at hcl
  | @notify d t b ht hpc =>
    have hsub : ∀ key, pollChan ∈ (s.notifier.take t.recipient).list key →
        pollChan ∈ s.notifier.list key ∧ key ≠ t.recipient := by
      intro key hmem
      rw [list_take] at hmem
      split at hmem
      · simp at hmem
      · next hne => exact ⟨hmem, hne⟩
    refine ⟨fun key hmem => h.home key (hsub key hmem).1, fun hfr => ?_⟩
    -- What the notify takes is not the poll's channel, if that is still early or still there.
    have hnot : pollChan ∉ s.notifier.list t.recipient := by
      intro hmem
      obtain ⟨hkey, her⟩ := h.home _ hmem
      rcases hfr with hfr | hfr
      · exact absurd (her.symm.trans hfr) (by simp)
      · exact (hsub _ hfr).2 hkey.symm
    have hlso : Loose s := h.free (hfr.imp_right fun hmem => (hsub _ hmem).1)
    have htk : Loose { s with notifier := s.notifier.take t.recipient } := hlso
    refine htk.setDeposit d fun t' chans ht' hcl => ?_
    rw [← some.inj ht'] at hcl
    cases hcl
    exact hnot
  | @close d t chans ht hpc =>
    refine ⟨h.home, fun hfr => ?_⟩
    obtain ⟨hcls, hhl⟩ := h.free hfr
    have hsh : Loose { s with notifier := s.notifier.close chans } := by
      refine ⟨fun hmem => ?_, hhl⟩
      rcases mem_append.mp hmem with hmem | hmem
      · exact hhl d t chans ht hpc hmem
      · exact hcls hmem
    exact hsh.setDeposit d nofun

end

end Channel

end VulosRelay.Rendezvous
