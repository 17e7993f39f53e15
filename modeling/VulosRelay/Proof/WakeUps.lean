import VulosRelay.Proof.PollMoves

/-!
# When a long poll neither loses nor invents a wake-up

An empty answer should mean that the wait is over, or the client gone, with nothing
there to deliver. A deposit is two steps, the blob and then the notify, and the
poll's look at the queue and its registration are two steps as well, so this depends
on where deposits fall. `Orderly` names the four places where one goes wrong:

* a blob comes between the first pickup and the registration, or after the poll has
  decided to answer with nothing;
* the timer or the client's departure is acted on while a deposit is between its blob
  and the end of its notify;
* the notify that reaches the poll is of the other queue, or of a blob that has
  expired;
* a blob expires between the notify and the second pickup.

Elsewhere the argument is an invariant of three parts. Whatever is unexpired in the
poll's queue while it listens has a deposit that has still to notify (`listening`);
once a notify has reached it there is something to find (`alerted`); and while it
cannot hear there is nothing (`deaf`).
-/

namespace VulosRelay.Rendezvous

open Keyauth List

variable {cfg : PollConfig}

variable {b : Blob} {now : Int} {d : Nat} {t : DepositThread}

def Sys.arrived (cfg : PollConfig) (s : Sys) : List Blob :=
  live s.clock ((s.queue cfg.box).pending cfg.key)

def PollPc.deaf : PollPc → Bool
  | .register => true
  | .cancel [] _ => true
  | .write [] _ => true
  | _ => false

def PollPc.waiting : PollPc → Bool
  | .arm => true
  | .select _ => true
  | _ => false

def PollPc.roused : PollPc → Bool
  | .woken => true
  | .repickup _ => true
  | _ => false

/-- A notify of the key would reach the poll. -/
def Listening (cfg : PollConfig) (s : Sys) : Prop :=
  s.poll.waiting = true ∧ pollChan ∈ s.notifier.list cfg.key

/-- A notify has reached the poll, and it has not looked since. -/
def Alerted (cfg : PollConfig) (s : Sys) : Prop :=
  (s.poll.waiting = true ∧ pollChan ∉ s.notifier.list cfg.key) ∨ s.poll.roused = true

/-- A deposit of the poll's queue and key. -/
def Ours (cfg : PollConfig) (t : DepositThread) : Prop :=
  t.box = cfg.box ∧ t.recipient = cfg.key

/-- The condition on a step, in the four places of the introduction. -/
def Orderly (cfg : PollConfig) (s : Sys) : Act → Prop
  -- No blob of the poll's queue expires after the notify and before the second pickup.
  | .tick now => Alerted cfg s → ∀ b ∈ s.arrived cfg, now < b.expiresAt
  -- The wait ends by itself only while no notify is under way or due.
  | .expire | .leave =>
    Listening cfg s ∧ ∀ d t b, s.deposits d = some t → t.pc = .notify b → Ours cfg t →
      b.expiresAt ≤ s.clock
  | .deposit d => ∀ t, s.deposits d = some t →
      -- No blob comes while the poll cannot hear of it.
      (∀ now, t.pc = .enqueue now → Ours cfg t → Stores (s.queue t.box) t now →
        s.poll.deaf = false) ∧
      -- What wakes the poll is a blob of its own queue.
      (∀ b, t.pc = .notify b → t.recipient = cfg.key → Listening cfg s →
        Ours cfg t ∧ s.clock < b.expiresAt)
  | _ => True

/-! ## What has arrived -/

variable {s : Sys}

theorem mem_arrived :
    b ∈ s.arrived cfg ↔ b ∈ (s.queue cfg.box).pending cfg.key ∧ s.clock < b.expiresAt :=
  mem_live

theorem arrived_tick (hle : s.clock ≤ now) (hb : b ∈ Sys.arrived cfg { s with clock := now }) :
    b ∈ s.arrived cfg := by
  obtain ⟨hmem, hlv⟩ := mem_live.mp hb
  exact mem_arrived.mpr ⟨hmem, Int.lt_of_le_of_lt hle hlv⟩

theorem arrived_pickupThen (hle : now ≤ s.clock) {next : List BlobView → PollPc} :
    (s.pickupThen cfg now next).arrived cfg = s.arrived cfg := by
  have hqu : (s.pickupThen cfg now next).queue cfg.box
      = (s.queue cfg.box).sweepLocked now :=
    queue_setQueue_self s cfg.box _
  have hclk : (s.pickupThen cfg now next).clock = s.clock := clock_setQueue s cfg.box _
  unfold Sys.arrived
  rw [hqu, hclk, live_sweepLocked hle]

theorem arrived_of_pickup (hle : now ≤ s.clock) (h : ((s.queue cfg.box).pickup cfg.key now).2 = [])
    : s.arrived cfg = [] := by
  have hno : live now (((s.queue cfg.box).sweepLocked now).pending cfg.key) = [] :=
    map_eq_nil_iff.mp h
  rw [live_sweepLocked (Int.le_refl now)] at hno
  unfold Sys.arrived
  rw [← live_live hle, hno]
  rfl

variable {pc : Option DepositPc} {q : Queue}

theorem arrived_enqueue (henq : Enqueued (s.queue t.box) t now q pc) (hnow : now ≤ s.clock)
    {t' : Option DepositThread} (hb : b ∈ ((s.setQueue t.box q).setDeposit d t').arrived cfg) :
    b ∈ s.arrived cfg ∨ Ours cfg t ∧ pc = some (.notify b) := by
  have hmem : b ∈ live s.clock (((s.setQueue t.box q).queue cfg.box).pending cfg.key) := by
    rw [← clock_setQueue s t.box q]
    exact hb
  by_cases hbox : cfg.box = t.box
  · rw [hbox, queue_setQueue_self] at hmem
    rcases live_enqueued henq hnow hmem with hold | ⟨hkey, hpc⟩
    · rw [← hbox] at hold
      exact .inl hold
    · exact .inr ⟨⟨hbox.symm, hkey⟩, hpc⟩
  · rw [queue_setQueue_of_ne s q hbox] at hmem
    exact .inl hmem

theorem arrived_enqueue_of_mem (henq : Enqueued (s.queue t.box) t now q pc) (hnow : now ≤ s.clock)
    {t' : Option DepositThread} (hb : b ∈ s.arrived cfg) :
    b ∈ ((s.setQueue t.box q).setDeposit d t').arrived cfg := by
  obtain ⟨hmem, hlv⟩ := mem_arrived.mp hb
  have hclk : ((s.setQueue t.box q).setDeposit d t').clock = s.clock := clock_setQueue s t.box q
  refine mem_arrived.mpr ⟨?_, by rw [hclk]; exact hlv⟩
  show b ∈ ((s.setQueue t.box q).queue cfg.box).pending cfg.key
  by_cases hbox : cfg.box = t.box
  · rw [hbox] at hmem ⊢
    rw [queue_setQueue_self]
    exact kept_enqueued henq hnow cfg.key b hmem hlv
  · rw [queue_setQueue_of_ne s q hbox]
    exact hmem

/-! ## What the poll knows of it -/

/-- A deposit of the poll's queue and key has stored `b` and has still to notify. -/
def Due (cfg : PollConfig) (s : Sys) (b : Blob) : Prop :=
  ∃ d t, s.deposits d = some t ∧ t.pc = .notify b ∧ Ours cfg t

def Excuse (cfg : PollConfig) (clock : Int) : Cause → Prop
  | .expired armed => armed + cfg.wait ≤ clock
  | .gone => True
  | _ => False

/-- The invariant, in the parts of the introduction. -/
structure Noticed (cfg : PollConfig) (s : Sys) : Prop where
  /-- While the poll cannot hear, its queue has nothing. -/
  deaf : s.poll.deaf = true → s.arrived cfg = []
  /-- Once it is alerted, there is something to find. -/
  alerted : Alerted cfg s → s.arrived cfg ≠ []
  /-- While it listens, what is there has a notify to come. -/
  listening : Listening cfg s → ∀ b ∈ s.arrived cfg, Due cfg s b
  /-- An empty answer has its reason. -/
  excused : ∀ cause, s.poll = .cancel [] cause ∨ s.poll = .write [] cause →
    Excuse cfg s.clock cause

namespace Noticed

variable {s : Sys}

theorem not_alerted (hwt : s.poll.waiting = false) (hrs : s.poll.roused = false) :
    ¬ Alerted cfg s := by
  intro h
  rcases h with ⟨h, -⟩ | h
  · exact absurd (hwt.symm.trans h) (by simp)
  · exact absurd (hrs.symm.trans h) (by simp)

theorem not_listening (hwt : s.poll.waiting = false) : ¬ Listening cfg s :=
  fun h => absurd (hwt.symm.trans h.1) (by simp)

theorem of_hearing (hdf : s.poll.deaf = false) (hal : Alerted cfg s → s.arrived cfg ≠ [])
    (hls : Listening cfg s → ∀ b ∈ s.arrived cfg, Due cfg s b) : Noticed cfg s where
  deaf h := absurd (hdf.symm.trans h) (by simp)
  alerted := hal
  listening := hls
  excused cause h := by
    rcases h with h | h
    all_goals
      rw [h] at hdf
      exact absurd hdf (by simp [PollPc.deaf])

theorem of_idle (hdf : s.poll.deaf = false) (hwt : s.poll.waiting = false)
    (hrs : s.poll.roused = false) : Noticed cfg s :=
  of_hearing hdf (fun h => absurd h (not_alerted hwt hrs))
    fun h => absurd h (not_listening hwt)

theorem of_deaf (hwt : s.poll.waiting = false) (hrs : s.poll.roused = false)
    (hno : s.arrived cfg = [])
    (hex : ∀ cause, s.poll = .cancel [] cause ∨ s.poll = .write [] cause →
      Excuse cfg s.clock cause) : Noticed cfg s where
  deaf _ := hno
  alerted h := absurd h (not_alerted hwt hrs)
  listening h := absurd h (not_listening hwt)
  excused := hex

section

variable (h : Noticed cfg s)

include h

theorem arrived_of_listening (hlis : Listening cfg s)
    (hdue : ∀ d t b, s.deposits d = some t → t.pc = .notify b → Ours cfg t →
      b.expiresAt ≤ s.clock) : s.arrived cfg = [] := by
  refine eq_nil_iff_forall_not_mem.mpr fun b hb => ?_
  obtain ⟨d, t, ht, hpc, hours⟩ := h.listening hlis b hb
  exact absurd (mem_arrived.mp hb).2 (Int.not_lt.mpr (hdue d t b ht hpc hours))

theorem give_up (hlis : Listening cfg s)
    (hdue : ∀ d t b, s.deposits d = some t → t.pc = .notify b → Ours cfg t →
      b.expiresAt ≤ s.clock) {cause : Cause} (hex : Excuse cfg s.clock cause) :
    Noticed cfg { s with poll := .cancel [] cause } := by
  refine of_deaf rfl rfl (h.arrived_of_listening hlis hdue) fun cause' hcs => ?_
  rcases hcs with hcs | hcs
  · injection hcs with _ hcs
    rw [← hcs]
    exact hex
  · simp at hcs

theorem setDeposit (d : Nat) (t : Option DepositThread)
    (hd : ∀ t' b, s.deposits d = some t' → t'.pc ≠ .notify b) :
    Noticed cfg (s.setDeposit d t) where
  deaf := h.deaf
  alerted := h.alerted
  listening hlis b hb := by
    obtain ⟨d', t', ht', hpc, hours⟩ := h.listening hlis b hb
    have hne : d' ≠ d := fun heq => hd t' b (heq ▸ ht') hpc
    refine ⟨d', t', ?_, hpc, hours⟩
    rw [deposits_setDeposit, if_neg hne]
    exact ht'
  excused := h.excused

theorem tick (hle : s.clock ≤ now) (hok : Orderly cfg s (.tick now)) :
    Noticed cfg { s with clock := now } where
  deaf hdeaf := by
    refine eq_nil_iff_forall_not_mem.mpr fun b hb => ?_
    have hold := arrived_tick hle hb
    rw [h.deaf hdeaf] at hold
    simp at hold
  alerted halert := by
    obtain ⟨b, hb⟩ := exists_mem_of_ne_nil _ (h.alerted halert)
    have hnew : b ∈ Sys.arrived cfg { s with clock := now } :=
      mem_arrived.mpr ⟨(mem_arrived.mp hb).1, hok halert b hb⟩
    exact ne_nil_of_mem hnew
  listening hlis b hb := h.listening hlis b (arrived_tick hle hb)
  excused cause hpc := by
    have hold := h.excused cause hpc
    cases cause with
    | expired armed => exact Int.le_trans hold hle
    | gone => trivial
    | found => exact hold
    | woken => exact hold

theorem enqueue (ht : s.deposits d = some t) (hpc : t.pc = .enqueue now)
    (henq : Enqueued (s.queue t.box) t now q pc) (hnow : now ≤ s.clock)
    (hok : Orderly cfg s (.deposit d)) :
    Noticed cfg ((s.setQueue t.box q).setDeposit d (pc.map fun pc => { t with pc := pc })) := by
  have hpl : ((s.setQueue t.box q).setDeposit d (pc.map fun pc => { t with pc := pc })).poll
      = s.poll := poll_setQueue s t.box q
  have hnt : ((s.setQueue t.box q).setDeposit d
      (pc.map fun pc => { t with pc := pc })).notifier = s.notifier := notifier_setQueue s t.box q
  have hclk : ((s.setQueue t.box q).setDeposit d (pc.map fun pc => { t with pc := pc })).clock
      = s.clock := clock_setQueue s t.box q
  refine ⟨fun hdf => ?_, fun hal => ?_, fun hlis b hb => ?_, fun cause => ?_⟩
  · rw [hpl] at hdf
    refine eq_nil_iff_forall_not_mem.mpr fun b hb => ?_
    rcases arrived_enqueue henq hnow hb with hold | ⟨hours, rfl⟩
    · rw [h.deaf hdf] at hold
      simp at hold
    · exact absurd (((hok t ht).1 now hpc hours henq.stores).symm.trans hdf) (by simp)
  · unfold Alerted at hal
    rw [hpl, hnt] at hal
    obtain ⟨b, hb⟩ := exists_mem_of_ne_nil _ (h.alerted hal)
    exact ne_nil_of_mem (arrived_enqueue_of_mem henq hnow hb)
  · unfold Listening at hlis
    rw [hpl, hnt] at hlis
    rcases arrived_enqueue henq hnow hb with hold | ⟨hours, hsto⟩
    · obtain ⟨d', t', ht', hpc', hours'⟩ := h.listening hlis b hold
      refine ⟨d', t', ?_, hpc', hours'⟩
      have hne : d' ≠ d := by
        intro heq
        rw [heq, ht] at ht'
        rw [← Option.some.inj ht', hpc] at hpc'
        simp at hpc'
      rw [deposits_setDeposit, if_neg hne, deposits_setQueue]
      exact ht'
    · refine ⟨d, { t with pc := .notify b }, ?_, rfl, hours⟩
      rw [deposits_setDeposit, if_pos rfl, hsto]
      rfl
  · rw [hpl, hclk]
    exact h.excused cause

/-- A deposit takes the channels of its key: if the poll's is among them there is something for
the poll to find, and if it is not, no blob of the poll is due by this deposit. -/
theorem notify (hthr : Threads s) (ht : s.deposits d = some t) (hpc : t.pc = .notify b)
    (hok : Orderly cfg s (.deposit d)) (t' : Option DepositThread) :
    Noticed cfg ({ s with notifier := s.notifier.take t.recipient }.setDeposit d t') where
  deaf := h.deaf
  alerted halert := by
    by_cases hold : Alerted cfg s
    · exact h.alerted hold
    -- The poll was listening until this step, so the notify is of its key.
    rcases halert with ⟨hwt, hgn⟩ | hrs
    · have hin : pollChan ∈ s.notifier.list cfg.key := by
        by_contra hout
        exact hold (.inl ⟨hwt, hout⟩)
      have hkey : t.recipient = cfg.key := by
        by_contra hne
        refine hgn ?_
        show pollChan ∈ (s.notifier.take t.recipient).list cfg.key
        rw [Notifier.list_take, if_neg (Ne.symm hne)]
        exact hin
      obtain ⟨hours, hlv⟩ := (hok t ht).2 b hpc hkey ⟨hwt, hin⟩
      have hmem := hthr.held d t b ht hpc hlv
      rw [hours.1, hours.2] at hmem
      have har : b ∈ s.arrived cfg := mem_arrived.mpr ⟨hmem, hlv⟩
      exact ne_nil_of_mem har
    · exact absurd (.inr hrs) hold
  listening hlis b' hb' := by
    obtain ⟨hwt, hin⟩ := hlis
    have hin' : pollChan ∈ (s.notifier.take t.recipient).list cfg.key := hin
    rw [Notifier.list_take] at hin'
    split at hin'
    · simp at hin'
    rename_i hne
    obtain ⟨d', t'', ht'', hpc', hours⟩ := h.listening ⟨hwt, hin'⟩ b' hb'
    refine ⟨d', t'', ?_, hpc', hours⟩
    have hd : d' ≠ d := by
      intro heq
      rw [heq, ht] at ht''
      rw [← Option.some.inj ht''] at hours
      exact hne hours.2.symm
    rw [deposits_setDeposit, if_neg hd]
    exact ht''
  excused := h.excused

theorem move (hthr : Threads s) (hch : Channel cfg s) {s' : Sys} {a : Act}
    (hmv : Move cfg s a s') (hok : Orderly cfg s a) : Noticed cfg s' := by
  cases hmv with
  | tick hle => exact h.tick hle hok
  | read hpc | write hpc => exact of_idle rfl rfl rfl
  | @found now hpc hbl =>
    refine of_idle ?_ rfl rfl
    show PollPc.deaf (.write _ _) = false
    cases hvw : ((s.queue cfg.box).pickup cfg.key now).2 with
    | nil => exact absurd hvw hbl
    | cons b bs => rfl
  | @nothing now hpc hbl =>
    have hle := hthr.pollNow now (.inl hpc)
    refine of_deaf rfl rfl ?_ (fun cause hcs => ?_)
    · rw [arrived_pickupThen hle]
      exact arrived_of_pickup hle hbl
    rcases hcs with hcs | hcs <;> exact absurd hcs (by simp [Sys.pickupThen])
  | register hpc =>
    have hno : s.arrived cfg = [] := h.deaf (by rw [hpc]; rfl)
    refine of_hearing rfl (fun hal => ?_) fun _ b hb => ?_
    · rcases hal with ⟨-, hout⟩ | hrs
      · refine absurd ?_ hout
        show pollChan ∈ (s.notifier.wait cfg.key pollChan).list cfg.key
        rw [Notifier.list_wait, if_pos rfl]
        exact mem_append_right _ (mem_singleton_self _)
      · exact absurd hrs (by simp [PollPc.roused])
    · have hmem : b ∈ s.arrived cfg := hb
      rw [hno] at hmem
      simp at hmem
  | arm hpc =>
    refine of_hearing rfl (fun hal => ?_) fun hlis => ?_
    · rcases hal with ⟨-, hout⟩ | hrs
      · exact h.alerted (.inl ⟨by rw [hpc]; rfl, hout⟩)
      · exact absurd hrs (by simp [PollPc.roused])
    · exact h.listening ⟨by rw [hpc]; rfl, hlis.2⟩
  | reread hpc =>
    refine of_hearing rfl (fun _ => ?_) fun hlis => absurd hlis (not_listening rfl)
    exact h.alerted (.inr (by rw [hpc]; rfl))
  | @repickup now hpc =>
    have hle := hthr.pollNow now (.inr hpc)
    have hsm := h.alerted (.inr (by rw [hpc]; rfl))
    refine of_idle ?_ rfl rfl
    show PollPc.deaf (.cancel _ _) = false
    cases hvw : ((s.queue cfg.box).pickup cfg.key now).2 with
    | nil => exact absurd (arrived_of_pickup hle hvw) hsm
    | cons b bs => rfl
  | @cancel blobs cause hpc =>
    cases blobs with
    | cons b bs => exact of_idle rfl rfl rfl
    | nil =>
      refine of_deaf rfl rfl (h.deaf (by rw [hpc]; rfl)) fun cause' hcs => ?_
      rcases hcs with hcs | hcs
      · simp at hcs
      injection hcs with _ hcs
      rw [← hcs]
      exact h.excused cause (.inl hpc)
  | @wake armed hpc hcls =>
    -- The channel has been closed, so a notify has taken it.
    have hout : pollChan ∉ s.notifier.list cfg.key :=
      fun hin => (hch.free (.inr hin)).1 hcls
    refine of_hearing rfl (fun _ => ?_) fun hlis => absurd hlis (not_listening rfl)
    exact h.alerted (.inl ⟨by rw [hpc]; rfl, hout⟩)
  | expire hpc hle => exact h.give_up hok.1 hok.2 hle
  | leave hpc => exact h.give_up hok.1 hok.2 trivial
  | begin hno =>
    refine h.setDeposit _ _ fun t' b ht' => ?_
    rw [hno] at ht'
    simp at ht'
  | readDeposit ht hpc =>
    refine h.setDeposit _ _ fun t' b ht' => ?_
    rw [ht] at ht'
    rw [← Option.some.inj ht', hpc]
    simp
  | @enqueue d t now q pc ht hpc henq =>
    exact h.enqueue ht hpc henq (hthr.depositNow d t now ht hpc) hok
  | notify ht hpc => exact h.notify hthr ht hpc hok _
  | @close d t chans ht hpc =>
    have hcls : Noticed cfg { s with notifier := s.notifier.close chans } :=
      ⟨h.deaf, h.alerted, h.listening, h.excused⟩
    refine hcls.setDeposit _ _ fun t' b ht' => ?_
    have ht'' : s.deposits d = some t' := ht'
    rw [ht] at ht''
    rw [← Option.some.inj ht'', hpc]
    simp

end

end Noticed

/-! ## Every run -/

structure Inv (cfg : PollConfig) (s : Sys) : Prop where
  threads : Threads s
  channel : Channel cfg s
  noticed : Noticed cfg s

theorem inv_start (h : Start s) : Inv cfg s := by
  obtain ⟨hpl, hnt, hdp⟩ := h
  have hls : ∀ key, pollChan ∉ s.notifier.list key := by
    intro key
    rw [hnt]
    exact not_mem_nil
  refine ⟨⟨fun now hpc => ?_, fun d t now ht => ?_, fun d t b ht => ?_⟩,
    ⟨fun key hmem => absurd hmem (hls key), fun _ => ⟨?_, fun d t chans ht => ?_⟩⟩,
    Noticed.of_idle ?_ ?_ ?_⟩
  · rw [hpl] at hpc
    simp at hpc
  · rw [hdp d] at ht
    simp at ht
  · rw [hdp d] at ht
    simp at ht
  · rw [hnt]
    exact not_mem_nil
  · rw [hdp d] at ht
    simp at ht
  all_goals
    rw [hpl]
    rfl

theorem inv_step (h : Inv cfg s) (hok : Orderly cfg s a)
    (hst : (pollSystem cfg).step s a = some s') : Inv cfg s' := by
  have hmv := move_of_step hst
  exact ⟨h.threads.move hmv, h.channel.move hmv, h.noticed.move h.threads h.channel hmv hok⟩

theorem inv_reachable (h : (pollSystem cfg).Reachable (Orderly cfg) s) : Inv cfg s :=
  h.invariant (fun _ hst => inv_start hst) fun _ _ _ hinv hok hstp => inv_step hinv hok hstp

/-- **An empty answer means that nothing is there.** In every run whose steps are all orderly, a
poll that is about to answer with an empty list has waited its time or has lost its client, and its
queue holds no unexpired blob. -/
theorem empty_answer_nothing_there (cfg : PollConfig) (s : Sys)
    (h : (pollSystem cfg).Reachable (Orderly cfg) s) (cause : Cause)
    (hanswer : s.poll = .write [] cause) :
    ((∃ armed, cause = .expired armed ∧ armed + cfg.wait ≤ s.clock) ∨ cause = .gone)
      ∧ live s.clock ((s.queue cfg.box).pending cfg.key) = [] := by
  have hinv := (inv_reachable h).noticed
  refine ⟨?_, hinv.deaf (by rw [hanswer]; rfl)⟩
  have hex := hinv.excused cause (.inr hanswer)
  cases cause with
  | found | woken => exact absurd hex id
  | expired armed => exact .inl ⟨armed, rfl, hex⟩
  | gone => exact .inr rfl

def oneSecond : PollConfig where
  key := "r"
  box := .mailbox
  waitSec := 1
  maxPollWait := 25 * GoTime.second
  long := by decide

def freshRelay : Sys where
  clock := 0
  signal := newQueue { smallCaps with defaultTTL := GoTime.minute, maxTTL := GoTime.minute }
  mailbox := newQueue { smallCaps with defaultTTL := GoTime.minute, maxTTL := GoTime.minute }
  notifier := Notifier.new
  poll := .arrive
  deposits := fun _ => none

def someDeposit (box : Box) : DepositThread where
  box := box
  sender := "s"
  recipient := "r"
  payload := [1]
  ttlSec := 0
  rand := someRand 1
  pc := .arrive

theorem freshRelay_reachable :
    (pollSystem oneSecond).Reachable ok freshRelay :=
  .init ⟨rfl, rfl, fun _ => rfl⟩

def wholeDeposit (d : Nat) (t : DepositThread) : List Act :=
  .arrive d t :: replicate 4 (.deposit d)

def depositAll (box : Box) : List Act := wholeDeposit 0 (someDeposit box)

/-- A check for runs of at most two deposits at a time: orderly, because while the poll waits or
cannot hear, the deposits are of other keys. -/
def quietCheck (cfg : PollConfig) (s : Sys) : Act → Bool
  | .tick _ => !s.poll.roused && (!s.poll.waiting || (s.notifier.list cfg.key).contains pollChan)
  | .deposit d => (s.deposits d).all fun t =>
      t.recipient != cfg.key || !s.poll.deaf && !s.poll.waiting
  | .arrive d _ => d < 2
  | .expire | .leave => false
  | _ => true

theorem orderly_of_quietCheck {a : Act} (h : quietCheck cfg s a = true) :
    Orderly cfg s a ∧ ∀ d t, a = .arrive d t → d < 2 := by
  cases a with
  | poll | wake => exact ⟨trivial, by simp⟩
  | expire | leave => simp [quietCheck] at h
  | arrive d t =>
    refine ⟨trivial, fun d' t' heq => ?_⟩
    cases heq
    exact of_decide_eq_true h
  | tick now =>
    refine ⟨fun hal => ?_, by simp⟩
    simp only [quietCheck, Bool.and_eq_true, Bool.or_eq_true, Bool.not_eq_true', contains_iff_mem]
      at h
    rcases hal with ⟨hwt, hout⟩ | hrs
    · rcases h.2 with hno | hin
      · exact absurd (hno.symm.trans hwt) (by simp)
      · exact absurd hin hout
    · exact absurd (h.1.symm.trans hrs) (by simp)
  | deposit d =>
    refine ⟨fun t ht => ?_, by simp⟩
    simp only [quietCheck, ht, Option.all_some, Bool.or_eq_true, bne_iff_ne, Bool.and_eq_true,
      Bool.not_eq_true'] at h
    refine ⟨fun _ _ hours _ => ?_, fun _ _ hkey hlis => ?_⟩
    · exact (h.resolve_left fun hne => hne hours.2).1
    · have hwt := (h.resolve_left fun hne => hne hkey).2
      exact absurd hlis (Noticed.not_listening hwt)

theorem deposits_move {s' : Sys} {a : Act} (hmv : Move cfg s a s') (hno : s.deposits d = none)
    (hnew : ∀ t, a ≠ .arrive d t) : s'.deposits d = none := by
  cases hmv with
  | @begin d' t _ =>
    have hne : d ≠ d' := fun heq => hnew t (by rw [heq])
    rw [deposits_setDeposit, if_neg hne]
    exact hno
  | readDeposit ht _ | notify ht _ | close ht _ | enqueue ht _ _ =>
    rw [deposits_setDeposit, if_neg (fun heq => by rw [heq, ht] at hno; simp at hno)]
    simpa using hno
  | found | nothing | repickup =>
    exact (congrFun (deposits_setQueue s _ _) d).trans hno
  | _ => exact hno

theorem deposits_of_quiet
    (h : (pollSystem cfg).Reachable
      (fun s a => Orderly cfg s a ∧ ∀ d t, a = .arrive d t → d < 2) s) (hd : 2 ≤ d) :
    s.deposits d = none := by
  refine h.invariant (P := fun s => s.deposits d = none) ?_ ?_
  · exact fun s (hst : Start s) => hst.2.2 d
  intro s a s' hno hok hstp
  exact deposits_move (move_of_step hstp) hno fun t heq => absurd (hok.2 d t heq) (by omega)

/-- A blob of a second for the poll's key, which expires before the poll comes, one for the same
key on the other queue, and one for another key while the poll waits. -/
def depositsAround : List Act :=
  wholeDeposit 0 { someDeposit .mailbox with ttlSec := 1 } ++ wholeDeposit 1 (someDeposit .signal)
    ++ [.tick GoTime.second, .poll, .poll, .poll, .poll]
    ++ wholeDeposit 0 { someDeposit .mailbox with recipient := "q" }
    ++ [.tick (2 * GoTime.second)]

theorem empty_answer_after_second :
    ∃ s, (pollSystem oneSecond).Reachable (Orderly oneSecond) s
      ∧ s.poll = .write [] (.expired GoTime.second)
      ∧ s.signal.pending "r" ≠ [] ∧ s.mailbox.pending "r" ≠ []
      ∧ GoTime.second + oneSecond.wait ≤ s.clock
      ∧ live s.clock (s.mailbox.pending "r") = [] := by
  obtain ⟨s, hrch, hend⟩ := freshRelay_reachable.exists_of_run (quietCheck oneSecond) depositsAround
    (fun s => s.poll = .select GoTime.second ∧ s.clock = 2 * GoTime.second ∧
      pollChan ∈ s.notifier.list "r" ∧ s.signal.pending "r" ≠ [] ∧ s.mailbox.pending "r" ≠ [] ∧
      s.deposits 0 = none ∧ s.deposits 1 = none)
    (fun _ _ => orderly_of_quietCheck) (by decide)
  obtain ⟨hpl, hclk, hin, hsig, hmail, h0, h1⟩ := of_decide_eq_true hend
  have hno : ∀ d, s.deposits d = none
    | 0 => h0
    | 1 => h1
    | d + 2 => deposits_of_quiet hrch (by omega)
  have hor : (pollSystem oneSecond).Reachable (Orderly oneSecond) s :=
    hrch.mono fun _ _ hok => hok.1
  have hover : GoTime.second + oneSecond.wait ≤ s.clock := by
    rw [hclk]
    decide
  have hex : (pollSystem oneSecond).Reachable (Orderly oneSecond)
      { s with poll := .cancel [] (.expired GoTime.second) } := by
    refine .tail (a := .expire) hor ⟨⟨by rw [hpl]; rfl, hin⟩, fun d t b ht => ?_⟩ ?_
    · rw [hno d] at ht
      simp at ht
    · simp only [pollSystem, Sys.step, hpl, if_pos hover]
  have hcn : (pollSystem oneSecond).Reachable (Orderly oneSecond) _ :=
    .tail (a := .poll) hex trivial rfl
  have hnth := empty_answer_nothing_there oneSecond _ hcn (.expired GoTime.second) rfl
  exact ⟨_, hcn, rfl, hsig, hmail, hover, hnth.2⟩

/-- **A wake-up is lost, and one is invented.** A deposit that falls between the poll's look at the
queue and its registration notifies nobody, and the poll waits its second out and answers with
nothing while the blob is there. A deposit to the other queue wakes a poll of this one, which then
answers with nothing although its second is not over. -/
theorem wakeup_lost_or_invented :
    (∃ s, (pollSystem oneSecond).Reachable (fun _ _ => True) s
      ∧ s.poll = .write [] (.expired 0) ∧ live s.clock (s.mailbox.pending "r") ≠ [])
    ∧ ∃ s, (pollSystem oneSecond).Reachable (fun _ _ => True) s
      ∧ s.poll = .write [] .woken ∧ s.clock < oneSecond.wait := by
  constructor
  · exact freshRelay_reachable.exists_after
      ([.poll, .poll] ++ depositAll .mailbox ++ [.poll, .poll, .tick GoTime.second, .expire, .poll])
      (fun s => s.poll = .write [] (.expired 0) ∧ live s.clock (s.mailbox.pending "r") ≠ [])
      (by decide)
  · exact freshRelay_reachable.exists_after
      ([.poll, .poll, .poll, .poll] ++ depositAll .signal ++ [.wake, .poll, .poll, .poll])
      (fun s => s.poll = .write [] .woken ∧ s.clock < oneSecond.wait) (by decide)

end VulosRelay.Rendezvous
