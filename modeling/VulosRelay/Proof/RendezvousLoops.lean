import VulosRelay.Client.Rendezvous
import VulosRelay.Lib.History

/-!
# One set of loops, and none after close

`connect` starts a board loop, an inbox loop and a heartbeat, and nothing ends the ones that
an earlier `connect` started: when the board cannot be polled, the board loop leaves and
`connect` is called again beside the inbox loop and the heartbeat that are still there. Only
the latest interval is remembered, so `close` leaves the others armed, and a join that is
under way at `close` is deposited all the same.

The invariant counts a `connect` under way with what it is going to start. Each step of a
thread keeps the counts or lowers them (`Follows`), except the one that starts the loops,
which trades the `connect` for them.
-/

namespace VulosRelay.Client.Rendezvous

open List Thread Thread State Bool

/-! ## What is claimed of a state -/

def Thread.isBoard : Thread → Bool
  | .boardPolling => true
  | .boardPolled => true
  | .boardSleeping => true
  | _ => false

def Thread.isInbox : Thread → Bool
  | .inboxPolling => true
  | .inboxSleeping => true
  | _ => false

def closedSince : List Event → Bool
  | [] => false
  | .closed :: _ => true
  | .connect :: _ => false
  | _ :: older => closedSince older

/-- A join is not deposited after `close`. -/
def InTime (event : Event) (older : List Event) : Prop :=
  event = .deposited .join → closedSince older = false

/-- One set of loops, and none after a close. -/
structure OneSet (s : State) : Prop where
  /-- At most one loop for the board, one for the inbox, -/
  board : s.threads.countP isBoard ≤ 1
  inbox : s.threads.countP isInbox ≤ 1
  /-- and one timer for the heartbeat. -/
  heartbeat : s.armed.length ≤ 1
  /-- After a close no timer is left. -/
  disarmed : closedSince s.history = true → s.armed = []
  /-- No join is deposited after a close. -/
  inTime : History.Each InTime s.history

/-! ## When it holds -/

def Thread.starts (cfg : Config) (t : Thread) : Bool :=
  cfg.pollLoop &&
    match t with
    | .announcing .connect => true
    | .building .connect => true
    | .depositing .connect => true
    | .joined => true
    | .opened => true
    | _ => false

def Thread.joins : Thread → Bool
  | .announcing _ => true
  | .building _ => true
  | _ => false

/-- No loop runs, no heartbeat is armed and no `connect` is going to start them. -/
def Idle (cfg : Config) (s : State) : Prop :=
  s.armed = [] ∧
    ∀ t ∈ s.threads, t.starts cfg = false ∧ t.isBoard = false ∧ t.isInbox = false

/-- `connect` runs, by a call or by a timeout, on an idle client only, and `close` is called
while no join is under way and no loops are about to be started. -/
def Permitted (cfg : Config) (s : State) : Action → Prop
  | .connect => Idle cfg s
  | .fire _ => s.stopped = false → Idle cfg s
  | .close => ∀ t ∈ s.threads, t.joins = false ∧ t.starts cfg = false
  | _ => True

variable {cfg : Config} {s s' : State}

/-! ## What a step does -/

/-- Nothing comes of a thread's step that the thread did not count for before. -/
structure Follows (cfg : Config) (t t' : Thread) : Prop where
  starts : t'.starts cfg = true → t.starts cfg = true
  board : t'.isBoard = true → t.isBoard = true
  inbox : t'.isInbox = true → t.isInbox = true
  joins : t'.joins = true → t.joins = true

/-- The event is not a call, and is a join only if thread `t` deposits one. -/
def Minor (t : Thread) : Event → Prop
  | .connect => False
  | .closed => False
  | .deposited .join => t.joins = true
  | _ => True

/-- The ways in which a step changes a client. -/
inductive Moved (cfg : Config) (s s' : State) : Action → Prop where
  | quiet {a : Action} : s'.stopped = s.stopped → s'.armed = s.armed →
      s'.heartbeatTimer = s.heartbeatTimer → s'.threads = s.threads → s'.history = s.history →
      Moved cfg s s' a
  | thread {a : Action} (i : Nat) (t t' : Thread) (events : List Event) :
      s.threads[i]? = some t → Follows cfg t t' → (∀ e ∈ events, Minor t e) →
      s'.stopped = s.stopped → s'.armed = s.armed → s'.heartbeatTimer = s.heartbeatTimer →
      s'.threads = s.threads.set i t' → s'.history = events ++ s.history → Moved cfg s s' a
  | started {a : Action} (i timer : Nat) :
      s.threads[i]? = some .opened → cfg.pollLoop = true → s'.stopped = s.stopped →
      s'.armed = timer :: s.armed → s'.heartbeatTimer = some timer →
      s'.threads = s.threads.set i .finished ++
        (if s.stopped then [] else [.boardPolling, .inboxPolling]) →
      s'.history = s.history → Moved cfg s s' a
  | tick (timer : Nat) : timer ∈ s.armed → s'.stopped = s.stopped → s'.armed = s.armed →
      s'.heartbeatTimer = s.heartbeatTimer →
      s'.threads = s.threads ++ [.announcing .heartbeat] → s'.history = s.history →
      Moved cfg s s' (.tick timer)
  | connect {a : Action} : Idle cfg s → s'.stopped = false → s'.armed = s.armed →
      s'.threads = s.threads ++ [.announcing .connect] → s'.history = .connect :: s.history →
      Moved cfg s s' a
  | close : s'.stopped = true →
      s'.armed = (s.armed.filter fun t => s.heartbeatTimer ≠ some t) →
      s'.threads = s.threads → s'.history = .deposited .leave :: .closed :: s.history →
      Moved cfg s s' .close

/-- `s'` differs from `s` in its status and in minor events only. -/
def Reports (s s' : State) : Prop :=
  ∃ events, (∀ t, ∀ e ∈ events, Minor t e) ∧ s'.stopped = s.stopped ∧ s'.armed = s.armed ∧
    s'.heartbeatTimer = s.heartbeatTimer ∧ s'.threads = s.threads ∧
    s'.history = events ++ s.history

theorem markOpen_spec : Reports s s.markOpen := by
  unfold markOpen
  dsimp only
  split
  · exact ⟨[], by simp, rfl, rfl, rfl, rfl, rfl⟩
  · exact ⟨[.signalingOpen], by simp [Minor], rfl, rfl, rfl, rfl, rfl⟩

theorem markClosed_spec : Reports s s.markClosed := by
  unfold markClosed
  split
  · exact ⟨[.signalingClose], by simp [Minor], rfl, rfl, rfl, rfl, rfl⟩
  · exact ⟨[], by simp, rfl, rfl, rfl, rfl, rfl⟩

theorem countAttempt_spec : Reports s (s.countAttempt cfg) := by
  unfold countAttempt
  dsimp only
  split
  · exact ⟨[.offline _], by simp [Minor], rfl, rfl, rfl, rfl, rfl⟩
  · exact ⟨[], by simp, rfl, rfl, rfl, rfl, rfl⟩

variable {t : Thread} {a : Action}

theorem follows_uncounted (hst : t'.starts cfg = false) (hbr : t'.isBoard = false)
    (hin : t'.isInbox = false) (hjn : t'.joins = false) :
    Follows cfg t t' :=
  ⟨by simp [hst], by simp [hbr], by simp [hin], by simp [hjn]⟩

theorem moved_goto (hi : s.threads[i]? = some t) (hfl : Follows cfg t t') :
    Moved cfg s (s.goto i t') a :=
  .thread i t t' [] hi hfl (by simp) rfl rfl rfl rfl rfl

theorem Reports.moved (h : Reports s s₁) (hi : s.threads[i]? = some t) (hfl : Follows cfg t t')
    :
    Moved cfg s (s₁.goto i t') a := by
  obtain ⟨events, hmn, hst, har, htm, hthr, hhs⟩ := h
  exact .thread i t t' events hi hfl (hmn t) hst har htm
    (by simp [goto, hthr]) hhs

theorem moved_unlessStopped (hi : s.threads[i]? = some t) (hfl : Follows cfg t t') :
    Moved cfg s (s.unlessStopped i t') a := by
  unfold unlessStopped
  split
  · exact moved_goto hi (follows_uncounted (by simp [starts]) rfl rfl rfl)
  · exact moved_goto hi hfl

theorem moved_scheduleReconnect (hi : s.threads[i]? = some t) :
    Moved cfg s (s.scheduleReconnect i) a := by
  unfold scheduleReconnect
  split
  · exact moved_goto hi (follows_uncounted (by simp [starts]) rfl rfl rfl)
  exact markClosed_spec.moved hi (follows_uncounted (by simp [starts]) rfl rfl rfl)

theorem moved_opened (hi : s.threads[i]? = some .opened) :
    Moved cfg s ((s.goto i .finished).startLoops cfg) a := by
  unfold startLoops
  split
  · rename_i hpl
    refine .started i s.next hi hpl ?_ ?_ ?_ ?_ ?_
    all_goals
      cases hst : s.stopped <;>
        simp [startLoop, setHeartbeat, spawn, goto, hst]
  · exact moved_goto hi (follows_uncounted (by simp [starts]) rfl rfl rfl)

theorem moved_resume (hi : s.threads[i]? = some t) : Moved cfg s (resume cfg s i outcome t) a := by
  cases t with
  | announcing caller =>
    refine moved_goto hi ⟨?_, by simp [isBoard], by simp [isInbox], fun _ => rfl⟩
    cases caller <;> simp [starts]
  | building caller =>
    cases outcome with
    | ok id =>
      refine .thread i _ (.depositing caller) [.deposited .join] hi
        ⟨?_, by simp [isBoard], by simp [isInbox], fun _ => rfl⟩
        (by simp [Minor, joins]) rfl rfl rfl rfl rfl
      cases caller <;> simp [starts]
    | error =>
      refine moved_goto hi (follows_uncounted ?_ ?_ ?_ ?_)
      all_goals cases caller <;> simp [Caller.onError, starts, isBoard, isInbox, joins]
  | depositing caller =>
    cases outcome with
    | ok id =>
      refine .thread i _ caller.onJoined [] hi ⟨?_, ?_, ?_, ?_⟩ (by simp) rfl rfl rfl rfl rfl
      all_goals cases caller <;> simp [Caller.onJoined, starts, isBoard, isInbox, joins]
    | error =>
      refine moved_goto hi (follows_uncounted ?_ ?_ ?_ ?_)
      all_goals cases caller <;> simp [Caller.onError, starts, isBoard, isInbox, joins]
  | joined =>
    exact markOpen_spec.moved hi ⟨by simp [starts], by simp [isBoard],
      by simp [isInbox], by simp [joins]⟩
  | opened => exact moved_opened hi
  | failed => exact moved_scheduleReconnect hi
  | lost =>
    exact countAttempt_spec.moved hi
      (follows_uncounted (by simp [starts]) rfl rfl rfl)
  | counted =>
    exact .thread i _ .finished [] hi
      (follows_uncounted (by simp [starts]) rfl rfl rfl) (by simp) rfl rfl rfl rfl rfl
  | boardPolling =>
    cases outcome with
    | ok id =>
      exact markOpen_spec.moved hi
        ⟨by simp [starts], fun _ => rfl, by simp [isInbox], by simp [joins]⟩
    | error => exact moved_scheduleReconnect hi
  | boardPolled | boardSleeping =>
    exact moved_unlessStopped hi ⟨by simp [starts], fun _ => rfl,
      by simp [isInbox], by simp [joins]⟩
  | inboxPolling | inboxSleeping =>
    exact moved_unlessStopped hi ⟨by simp [starts], by simp [isBoard],
      fun _ => rfl, by simp [joins]⟩
  | finished => exact .quiet rfl rfl rfl rfl rfl

theorem moved_step (hok : Permitted cfg s a) (h : step cfg s a = some s') : Moved cfg s s' a := by
  cases a with
  | connect =>
    cases h
    exact .connect hok rfl rfl rfl rfl
  | close =>
    cases h
    exact .close rfl rfl rfl rfl
  | tick timer =>
    simp only [step] at h
    split at h
    · rename_i har
      cases h
      exact .tick timer har rfl rfl rfl rfl rfl
    · cases h
  | fire timeout =>
    simp only [step] at h
    split at h
    · cases h
      split
      · exact .quiet rfl rfl rfl rfl rfl
      · next hrun => exact .connect (hok (by simpa using hrun)) rfl rfl rfl rfl
    · cases h
  | resume i outcome =>
    obtain ⟨t, hi, rfl⟩ := Option.map_eq_some_iff.mp h
    exact moved_resume hi

/-! ## What every run keeps -/

def Thread.boards (cfg : Config) (t : Thread) : Bool := t.starts cfg || t.isBoard

def Thread.inboxes (cfg : Config) (t : Thread) : Bool := t.starts cfg || t.isInbox

structure Sound (cfg : Config) (s : State) : Prop where
  board : s.threads.countP (Thread.boards cfg) ≤ 1
  inbox : s.threads.countP (Thread.inboxes cfg) ≤ 1
  heartbeat : s.threads.countP (starts cfg) + s.armed.length ≤ 1
  /-- The interval that is armed is the one `close` clears. -/
  current : ∀ timer ∈ s.armed, s.heartbeatTimer = some timer
  /-- A stopped client has nothing that arms an interval or deposits a join. -/
  still : s.stopped = true →
    s.armed = [] ∧ ∀ t ∈ s.threads, t.joins = false ∧ t.starts cfg = false
  closed : closedSince s.history = s.stopped
  inTime : History.Each InTime s.history

section Count

variable {p : Thread → Bool} {threads : List Thread} {i : Nat} {t u : Thread}

theorem countP_set_le (hi : threads[i]? = some t) (himp : p u = true → p t = true) :
    (threads.set i u).countP p ≤ threads.countP p := by
  obtain ⟨hlt, hget⟩ := List.getElem?_eq_some_iff.mp hi
  have hpos : p t = true → 0 < threads.countP p := fun ht =>
    countP_pos_iff.mpr ⟨t, mem_of_getElem? hi, ht⟩
  rw [countP_set hlt, hget]
  split
  · rename_i ht
    have := hpos ht
    split <;> omega
  · next ht => rw [if_neg fun hu => ht (himp hu)]; omega

theorem countP_set_of_left (hi : threads[i]? = some t) (ht : p t = true) (hu : p u = false) :
    (threads.set i u).countP p + 1 = threads.countP p := by
  obtain ⟨hlt, hget⟩ := List.getElem?_eq_some_iff.mp hi
  have hpos : 0 < threads.countP p :=
    countP_pos_iff.mpr ⟨t, mem_of_getElem? hi, ht⟩
  rw [countP_set hlt, hget, if_pos ht, hu]
  simp only [false_eq_true, if_false]
  omega

end Count

theorem closedSince_minor (h : ∀ e ∈ events, Minor t e) :
    closedSince (events ++ older) = closedSince older := by
  induction events with
  | nil => rfl
  | cons e events ih =>
    have hrs := ih fun d hd => h d (mem_cons_of_mem e hd)
    have he := h e (.head _)
    cases e with
    | connect | closed => exact he.elim
    | deposited kind | signalingOpen | signalingClose | offline attempts => exact hrs

theorem inTime_minor (h : ∀ e ∈ events, Minor t e)
    (hjn : t.joins = true → closedSince older = false) (holder : History.Each InTime older) :
    History.Each InTime (events ++ older) := by
  induction events with
  | nil => exact holder
  | cons e events ih =>
    have hrs : ∀ d ∈ events, Minor t d := fun d hd => h d (mem_cons_of_mem e hd)
    refine ⟨fun he => ?_, ih hrs⟩
    have hmn := h e (.head _)
    rw [he] at hmn
    exact (closedSince_minor hrs).trans (hjn hmn)

theorem inTime_of_ne (h : e ≠ .deposited .join) :
    InTime e older := fun he => absurd he h

section

variable (hs : Sound cfg s)

include hs

theorem Sound.congr (hst : s'.stopped = s.stopped) (har : s'.armed = s.armed)
    (htm : s'.heartbeatTimer = s.heartbeatTimer) (hthr : s'.threads = s.threads)
    (hhs : s'.history = s.history) : Sound cfg s' := by
  refine ⟨hthr ▸ hs.board, hthr ▸ hs.inbox, hthr ▸ har ▸ hs.heartbeat, ?_, ?_, ?_, hhs ▸ hs.inTime⟩
  · rw [har, htm]
    exact hs.current
  · rw [hst, har, hthr]
    exact hs.still
  · rw [hhs, hst, hs.closed]

theorem sound_thread (hi : s.threads[i]? = some t) (hf : Follows cfg t t')
    (hmn : ∀ e ∈ events, Minor t e) :
    Sound cfg { s with threads := s.threads.set i t', history := events ++ s.history } where
  board := by
    refine le_trans (countP_set_le hi fun h => ?_) hs.board
    rcases or_eq_true_iff.mp h with h | h
    · exact or_eq_true_iff.mpr (.inl (hf.starts h))
    · exact or_eq_true_iff.mpr (.inr (hf.board h))
  inbox := by
    refine le_trans (countP_set_le hi fun h => ?_) hs.inbox
    rcases or_eq_true_iff.mp h with h | h
    · exact or_eq_true_iff.mpr (.inl (hf.starts h))
    · exact or_eq_true_iff.mpr (.inr (hf.inbox h))
  heartbeat := le_trans (Nat.add_le_add_right (countP_set_le hi hf.starts) _) hs.heartbeat
  current := hs.current
  still := by
    intro h
    obtain ⟨hno, hthr⟩ := hs.still h
    refine ⟨hno, fun u hu => ?_⟩
    rcases mem_or_eq_of_mem_set hu with hu | rfl
    · exact hthr u hu
    obtain ⟨hjn, hst⟩ := hthr t (mem_of_getElem? hi)
    refine ⟨eq_false_iff.mpr fun h => ?_, eq_false_iff.mpr fun h => ?_⟩
    · exact eq_false_iff.mp hjn (hf.joins h)
    · exact eq_false_iff.mp hst (hf.starts h)
  closed := (closedSince_minor hmn).trans hs.closed
  inTime := by
    refine inTime_minor hmn (fun hjn => ?_) hs.inTime
    rw [hs.closed]
    refine eq_false_iff.mpr fun h => ?_
    exact eq_false_iff.mp ((hs.still h).2 t (mem_of_getElem? hi)).1 hjn

theorem sound_started (hi : s.threads[i]? = some .opened) (hpl : cfg.pollLoop = true) :
    Sound cfg { s with
      armed := timer :: s.armed, heartbeatTimer := some timer
      threads := s.threads.set i .finished ++
        (if s.stopped then [] else [.boardPolling, .inboxPolling]) } := by
  have hst : starts cfg .opened = true := by simp [starts, hpl]
  -- a stopped client has no `connect` under way
  have hrun : s.stopped = false := by
    refine eq_false_iff.mpr fun h => ?_
    exact eq_false_iff.mp ((hs.still h).2 _ (mem_of_getElem? hi)).2 hst
  rw [if_neg (by simp [hrun])]
  have hcnt := countP_set_of_left (p := starts cfg) (u := .finished) hi hst
    (by simp [starts])
  have hbr := countP_set_of_left (p := boards cfg) (u := .finished) hi
    (by simp [boards, hst]) (by simp [boards, starts, isBoard])
  have hin := countP_set_of_left (p := inboxes cfg) (u := .finished) hi
    (by simp [inboxes, hst]) (by simp [inboxes, starts, isInbox])
  have hhr := hs.heartbeat
  have hno : s.armed = [] := length_eq_zero_iff.mp (by omega)
  rw [hno]
  refine ⟨?_, ?_, ?_, fun u hu => ?_, fun h => ?_, hs.closed, hs.inTime⟩
  · have hnew : [boardPolling, .inboxPolling].countP (boards cfg) = 1 := by
      simp [boards, starts, isBoard]
    have := hs.board
    rw [countP_append]
    omega
  · have hnew : [boardPolling, .inboxPolling].countP (inboxes cfg) = 1 := by
      simp [inboxes, starts, isInbox]
    have := hs.inbox
    rw [countP_append]
    omega
  · have hnew : [boardPolling, .inboxPolling].countP (starts cfg) = 0 := by
      simp [starts]
    rw [countP_append, length_singleton]
    omega
  · rw [mem_singleton.mp hu]
  · rw [hrun] at h
    cases h

theorem sound_tick (hmem : timer ∈ s.armed) :
    Sound cfg { s with threads := s.threads ++ [.announcing .heartbeat] } where
  board := by
    rw [countP_append]
    simpa [boards, starts, isBoard] using hs.board
  inbox := by
    rw [countP_append]
    simpa [inboxes, starts, isInbox] using hs.inbox
  heartbeat := by
    rw [countP_append]
    simpa [starts] using hs.heartbeat
  current := hs.current
  still := by
    intro h
    rw [(hs.still h).1] at hmem
    cases hmem
  closed := hs.closed
  inTime := hs.inTime

theorem sound_connect (hid : Idle cfg s) :
    Sound cfg { s with
      stopped := false, heartbeatTimer := timer
      threads := s.threads ++ [.announcing .connect], history := .connect :: s.history } := by
  obtain ⟨hno, hthr⟩ := hid
  -- nothing was counted, and the new thread counts for one at most
  have hone : ∀ p : Thread → Bool, (∀ t ∈ s.threads, p t = false) →
      (s.threads ++ [announcing .connect]).countP p ≤ 1 := by
    intro p hp
    have hzr : s.threads.countP p = 0 :=
      countP_eq_zero.mpr fun t ht => eq_false_iff.mp (hp t ht)
    have hnew := countP_le_length (p := p) (l := [announcing .connect])
    rw [countP_append, hzr]
    simpa using hnew
  rw [hno]
  refine ⟨hone _ fun t ht => ?_, hone _ fun t ht => ?_, hone _ fun t ht => (hthr t ht).1,
    by simp, by simp, rfl, inTime_of_ne (by simp), hs.inTime⟩
  · simp [boards, hthr t ht]
  · simp [inboxes, hthr t ht]

theorem sound_close (hok : ∀ t ∈ s.threads, t.joins = false ∧ t.starts cfg = false) :
    Sound cfg { s with
      stopped := true, heartbeatTimer := timer
      armed := s.armed.filter fun t => s.heartbeatTimer ≠ some t
      history := .deposited .leave :: .closed :: s.history } := by
  have hno : (s.armed.filter fun t => s.heartbeatTimer ≠ some t) = [] := by
    refine filter_eq_nil_iff.mpr fun timer hmem => ?_
    simp [hs.current timer hmem]
  rw [hno]
  exact ⟨hs.board, hs.inbox, le_trans (Nat.le_add_right _ _) hs.heartbeat, by simp,
    fun _ => ⟨rfl, hok⟩, rfl, inTime_of_ne (by simp), inTime_of_ne (by simp), hs.inTime⟩

theorem sound_moved (hok : Permitted cfg s a) (h : Moved cfg s s' a) : Sound cfg s' := by
  cases h with
  | quiet hst har htm hthr hhs =>
    exact hs.congr hst har htm hthr hhs
  | thread i t t' events hi hf hmn hst har htm hthr hhs =>
    exact (sound_thread hs hi hf hmn).congr hst har htm hthr hhs
  | started i timer hi hpl hst har htm hthr hhs =>
    exact (sound_started hs hi hpl).congr hst har htm hthr hhs
  | tick timer hmem hst har htm hthr hhs =>
    exact (sound_tick hs hmem).congr hst har htm hthr hhs
  | connect hid hst har hthr hhs =>
    exact (sound_connect hs hid).congr hst har rfl hthr hhs
  | close hst har hthr hhs =>
    exact (sound_close hs hok).congr hst har rfl hthr hhs

end

theorem sound_new : Sound cfg .new :=
  ⟨by simp [new], by simp [new], by simp [new], by simp [new],
    by simp [new], rfl, trivial⟩

theorem sound_reachable (h : (client cfg).Reachable (Permitted cfg) s) : Sound cfg s :=
  h.invariant (fun _ ht => ht ▸ sound_new)
    (fun _ _ _ ht hok hst => sound_moved ht hok (moved_step hok hst))

theorem oneSet_of_sound (hs : Sound cfg s) : OneSet s where
  board := le_trans
    (countP_mono_left fun _ _ h => or_eq_true_iff.mpr (.inr h)) hs.board
  inbox := le_trans
    (countP_mono_left fun _ _ h => or_eq_true_iff.mpr (.inr h)) hs.inbox
  heartbeat := le_trans (Nat.le_add_left _ _) hs.heartbeat
  disarmed := fun h => (hs.still (hs.closed ▸ h)).1
  inTime := hs.inTime

/-- **One set of loops, and none after close**, in the runs in which `connect` finds the
client idle and `close` finds no join under way. -/
theorem one_set_of_loops (cfg : Config) (s : State)
    (h : (client cfg).Reachable (Permitted cfg) s) : OneSet s :=
  oneSet_of_sound (sound_reachable h)

/-! ## Two runs -/

instance (cfg : Config) (s : State) : Decidable (Idle cfg s) := inferInstanceAs (Decidable (_ ∧ _))

instance (cfg : Config) (s : State) : (a : Action) → Decidable (Permitted cfg s a)
  | .connect => inferInstanceAs (Decidable (Idle cfg s))
  | .fire _ => inferInstanceAs (Decidable (s.stopped = false → Idle cfg s))
  | .close =>
    inferInstanceAs (Decidable (∀ t ∈ s.threads, t.joins = false ∧ t.starts cfg = false))
  | .tick _ => .isTrue trivial
  | .resume _ _ => .isTrue trivial

def plainConfig : Config := ⟨true, 10⟩

def goOn (i n : Nat) : List Action := List.replicate n (.resume i (.ok none))

def orderly : List Action :=
  [.connect] ++ goOn 0 5 ++ [.tick 0] ++ goOn 3 3 ++ [.close] ++ goOn 1 2 ++ goOn 2 1 ++
    [.connect] ++ goOn 4 5

theorem orderly_one_set :
    ∃ s, (client plainConfig).Reachable (Permitted plainConfig) s ∧
      (s.threads.countP isBoard = 1 ∧ s.threads.countP isInbox = 1 ∧
        s.armed = [1] ∧ s.history.count (.deposited .join) = 3) ∧ OneSet s := by
  have hin : (client plainConfig).Reachable (Permitted plainConfig) .new := .init rfl
  obtain ⟨s, hrch, hend⟩ := hin.exists_of_run (fun s a => decide (Permitted plainConfig s a))
    orderly
    (fun s => decide (s.threads.countP isBoard = 1 ∧
      s.threads.countP isInbox = 1 ∧ s.armed = [1] ∧
      s.history.count (.deposited .join) = 3))
    (fun _ _ => of_decide_eq_true) (by decide)
  exact ⟨s, hrch, of_decide_eq_true hend, one_set_of_loops _ s hrch⟩

def reconnected : List Action :=
  [.connect] ++ goOn 0 5 ++ [.resume 1 .error] ++ goOn 1 2 ++ [.fire (1, 1000)] ++ goOn 3 5

def closedLater : List Action := reconnected ++ [.close, .tick 0] ++ goOn 6 2

/-- **Loops and heartbeats pile up.** After one failed poll of the board two inbox loops and
two heartbeats run; after `close` one of the heartbeats is armed, and deposits a join. -/
theorem reconnect_doubles_loops :
    (∃ s, (client plainConfig).Reachable (fun _ _ => True) s ∧
      s.threads.countP isInbox = 2 ∧ s.armed.length = 2 ∧ ¬ OneSet s) ∧
    ∃ s older, (client plainConfig).Reachable (fun _ _ => True) s ∧
      s.history = .deposited .join :: older ∧ closedSince older = true ∧ s.armed = [0] ∧
      ¬ OneSet s := by
  have hin : (client plainConfig).Reachable (fun _ _ => True) .new := .init rfl
  constructor
  · obtain ⟨s, hrch, hinb, har⟩ := hin.exists_after reconnected
      (fun s => s.threads.countP isInbox = 2 ∧ s.armed.length = 2) (by decide)
    exact ⟨s, hrch, hinb, har, fun hone => absurd hone.inbox (by omega)⟩
  · obtain ⟨s, hrch, hhd, hcls, har⟩ := hin.exists_after closedLater
      (fun s => s.history.head? = some (.deposited .join) ∧
        closedSince s.history.tail = true ∧ s.armed = [0]) (by decide)
    obtain ⟨older, hhs⟩ := head?_eq_some_iff.mp hhd
    rw [hhs] at hcls
    refine ⟨s, older, hrch, hhs, hcls, har, fun hone => ?_⟩
    have hds := hone.disarmed (by rw [hhs]; exact hcls)
    rw [har] at hds
    cases hds

end VulosRelay.Client.Rendezvous
