import VulosRelay.Proof.PinDurability
import VulosRelay.Proof.PinPlan

/-!
# Is everything that is served verified?

A lookup takes its bytes from an object file, from the cache, or from upstream.
What comes from upstream is verified on the spot, and the cache holds nothing
else. A file is verified when it is first read, and from then on a flag stands
for the check: later reads of the file are served as they are.

So the law is a law about trust. An object is *trusted* while its flag is set, or
while some read or some pin in flight is about to act on a check of its file. As
long as no file of a trusted object is changed into something that does not
verify, every body that is served does. The files are not under the store's
control, and `tampered_body_served` shows what happens otherwise.
-/

namespace VulosRelay.Proof

open VulosRelay.Pubcache List

variable {cfg : Config} {env : Env} {d d' : Disk} {kind : Kind} {addr : Addr} {body : Bytes}
  {sv : Service} {pc : LookupPc} {op : PinOp} {st : Store} {s : Sys}

def FileOk (cfg : Config) (d : Disk) (kind : Kind) (addr : Addr) : Prop :=
  ∀ body, d.files.lookup (objectPath kind addr) = some body →
    verify cfg.blake3 kind addr body = .ok ()

def KeepsFiles (cfg : Config) (d d' : Disk) : Prop :=
  ∀ kind addr, FileOk cfg d kind addr → FileOk cfg d' kind addr

theorem keepsFiles_refl (d : Disk) : KeepsFiles cfg d d := fun _ _ h => h

theorem keepsFiles_sub
    (h : ∀ path body, d'.files.lookup path = some body → d.files.lookup path = some body) :
    KeepsFiles cfg d d' := by
  intro kind addr hok body hbd
  exact hok body (h _ body hbd)

theorem objectPath_inj (h : objectPath k a = objectPath l b) : k = l ∧ a = b := by
  rw [objectPath, objectPath, ObjPath.mk.injEq] at h
  exact ⟨Kind.string_injective h.1, Addr.string_injective h.2⟩

theorem keepsFiles_insert (hfs : d'.files = d.files.insert (objectPath kind addr) body)
    (hv : verify cfg.blake3 kind addr body = .ok ()) : KeepsFiles cfg d d' := by
  intro k a hok b hb
  rw [hfs] at hb
  by_cases hp : objectPath k a = objectPath kind addr
  · obtain ⟨rfl, rfl⟩ := objectPath_inj hp
    rw [Finmap.lookup_insert] at hb
    injection hb with hb
    exact hb ▸ hv
  · rw [Finmap.lookup_insert_of_ne _ hp] at hb
    exact hok b hb

/-! ## The invariant -/

def trusts : LookupPc → Bool
  | .read already => already
  | .mark _ => true
  | _ => false

def inHand : LookupPc → Option Bytes
  | .mark body | .put body => some body
  | .done result => result
  | _ => none

structure LookupOk (cfg : Config) (d : Disk) (kind : Kind) (addr : Addr) (pc : LookupPc) :
    Prop where
  file : trusts pc = true → FileOk cfg d kind addr
  body : ∀ body, inHand pc = some body → verify cfg.blake3 kind addr body = .ok ()

structure OpOk (cfg : Config) (d : Disk) (op : PinOp) : Prop where
  writing : ∀ w body, op.pc = .write w body → verify cfg.blake3 w.kind w.addr body = .ok ()
  written : ∀ w n, op.pc = .register w n → FileOk cfg d w.kind w.addr

/-- What the service trusts verifies. -/
structure ServiceOk (cfg : Config) (sv : Service) : Prop where
  /-- An object marked as verified has a file that verifies. -/
  flags : ∀ kind addr, storeKeyStr kind.string addr.string ∈ sv.pins.verified →
    FileOk cfg sv.disk kind addr
  /-- So does every body in the cache. -/
  cache : ∀ kind addr e, e ∈ sv.store.ll → e.key = cacheKey kind addr →
    verify cfg.blake3 kind addr e.body = .ok ()

structure ThreadOk (cfg : Config) (d : Disk) (t : PinThread) : Prop where
  op : OpOk cfg d t.op
  lookup : ∀ w, t.op.wanted = some w → LookupOk cfg d w.1 w.2 t.lookup

/-- **Whatever is trusted verifies, and so does whatever was served.** -/
structure AllVerified (cfg : Config) (s : Sys) : Prop where
  service : ServiceOk cfg s.svc
  /-- A reader holds no body that does not verify, -/
  readers : ∀ r rd, s.readers r = some rd → LookupOk cfg s.svc.disk rd.kind rd.addr rd.pc
  /-- and neither does the pin under way. -/
  pin : ∀ t, s.pin = some t → ThreadOk cfg s.svc.disk t
  served : ∀ x ∈ s.served, verify cfg.blake3 x.kind x.addr x.body = .ok ()

theorem LookupOk.mono (h : LookupOk cfg d kind addr pc) (hk : KeepsFiles cfg d d') :
    LookupOk cfg d' kind addr pc :=
  ⟨fun ht => hk kind addr (h.file ht), h.body⟩

theorem OpOk.mono (h : OpOk cfg d op) (hk : KeepsFiles cfg d d') : OpOk cfg d' op :=
  ⟨h.writing, fun w n hpc => hk _ _ (h.written w n hpc)⟩

theorem ThreadOk.mono (h : ThreadOk cfg d t) (hk : KeepsFiles cfg d d') : ThreadOk cfg d' t :=
  ⟨h.op.mono hk, fun w hw => (h.lookup w hw).mono hk⟩

/-! ## The cache -/

theorem mem_removeLocked (h : x ∈ (st.removeLocked e).ll) : x ∈ st.ll :=
  mem_of_mem_erase h

theorem mem_evictLocked : ∀ (fuel : Nat) {st : Store},
    x ∈ (Store.evictLocked scfg fuel st).ll → x ∈ st.ll := by
  intro fuel
  induction fuel with
  | zero => exact fun h => h
  | succ fuel ih =>
    intro st h
    rw [Store.evictLocked] at h
    split at h
    · split at h
      · exact h
      · exact mem_removeLocked (ih h)
    · exact h

theorem element_mem (h : st.element key = some e) : e ∈ st.ll ∧ e.key = key := by
  rw [Store.element] at h
  split at h
  · exact ⟨mem_of_find?_eq_some h, by simpa using find?_some h⟩
  · simp at h

theorem store_get : (∀ x ∈ (st.get scfg now key).1.ll, x ∈ st.ll)
      ∧ ∀ found, (st.get scfg now key).2 = some found → ∃ e ∈ st.ll, e.key = key
          ∧ e.body = found.1 := by
  rw [Store.get]
  cases he : st.element key with
  | none => exact ⟨fun x hx => hx, by simp⟩
  | some e =>
    obtain ⟨hmem, hkey⟩ := element_mem he
    dsimp only
    split
    · exact ⟨fun x hx => mem_removeLocked hx, by simp⟩
    refine ⟨fun x hx => ?_, fun found hf => ?_⟩
    · rcases mem_cons.mp hx with rfl | hx
      · exact hmem
      · exact mem_of_mem_erase hx
    · injection hf with hf
      exact ⟨e, hmem, hkey, by rw [← hf]⟩

theorem store_put :
    ∀ x ∈ (st.put scfg now key body).ll,
      (x.key = key ∧ x.body = body) ∨ ∃ e ∈ st.ll, x.key = e.key ∧ x.body = e.body := by
  intro x hx
  have hold : x ∈ st.ll → (x.key = key ∧ x.body = body)
      ∨ ∃ e ∈ st.ll, x.key = e.key ∧ x.body = e.body := fun h => .inr ⟨x, h, rfl, rfl⟩
  rw [Store.put] at hx
  split at hx
  · exact hold hx
  split at hx
  · exact hold hx
  split at hx
  · rename_i e he
    rcases mem_cons.mp hx with rfl | hx
    · exact .inr ⟨e, (element_mem he).1, rfl, rfl⟩
    · exact hold (mem_of_mem_erase hx)
  · rcases mem_cons.mp (mem_evictLocked _ hx) with rfl | hx
    · exact .inl ⟨rfl, rfl⟩
    · exact hold hx

theorem cacheKey_inj (h : cacheKey k a = cacheKey l b) : k = l ∧ a = b :=
  storeKeyStr_inj h

/-! ## Steps -/

theorem ServiceOk.sub (h : ServiceOk cfg sv) (hfl : sv'.pins.verified ⊆ sv.pins.verified)
    (hk : KeepsFiles cfg sv.disk sv'.disk) (hst : ∀ x ∈ sv'.store.ll, x ∈ sv.store.ll) :
    ServiceOk cfg sv' where
  flags := fun kind addr hm => hk kind addr (h.flags kind addr (hfl hm))
  cache := fun kind addr e he => h.cache kind addr e (hst e he)

theorem ServiceOk.flag (h : ServiceOk cfg sv)
    (hfl : p.verified = insert (storeKeyStr kind.string addr.string) sv.pins.verified)
    (hok : FileOk cfg sv.disk kind addr) : ServiceOk cfg { sv with pins := p } where
  flags := by
    intro k a hm
    rw [hfl] at hm
    rcases Finset.mem_insert.mp hm with heq | hm
    · obtain ⟨rfl, rfl⟩ := storeKeyStr_inj heq
      exact hok
    · exact h.flags k a hm
  cache := h.cache

theorem keepsFiles_quarantine (p : PinStore) (badKey : String) (indexOk : Bool) :
    KeepsFiles cfg d (d.run (quarantine p badKey indexOk).2) :=
  keepsFiles_sub fun _ _ h => quarantine_files_sub h

structure LookupStepOk (cfg : Config) (sv : Service) (kind : Kind) (addr : Addr)
    (r : Service × LookupPc) : Prop where
  service : ServiceOk cfg r.1
  lookup : LookupOk cfg r.1.disk kind addr r.2
  keeps : KeepsFiles cfg sv.disk r.1.disk

theorem lookupOk_plain (ht : trusts pc = false) (hb : inHand pc = none) :
    LookupOk cfg d kind addr pc :=
  ⟨fun h => absurd (ht ▸ h) (by simp), fun body h => absurd (hb ▸ h) (by simp)⟩

theorem lookupOk_body (ht : trusts pc = false) (hb : inHand pc = some body)
    (hv : verify cfg.blake3 kind addr body = .ok ()) : LookupOk cfg d kind addr pc := by
  refine ⟨fun h => absurd (ht ▸ h) (by simp), fun body' h => ?_⟩
  rw [hb] at h
  injection h with h
  exact h ▸ hv

theorem lookupStepOk_enter (hs : ServiceOk cfg sv) (hfl : r.1.verified ⊆ sv.pins.verified)
    (hk : KeepsFiles cfg sv.disk (sv.disk.run r.2)) :
    LookupStepOk cfg sv kind addr (sv.enter r, .cache) :=
  ⟨hs.sub hfl hk fun _ hx => hx, lookupOk_plain rfl rfl, hk⟩

theorem lookupStep_ok (hs : ServiceOk cfg sv) (hl : LookupOk cfg sv.disk kind addr pc) :
    LookupStepOk cfg sv kind addr (lookupStep cfg env kind addr sv pc) := by
  cases pc with
  | check =>
    rw [lookupStep]
    split
    · refine ⟨hs, ⟨fun ht => ?_, by simp [inHand]⟩, keepsFiles_refl _⟩
      exact hs.flags kind addr (of_decide_eq_true ht)
    · exact ⟨hs, lookupOk_plain rfl rfl, keepsFiles_refl _⟩
  | read already =>
    rw [lookupStep]
    split
    · exact ⟨hs, lookupOk_plain rfl rfl, keepsFiles_refl _⟩
    rename_i body hbd
    have hfl : sv.disk.files.lookup (objectPath kind addr) = some body := by
      split at hbd
      · simp at hbd
      · exact hbd
    split
    · -- the flag was set, and the file is still the one it stands for
      rename_i hflg
      exact ⟨hs, lookupOk_body rfl rfl (hl.file hflg body hfl), keepsFiles_refl _⟩
    split
    · exact ⟨hs, lookupOk_plain rfl rfl, keepsFiles_refl _⟩
    rename_i hv
    refine ⟨hs, ⟨fun _ b hb => ?_, fun b hb => ?_⟩, keepsFiles_refl _⟩
    · rw [hfl] at hb
      injection hb with hb
      exact hb ▸ hv
    · injection hb with hb
      exact hb ▸ hv
  | quarantine =>
    have hk : KeepsFiles cfg sv.disk _ := keepsFiles_quarantine sv.pins
      (storeKeyStr kind.string addr.string) env.indexOk
    have hsh := shrinks_quarantine sv.pins (storeKeyStr kind.string addr.string) env.indexOk
    rw [lookupStep]
    exact lookupStepOk_enter hs hsh.verified hk
  | mark body =>
    exact ⟨hs.flag rfl (hl.file rfl), lookupOk_body rfl rfl (hl.body body rfl), keepsFiles_refl _⟩
  | cache =>
    obtain ⟨hsub, hfn⟩ := @store_get sv.store cfg.store env.now (cacheKey kind addr)
    have hs' : ServiceOk cfg { sv with store := (sv.store.get cfg.store env.now
        (cacheKey kind addr)).1 } := hs.sub (Finset.Subset.refl _) (keepsFiles_refl _) hsub
    rw [lookupStep]
    split
    · rename_i found hf
      obtain ⟨e, he, hkey, hbd⟩ := hfn found hf
      refine ⟨hs', lookupOk_body rfl rfl ?_, keepsFiles_refl _⟩
      rw [← hbd]
      exact hs.cache kind addr e he hkey
    · exact ⟨hs', lookupOk_plain rfl rfl, keepsFiles_refl _⟩
  | upstream =>
    rw [lookupStep]
    split
    · exact ⟨hs, lookupOk_plain rfl rfl, keepsFiles_refl _⟩
    split
    · exact ⟨hs, lookupOk_plain rfl rfl, keepsFiles_refl _⟩
    · rename_i hv
      exact ⟨hs, lookupOk_body rfl rfl hv, keepsFiles_refl _⟩
  | put body =>
    have hv := hl.body body rfl
    refine ⟨⟨hs.flags, ?_⟩, lookupOk_body rfl rfl hv, keepsFiles_refl _⟩
    intro k a e he hkey
    rcases store_put e he with ⟨hkey', hbd⟩ | ⟨e', he', hkey', hbd⟩
    · obtain ⟨rfl, rfl⟩ := cacheKey_inj (hkey.symm.trans hkey')
      rw [hbd]
      exact hv
    · rw [hbd]
      exact hs.cache k a e' he' (hkey'.symm.trans hkey)
  | done result => exact ⟨hs, hl, keepsFiles_refl _⟩

/-! ### A pin -/

structure MoveOk (cfg : Config) (sv : Service) (p' : PinStore) (ops : List DiskOp)
    (next : PinOp ⊕ Except GoError PinRecord) : Prop where
  service : ServiceOk cfg (sv.enter (p', ops))
  keeps : KeepsFiles cfg sv.disk (sv.disk.run ops)
  op : ∀ op', next = .inl op' → OpOk cfg (sv.disk.run ops) op'

theorem opOk_plain (h : pastGate op.pc = none) : OpOk cfg d op := by
  refine ⟨fun w body hpc => ?_, fun w n hpc => ?_⟩
  all_goals
    rw [hpc] at h
    exact absurd h (by simp [pastGate])

theorem moveOk_stage {next} (hs : ServiceOk cfg sv) (hfl : p'.verified ⊆ sv.pins.verified)
    (hfs : (sv.disk.run ops).files = sv.disk.files)
    (hnx : ∀ op', next = .inl op' → pastGate op'.pc = none) : MoveOk cfg sv p' ops next := by
  have hk : KeepsFiles cfg sv.disk (sv.disk.run ops) := keepsFiles_sub fun path body h => by
    rwa [hfs] at h
  exact ⟨hs.sub hfl hk (fun _ hx => hx), hk, fun op' hop => opOk_plain (hnx op' hop)⟩

theorem pinMove_ok {next} (hs : ServiceOk cfg sv) (ho : OpOk cfg sv.disk op)
    (hm : PinMove cfg sv.pins op p' ops next) :
    MoveOk cfg sv p' ops next := by
  have hqt : ∀ {op' : PinOp}, pastGate op'.pc = none → MoveOk cfg sv sv.pins [] (.inl op') :=
    fun hpc => moveOk_stage hs (Finset.Subset.refl _) rfl fun o ho => by
      cases ho
      exact hpc
  cases hm with
  | already _ _ | turnedAway _ | release _ =>
    exact moveOk_stage hs (Finset.Subset.refl _) rfl (by simp)
  | accept _ _ _ | resolve _ _ | full _ _ | share _ _ _ | fetched _ => exact hqt rfl
  | acquire _ _ _ hpc' =>
    rcases hpc' with rfl | ⟨body, rfl⟩ <;> exact hqt rfl
  | pass _ hv _ =>
    refine ⟨hs, keepsFiles_refl _, fun op' hop => ?_⟩
    cases hop
    refine ⟨fun w body hpc => ?_, by simp⟩
    injection hpc with hw hbd
    rw [← hw, ← hbd]
    exact hv
  | @written w body hpc =>
    have hfs := run_writeObject sv.disk w.kind w.addr body .ok
    rw [if_pos rfl] at hfs
    have hv := ho.writing w body hpc
    have hk := keepsFiles_insert hfs hv
    refine ⟨hs.sub (Finset.Subset.refl _) hk (fun _ hx => hx), hk, fun op' hop => ?_⟩
    cases hop
    refine ⟨by simp, fun w' n hpc' => ?_⟩
    -- the file is the body that passed the gate
    injection hpc' with hw _
    subst hw
    intro b hb
    rw [hfs, Finmap.lookup_insert] at hb
    injection hb with hb
    exact hb ▸ hv
  | @fail w ops e _ hops =>
    refine moveOk_stage hs (Finset.Subset.refl _) (run_failedWrite hops).1 fun o ho => ?_
    cases ho
    rfl
  | @register w n hpc =>
    refine ⟨hs.flag rfl (ho.written w n hpc), keepsFiles_refl _, fun op' hop => ?_⟩
    cases hop
    exact opOk_plain rfl
  | commit _ =>
    refine moveOk_stage hs (Finset.Subset.refl _) (run_commitRecord_files ..) fun o ho => ?_
    cases ho
    rfl
  | commitFail _ | undo _ =>
    refine moveOk_stage hs (Finset.Subset.refl _) rfl fun o ho => ?_
    cases ho
    rfl
  | rollback _ =>
    have hk : KeepsFiles cfg sv.disk (sv.disk.run (rollback sv.pins op.wrote).2) :=
      keepsFiles_sub fun _ _ h => removeObjects_sub h
    refine ⟨hs.sub (shrinks_foldl_dropObject op.wrote sv.pins).verified hk (fun _ hx => hx), hk,
      fun op' hop => ?_⟩
    cases hop
    exact opOk_plain rfl

theorem LookupOk.returned (h : LookupOk cfg d kind addr pc) (hret : pc.returned = some
    (some body)) :
    verify cfg.blake3 kind addr body = .ok () := by
  refine h.body body ?_
  cases pc with
  | done result => exact Option.some.inj hret
  | _ => exact absurd hret (by simp [LookupPc.returned])

structure TurnOk (cfg : Config) (sv : Service) (turn : PinTurn) : Prop where
  service : ServiceOk cfg turn.svc
  keeps : KeepsFiles cfg sv.disk turn.svc.disk
  thread : ∀ t, turn.next = .inl t → ThreadOk cfg turn.svc.disk t
  served : ∀ x ∈ turn.served, verify cfg.blake3 x.kind x.addr x.body = .ok ()

theorem pinOwn_ok (hs : ServiceOk cfg sv) (ho : OpOk cfg sv.disk op)
    (hlog : ∀ x ∈ log, verify cfg.blake3 x.kind x.addr x.body = .ok ()) :
    TurnOk cfg sv (pinOwn cfg env sv op got log) := by
  have hmv := pinMove_ok hs ho (pinStep_move cfg env sv.pins op got)
  refine ⟨hmv.service, hmv.keeps, ?_, hlog⟩
  intro t ht
  rw [pinOwn] at ht
  cases hn : (pinStep cfg env sv.pins op got).next with
  | inr result => rw [hn] at ht; simp at ht
  | inl op' =>
    rw [hn] at ht
    cases ht
    exact ⟨hmv.op op' hn, fun w _ => lookupOk_plain rfl rfl⟩

theorem pinTurn_ok (hs : ServiceOk cfg sv) (ht : ThreadOk cfg sv.disk t) :
    TurnOk cfg sv (pinTurn cfg env sv t) := by
  rw [pinTurn]
  cases hw : t.op.wanted with
  | none => exact pinOwn_ok hs ht.op (by simp)
  | some w =>
    have hl := ht.lookup w hw
    cases hret : t.lookup.returned with
    | none =>
      have hst := @lookupStep_ok cfg env w.1 w.2 sv t.lookup hs hl
      refine ⟨hst.service, hst.keeps, ?_, by simp⟩
      intro t' ht'
      cases ht'
      refine ⟨ht.op.mono hst.keeps, fun w' hw' => ?_⟩
      have hsm : w = w' := Option.some.inj (hw.symm.trans hw')
      exact hsm ▸ hst.lookup
    | some got =>
      cases got with
      | none => exact pinOwn_ok hs ht.op (by simp)
      | some body =>
        -- what the source returns to the pin counts as served
        refine pinOwn_ok hs ht.op fun x hx => ?_
        rw [mem_singleton.mp hx]
        exact hl.returned hret

theorem unpin_files_sub
    (h : (d.run (unpin p kind addr owner indexOk).2.1).files.lookup path = some b) :
    d.files.lookup path = some b := by
  rcases unpin_cases p kind addr owner indexOk with ⟨_, hops, _⟩ | ⟨rec, _, _, heq⟩
  · rw [hops] at h
    exact h
  · rw [heq, run_append, run_writeIndex_files] at h
    exact reclaim_files_sub h

/-! ### Changes from outside -/

/-- Someone relies on a check of the object's file. -/
inductive Trusted (s : Sys) (kind : Kind) (addr : Addr) : Prop where
  | flag : storeKeyStr kind.string addr.string ∈ s.svc.pins.verified → Trusted s kind addr
  | reader {r : Nat} {rd : Reader} : s.readers r = some rd → rd.kind = kind → rd.addr = addr →
      trusts rd.pc = true → Trusted s kind addr
  | source {t : PinThread} : s.pin = some t → t.op.wanted = some (kind, addr) →
      trusts t.lookup = true → Trusted s kind addr
  | written {t : PinThread} {w : Want} {n : Nat} : s.pin = some t → t.op.pc = .register w n →
      w.kind = kind → w.addr = addr → Trusted s kind addr

/-- Nobody turns the file of a trusted object into something that does not verify. -/
def SparesTrusted (cfg : Config) (s : Sys) : Act → Prop
  | .tamper kind addr body =>
    verify cfg.blake3 kind addr body = .ok () ∨ ¬ Trusted s kind addr
  | _ => True

section

variable (h : AllVerified cfg s)

include h

theorem allVerified_untrusted (hnot : ¬ Trusted s kind addr)
    (hfs : ∀ path, path ≠ objectPath kind addr →
      d'.files.lookup path = s.svc.disk.files.lookup path) :
    AllVerified cfg { s with svc := { s.svc with disk := d' } } := by
  have hkp : ∀ k a, Trusted s k a → FileOk cfg s.svc.disk k a → FileOk cfg d' k a := by
    intro k a htrs hok body hbd
    -- a trusted object has another file
    have hne : objectPath k a ≠ objectPath kind addr := by
      intro heq
      obtain ⟨rfl, rfl⟩ := objectPath_inj heq
      exact hnot htrs
    rw [hfs _ hne] at hbd
    exact hok body hbd
  refine ⟨⟨?_, h.service.cache⟩, ?_, ?_, h.served⟩
  · intro k a hm
    exact hkp k a (.flag hm) (h.service.flags k a hm)
  · intro r rd hr
    have hl := h.readers r rd hr
    exact ⟨fun ht => hkp _ _ (.reader hr rfl rfl ht) (hl.file ht), hl.body⟩
  intro t ht
  have hthr := h.pin t ht
  refine ⟨⟨hthr.op.writing, fun w n hpc => ?_⟩, fun w hw => ?_⟩
  · exact hkp _ _ (.written ht hpc rfl rfl) (hthr.op.written w n hpc)
  · have hl := hthr.lookup w hw
    exact ⟨fun htr => hkp _ _ (.source ht hw htr) (hl.file htr), hl.body⟩

theorem AllVerified.update (hs : ServiceOk cfg sv') (hk : KeepsFiles cfg s.svc.disk sv'.disk) :
    AllVerified cfg { s with svc := sv' } where
  service := hs
  readers := fun r rd hr => (h.readers r rd hr).mono hk
  pin := fun t ht => (h.pin t ht).mono hk
  served := h.served

theorem AllVerified.setReader (r : Nat) (rd : Option Reader)
    (hrd : ∀ rd', rd = some rd' → LookupOk cfg s.svc.disk rd'.kind rd'.addr rd'.pc) :
    AllVerified cfg { s with readers := Function.update s.readers r rd } where
  service := h.service
  readers := by
    intro r' rd' hr'
    change Function.update s.readers r rd r' = some rd' at hr'
    by_cases heq : r' = r
    · rw [heq, Function.update_self] at hr'
      exact hrd rd' hr'
    · rw [Function.update_of_ne heq] at hr'
      exact h.readers r' rd' hr'
  pin := h.pin
  served := h.served

theorem AllVerified.serve (hlog : ∀ x ∈ log, verify cfg.blake3 x.kind x.addr x.body = .ok ()) :
    AllVerified cfg { s with served := s.served ++ log } where
  service := h.service
  readers := h.readers
  pin := h.pin
  served := by
    intro x hx
    rcases mem_append.mp hx with hx | hx
    · exact h.served x hx
    · exact hlog x hx

theorem allVerified_turn (ht : s.pin = some t) :
    AllVerified cfg
      { s with
        svc := (pinTurn cfg env s.svc t).svc
        pin := (pinTurn cfg env s.svc t).next.getLeft?
        served := s.served ++ (pinTurn cfg env s.svc t).served } := by
  have htr := @pinTurn_ok cfg env s.svc t h.service (h.pin t ht)
  have hrs := (h.update htr.service htr.keeps).serve htr.served
  refine ⟨hrs.service, hrs.readers, ?_, hrs.served⟩
  intro t' ht'
  exact htr.thread t' (Sum.getLeft?_eq_some_iff.mp ht')

theorem allVerified_step (hok : SparesTrusted cfg s a) (hst : Sys.step cfg s a = some s') :
    AllVerified cfg s' := by
  -- a reader that is done goes
  have hgn : ∀ r, AllVerified cfg { s with readers := Function.update s.readers r none } :=
    fun r => h.setReader r none (by simp)
  cases step_taken hst with
  | request _ =>
    refine h.setReader _ _ fun rd hrd => ?_
    cases hrd
    exact lookupOk_plain rfl rfl
  | refused _ _ => exact hgn _
  | @answered r _ rd body hr hret =>
    refine (hgn r).serve fun x hx => ?_
    rw [mem_singleton.mp hx]
    exact (h.readers r rd hr).returned hret
  | @lookup r env rd hr _ =>
    have hlk := @lookupStep_ok cfg env rd.kind rd.addr s.svc rd.pc h.service
      (h.readers r rd hr)
    refine (h.update hlk.service hlk.keeps).setReader r _ fun rd' hrd => ?_
    cases hrd
    exact hlk.lookup
  | pin _ _ =>
    refine ⟨h.service, h.readers, fun t ht => ?_, h.served⟩
    cases ht
    exact ⟨opOk_plain rfl, fun w _ => lookupOk_plain rfl rfl⟩
  | turn hpin => exact allVerified_turn h hpin
  | @unpin kind addr owner env _ _ =>
    have hk : KeepsFiles cfg s.svc.disk (s.svc.disk.run
        (unpin s.svc.pins kind addr owner env.indexOk).2.1) :=
      keepsFiles_sub fun path body => unpin_files_sub
    have hfl := (shrinks_unpin s.svc.pins kind addr owner env.indexOk).verified
    exact h.update (h.service.sub hfl hk fun x hx => hx) hk
  | @tamper kind addr body _ =>
    rcases hok with hv | hnot
    · have hk := @keepsFiles_insert cfg s.svc.disk { s.svc.disk with
        files := s.svc.disk.files.insert (objectPath kind addr) body } kind addr body rfl hv
      exact h.update (h.service.sub (fun _ hm => hm) hk fun x hx => hx) hk
    · exact allVerified_untrusted h hnot fun path hne => Finmap.lookup_insert_of_ne _ hne

end

theorem allVerified_opened (h : newPinStore d mkdirOk indexOk = .ok (p, d')) :
    AllVerified cfg (Sys.opened p d') where
  service := by
    refine ⟨fun kind addr hm => ?_, fun kind addr e he => absurd he (not_mem_nil)⟩
    have hemp : (Sys.opened p d').svc.pins.verified = ∅ := (newPinStore_loaded h).verified
    rw [hemp] at hm
    exact absurd hm (Finset.notMem_empty _)
  readers := by simp [Sys.opened]
  pin := by simp [Sys.opened]
  served := by simp [Sys.opened]

/--
**What is served verifies.** In runs in which nobody turns the file of a trusted
object into something that does not verify, every body a lookup returned verifies.
-/
theorem served_bodies_verify (cfg : Config) (s : Sys)
    (h : (system cfg fun _ _ => True).Reachable (SparesTrusted cfg) s) (x : Served)
    (hx : x ∈ s.served) : verify cfg.blake3 x.kind x.addr x.body = .ok () := by
  have hinv : AllVerified cfg s := by
    refine h.invariant (P := AllVerified cfg) ?_ ?_
    · intro s₀ h0
      obtain ⟨d, mkdirOk, indexOk, p, d', hop, _, rfl⟩ := h0
      exact allVerified_opened hop
    · intro s₁ a s₂ hs₁ hok hst
      exact allVerified_step hs₁ hok hst
  exact hinv.served x hx

def pinThenRead (between : List Act) : List Act :=
  .pin .announce addrA "owner" :: turns 13 [0x61] ++ between
    ++ [.request 0 .announce addrA, .reader 0 {}, .reader 0 {}, .reader 0 {}]

theorem served_bodies_verify_announce :
    ∃ s, (system sampleConfig fun _ _ => True).Reachable (SparesTrusted sampleConfig) s
      ∧ ∃ x ∈ s.served, x.addr = addrA
        ∧ verify sampleConfig.blake3 x.kind x.addr x.body = .ok () := by
  have hchk : ∀ (s : Sys) (a : Act), (match a with | .tamper .. => false | _ => true) = true →
      SparesTrusted sampleConfig s a := by
    intro s a ha
    cases a with
    | tamper kind addr body => simp at ha
    | _ => trivial
  obtain ⟨s, hrch, hend⟩ := System.Reachable.exists_of_run
    (fun _ a => match a with | .tamper .. => false | _ => true) (pinThenRead [])
    (fun s : Sys => s.served.any fun x => x.addr = addrA) hchk freshSys_reachable_any
    (by decide)
  obtain ⟨x, hx, had⟩ := any_eq_true.mp hend
  exact ⟨s, hrch, x, hx, by simpa using had, served_bodies_verify sampleConfig s hrch x hx⟩

theorem tampered_body_served :
    ∃ s, (system sampleConfig fun _ _ => True).Reachable (fun _ _ => True) s
      ∧ ∃ x ∈ s.served, x = ⟨.announce, addrA, [0x62]⟩
        ∧ verify sampleConfig.blake3 x.kind x.addr x.body ≠ .ok () := by
  obtain ⟨s, hrch, hsr⟩ := freshSys_reachable_any.exists_after
    (pinThenRead [.tamper .announce addrA [0x62]]) (⟨.announce, addrA, [0x62]⟩ ∈ ·.served)
    (by decide)
  exact ⟨s, hrch, _, hsr, rfl, by decide⟩

end VulosRelay.Proof
