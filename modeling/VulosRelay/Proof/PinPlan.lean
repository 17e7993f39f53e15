import VulosRelay.Proof.ManifestAddress
import VulosRelay.Proof.PinClaims
import VulosRelay.Proof.PinLoad

/-!
# What a pin sets out to write

A pin names its own root and chunks, and nothing else. So the root of a record is
named by that record alone, however many chunks the records share. Every key that
is counted is one that opening the directory will accept again, because an object
is counted only after its body was verified, and nothing verifies at an address
with another prefix.
-/

namespace VulosRelay.Proof

open VulosRelay.Pubcache List

def IsChunkKey (k : String) : Prop := ∃ addr : Addr, k = storeKeyStr Kind.chunk.string addr.string

def ValidKey (k : String) : Prop :=
  ∃ (kind : Kind) (addr : Addr),
    k = storeKeyStr kind.string addr.string ∧ addr.hashPrefix = hashPrefixBLAKE3

structure RecordShape (rec : PinRecord) : Prop where
  root : ∃ (kind : Kind) (addr : Addr),
    pinnable kind = true ∧ rec.kind = kind.string ∧ rec.addr = addr.string
  self : recordKey rec ∈ rec.objects
  others : ∀ o ∈ rec.objects, o = recordKey rec ∨ IsChunkKey o

theorem rootKey_notChunk {addr : Addr} (h : pinnable kind = true) :
    ¬ IsChunkKey (storeKeyStr kind.string addr.string) := by
  intro hgv
  obtain ⟨addr', heq⟩ := hgv
  obtain ⟨hk, _⟩ := storeKeyStr_inj heq
  rw [hk] at h
  cases h

variable {rec : PinRecord}

theorem RecordShape.notChunk (h : RecordShape rec) :
    ¬ IsChunkKey (recordKey rec) := by
  obtain ⟨kind, addr, hk, hkn, had⟩ := h.root
  rw [recordKey, hkn, had]
  exact rootKey_notChunk hk

theorem RecordShape.root_of_mem {k : String} (h : RecordShape rec) (hk : ¬ IsChunkKey k)
    (hmem : k ∈ rec.objects) : k = recordKey rec := by
  rcases h.others k hmem with heq | hc
  · exact heq
  · exact absurd hc hk

theorem RecordShape.not_skip (h : RecordShape rec) : skipRecord rec = false := by
  obtain ⟨kind, addr, _, hkn, had⟩ := h.root
  have hk : rec.kind ≠ "" := by
    rw [hkn]
    cases kind <;> decide
  have ha : rec.addr ≠ "" := by
    rw [had]
    exact addr.string_ne_empty
  have ho : rec.objects ≠ [] := ne_nil_of_mem h.self
  rw [skipRecord, decide_eq_false_iff_not, not_or, not_or]
  exact ⟨hk, ha, ho⟩

theorem verify_hashPrefix (h : verify blake3 kind addr body = .ok ()) :
    addr.hashPrefix = hashPrefixBLAKE3 := by
  by_cases hk : kind = .manifest
  · subst hk
    obtain ⟨chunks, _, _, hrt⟩ := verify_manifest_inv h
    obtain ⟨root, _, heq⟩ := Option.map_eq_some_iff.mp hrt
    rw [← heq]
    rfl
  · rw [← (verify_hashed hk h).1]
    rfl

def inLoop : PinPc → Bool
  | .next | .fetch _ | .gate _ _ | .write _ _ | .register _ _ | .commit => true
  | _ => false

def pastGate : PinPc → Option Want
  | .write w _ | .register w _ => some w
  | _ => none

def InPlan (op : PinOp) (k : String) : Prop := k = op.rootKey ∨ IsChunkKey k

structure OpPlan (op : PinOp) : Prop where
  kind : pinnable op.kind = true
  objects : ∀ k ∈ op.objects, InPlan op k
  set : ∀ w ∈ op.set, InPlan op w.key
  current : ∀ w, acquiring op.pc = some w → InPlan op w.key
  /-- The root has been gone past, or its turn is now or later. -/
  root : inLoop op.pc = true → op.rootKey ∈ op.objects ∨ (∃ w ∈ op.set, w.key = op.rootKey)
    ∨ ∃ w, acquiring op.pc = some w ∧ w.key = op.rootKey
  commit : op.pc = .commit → op.set = []
  verified : ∀ w, pastGate op.pc = some w → w.addr.hashPrefix = hashPrefixBLAKE3

variable {op : PinOp}

theorem OpPlan.leave (h : OpPlan op) (hrt : op'.rootKey = op.rootKey) (hkn : op'.kind = op.kind)
    (hobj : op'.objects = op.objects) (hset : op'.set = op.set) (hacq : acquiring op'.pc = none)
    (hlp : inLoop op'.pc = false) (hgt : pastGate op'.pc = none) : OpPlan op' where
  kind := by
    rw [hkn]
    exact h.kind
  objects := by
    rw [hobj]
    intro k hk
    rw [InPlan, hrt]
    exact h.objects k hk
  set := by
    rw [hset]
    intro w hw
    rw [InPlan, hrt]
    exact h.set w hw
  current := fun w hw => absurd (hacq ▸ hw) (by simp)
  root := fun hl => absurd (hlp ▸ hl) (by simp)
  commit := by
    intro hc
    rw [hc] at hlp
    exact absurd hlp (by simp [inLoop])
  verified := fun w hw => absurd (hgt ▸ hw) (by simp)

theorem OpPlan.goOn (h : OpPlan op) (hacq : acquiring op.pc = some w) (hlp : inLoop op.pc = true)
    (hacq' : acquiring pc = some w) (hpc : pc ≠ .commit)
    (hgt : ∀ w', pastGate pc = some w' → w'.addr.hashPrefix = hashPrefixBLAKE3) :
    OpPlan { op with pc := pc } where
  kind := h.kind
  objects := h.objects
  set := h.set
  current := by
    intro w' hw'
    exact h.current w' (hacq.trans (hacq'.symm.trans hw'))
  root := by
    intro _
    rcases h.root hlp with hr | hr | ⟨w', hw', hkey⟩
    · exact .inl hr
    · exact .inr (.inl hr)
    · exact .inr (.inr ⟨w', hacq'.trans (hacq.symm.trans hw'), hkey⟩)
  commit := fun hc => absurd hc hpc
  verified := hgt

theorem wantSet_plan {blake3 : Bytes → Digest} {body : Bytes} {set : List Want}
    (h : wantSet blake3 op.kind op.addr body = .ok set) :
    (∀ w ∈ set, InPlan op w.key) ∧ ∃ w ∈ set, w.key = op.rootKey := by
  unfold wantSet at h
  split at h
  · obtain ⟨chunks, _, h⟩ := Except.bind_eq_ok.mp h
    cases h
    refine ⟨?_, _, .head _, rfl⟩
    intro w hw
    rcases mem_cons.mp hw with rfl | hw
    · exact .inl rfl
    · obtain ⟨c, _, rfl⟩ := mem_map.mp hw
      exact .inr ⟨c, rfl⟩
  · cases h
    refine ⟨?_, _, mem_singleton.mpr rfl, rfl⟩
    intro w hw
    rw [mem_singleton.mp hw]
    exact .inl rfl

section

variable (h : OpPlan op)

include h

theorem OpPlan.set_cons (hset : op.set = w :: rest) :
    InPlan op w.key ∧ ∀ w' ∈ rest, InPlan op w'.key := by
  have hall := h.set
  rw [hset] at hall
  exact ⟨hall w (.head _), fun w' hw' => hall w' (.tail _ hw')⟩

theorem OpPlan.root_cons (hpc : op.pc = .next) (hset : op.set = w :: rest) :
    op.rootKey ∈ op.objects ∨ (∃ w' ∈ rest, w'.key = op.rootKey) ∨ w.key = op.rootKey := by
  have hrt := h.root (by rw [hpc]; rfl)
  rw [hset, hpc] at hrt
  rcases hrt with hr | ⟨w', hw', hkey⟩ | ⟨w', hw', _⟩
  · exact .inl hr
  · rcases mem_cons.mp hw' with rfl | hw'
    · exact .inr (.inr hkey)
    · exact .inr (.inl ⟨w', hw', hkey⟩)
  · exact absurd hw' (by simp [acquiring])

theorem OpPlan.objects_concat {w : Want} (hw : InPlan op w.key) :
    ∀ k ∈ op.objects ++ [w.key], InPlan op k := by
  intro k hk
  rcases mem_append.mp hk with hk | hk
  · exact h.objects k hk
  · rw [mem_singleton.mp hk]
    exact hw

theorem OpPlan.root_behind (hlp : inLoop op.pc = true) (hset : op.set = [])
    (hpc : acquiring op.pc = none) : op.rootKey ∈ op.objects := by
  have hrt := h.root hlp
  rw [hset, hpc] at hrt
  rcases hrt with hr | ⟨w, hw, _⟩ | ⟨w, hw, _⟩
  · exact hr
  · simp at hw
  · simp at hw

variable {cfg : Config}

theorem opPlan_move {p p' : PinStore} {op' : PinOp} {ops : List DiskOp}
    (hm : PinMove cfg p op p' ops (.inl op')) : OpPlan op' := by
  cases hm with
  | accept _ _ _ | fail _ _ | commit _ | commitFail _ | undo _ | rollback _ =>
    exact h.leave rfl rfl rfl rfl rfl rfl rfl
  | @resolve body set hpc hset =>
    obtain ⟨hall, hrt⟩ := wantSet_plan hset
    exact ⟨h.kind, h.objects, hall, nofun, fun _ => .inr (.inl hrt), nofun, nofun⟩
  | full hpc hset =>
    refine ⟨h.kind, h.objects, nofun, nofun, fun _ => .inl ?_, fun _ => rfl, nofun⟩
    exact h.root_behind (by rw [hpc]; rfl) hset (by rw [hpc]; rfl)
  | @share w rest sz hpc hset _ =>
    obtain ⟨hw, hrs⟩ := h.set_cons hset
    refine ⟨h.kind, h.objects_concat hw, hrs, nofun, fun _ => ?_, nofun, nofun⟩
    rcases h.root_cons hpc hset with hr | hr | hr
    · exact .inl (mem_append_left _ hr)
    · exact .inr (.inl hr)
    · exact .inl (mem_append_right _ (mem_singleton.mpr hr.symm))
  | @acquire w rest pc hpc hset _ hpc' =>
    obtain ⟨hw, hrs⟩ := h.set_cons hset
    have hacq : acquiring pc = some w ∧ pastGate pc = none ∧ pc ≠ .commit := by
      rcases hpc' with rfl | ⟨body, rfl⟩ <;> exact ⟨rfl, rfl, by simp⟩
    refine ⟨h.kind, h.objects, hrs, ?_, ?_, fun hc => absurd hc hacq.2.2,
      fun w' hw' => absurd (hacq.2.1 ▸ hw') (by simp)⟩
    · intro w' hw'
      have heq : w = w' := Option.some.inj (hacq.1.symm.trans hw')
      exact heq ▸ hw
    intro _
    rcases h.root_cons hpc hset with hr | hr | hr
    · exact .inl hr
    · exact .inr (.inl hr)
    · exact .inr (.inr ⟨w, hacq.1, hr⟩)
  | fetched hpc =>
    exact h.goOn (by rw [hpc]; rfl) (by rw [hpc]; rfl) rfl (by simp)
      nofun
  | pass hpc hv _ =>
    refine h.goOn (by rw [hpc]; rfl) (by rw [hpc]; rfl) rfl (by simp) ?_
    intro w hw
    injection hw with hw
    exact hw ▸ verify_hashPrefix hv
  | written hpc =>
    exact h.goOn (by rw [hpc]; rfl) (by rw [hpc]; rfl) rfl (by simp)
      (fun w hw => h.verified w (by rw [hpc]; exact hw))
  | @register w n hpc =>
    have hw := h.current w (by rw [hpc]; rfl)
    refine ⟨h.kind, h.objects_concat hw, h.set, nofun, fun _ => ?_, nofun, nofun⟩
    rcases h.root (by rw [hpc]; rfl) with hr | hr | ⟨w', hw', hkey⟩
    · exact .inl (mem_append_left _ hr)
    · exact .inr (.inl hr)
    rw [hpc] at hw'
    cases hw'
    exact .inl (mem_append_right _ (mem_singleton.mpr hkey.symm))

theorem OpPlan.record (hpc : op.pc = .commit) (now : Int) :
    RecordShape (op.record now) where
  root := ⟨op.kind, op.addr, h.kind, rfl, rfl⟩
  self := h.root_behind (by rw [hpc]; rfl) (h.commit hpc) (by rw [hpc]; rfl)
  others := h.objects

end

/-- The counted keys are valid, the records have their shape, and the pin follows its plan. -/
structure ShapeInv (p : PinStore) (op : Option PinOp) : Prop where
  keys : ∀ o ∈ p.objects, ValidKey o
  records : ∀ root rec, p.pins.lookup root = some rec → RecordShape rec ∧ root = recordKey rec
  plan : ∀ o, op = some o → OpPlan o

theorem ShapeInv.shrinks {p p' : PinStore} {op : Option PinOp} (h : ShapeInv p op)
    (hs : Shrinks p p') : ShapeInv p' op where
  keys := fun o ho => h.keys o (hs.mem_objects ho)
  records := fun root rec hrec => h.records root rec (hs.pins root rec hrec)
  plan := h.plan

theorem ShapeInv.root_named {p : PinStore} {op : Option PinOp} (h : ShapeInv p op) {k : String}
    (hk : ¬ IsChunkKey k) (hn : named p.pins k = true) : k ∈ p.pins := by
  obtain ⟨root, rec, hrec, ho⟩ := named_iff.mp hn
  obtain ⟨hsh, hrt⟩ := h.records root rec hrec
  rw [hsh.root_of_mem hk ho, ← hrt]
  exact FinMap.mem_of_lookup hrec

theorem ShapeInv.records_insert (h : ShapeInv p (some op)) (hpc : op.pc = .commit) (now : Int)
    (root : String) (rec : PinRecord)
    (hrec : (p.pins.insert op.rootKey (op.record now)).lookup root = some rec) :
    RecordShape rec ∧ root = recordKey rec := by
  by_cases hr : root = op.rootKey
  · rw [hr, Finmap.lookup_insert] at hrec
    injection hrec with hrec
    rw [hr, ← hrec]
    exact ⟨(h.plan op rfl).record hpc now, rfl⟩
  · rw [Finmap.lookup_insert_of_ne _ hr] at hrec
    exact h.records root rec hrec

theorem shapeInv_move {p p' : PinStore} {ops : List DiskOp}
    {next : PinOp ⊕ Except GoError PinRecord} (h : ShapeInv p (some op))
    (hm : PinMove cfg p op p' ops next) : ShapeInv p' next.getLeft? := by
  have hpl := h.plan op rfl
  have hnx : ∀ o, next.getLeft? = some o → OpPlan o := by
    intro o ho
    cases next with
    | inl op' =>
      cases ho
      exact opPlan_move hpl hm
    | inr result => simp at ho
  cases hm with
  | @register w n hpc =>
    refine ⟨?_, h.records, hnx⟩
    intro o ho
    rcases Finmap.mem_insert.mp ho with rfl | ho
    -- the gate let through only what verifies
    · exact ⟨w.kind, w.addr, rfl, hpl.verified w (by rw [hpc]; rfl)⟩
    · exact h.keys o ho
  | commit hpc | commitFail hpc => exact ⟨h.keys, h.records_insert hpc _, hnx⟩
  | undo _ =>
    refine ⟨h.keys, ?_, hnx⟩
    intro root rec hrec
    exact h.records root rec (lookup_erase_eq_some.mp hrec).2
  | rollback _ =>
    have hs := h.shrinks (shrinks_foldl_dropObject op.wrote p)
    exact ⟨hs.keys, hs.records, hnx⟩
  | _ => exact ⟨h.keys, h.records, hnx⟩

theorem shapeInv_step {q : Option String} {v v' : View} (h : ShapeInv v.p v.op)
    (hs : ViewStep cfg q v v') : ShapeInv v'.p v'.op := by
  cases hs with
  | idle => exact h
  | quarantine badKey indexOk => exact h.shrinks (shrinks_quarantine v.p badKey indexOk)
  | mark key => exact ⟨h.keys, h.records, h.plan⟩
  | tamper _ => exact h
  | start kind addr owner hop hkn =>
    refine ⟨h.keys, h.records, fun o ho => ?_⟩
    cases ho
    exact ⟨hkn, nofun, nofun, nofun, nofun, nofun, nofun⟩
  | move hop hmv =>
    rw [hop] at h
    exact shapeInv_move h hmv
  | unpin kind addr owner indexOk hop =>
    rw [hop] at h
    exact h.shrinks (shrinks_unpin v.p kind addr owner indexOk)

end VulosRelay.Proof
