import VulosRelay.Reachability.Registry

/-!
# Who holds the name of a tunnel

At every time a name belongs to the registration made last for it, until the removal for that
registration has run. Registrations are told apart by their generations, so a removal that comes
late finds another one and leaves it alone. The registry keeps a name as it is spelled but looks
it up in lower case: only a name in lower case can be found again, and a name that is spelled
in two ways has two owners.
-/

namespace VulosRelay.Reachability

open RegistryState World

open Gateway (Str toAsciiLowercase)
open Finmap List

/-- The registration that was made last for a name, unless its removal has run. -/
def World.holder (w : World) (name : Str) : Option RegisteredTunnel :=
  (w.made.lookup name).filter fun t => ⟨name, t.generation⟩ ∉ w.processed

/-- The invariant, for as long as the counter of the generations does not wrap. -/
structure Inv (w : World) : Prop where
  /-- The counter is the number of registrations made. -/
  counted : w.registry.nextGeneration = w.made.length
  /-- Generations are below the counter, and in the order of the registrations. -/
  made_lt : ∀ e ∈ w.made, e.2.generation < w.registry.nextGeneration
  made_sorted : w.made.Pairwise fun e e' => e'.2.generation < e.2.generation
  /-- No guard is ahead of the counter. -/
  issued_lt : ∀ g, g ∈ w.guards ∨ g ∈ w.tasks ∨ g ∈ w.processed →
    g.generation < w.registry.nextGeneration
  /-- The table has for a name what its holder registered. -/
  tunnels : ∀ name, w.registry.tunnels.lookup name = w.holder name

variable {w w' : World} {name : Str} {t t' : RegisteredTunnel}

theorem holder_eq_some : w.holder name = some t ↔
    w.made.lookup name = some t ∧ ⟨name, t.generation⟩ ∉ w.processed := by
  rw [holder, Option.filter_eq_some_iff, decide_eq_true_iff]

/-- **What a step can do**: make a registration that may be made, hand a guard on, or run the
removal of one. -/
inductive Moved (w : World) : Act → World → Prop where
  | register (r : Registration) (ik : List UInt8) (handle : Nat)
      (hown : ∀ t, w.registry.tunnels.lookup r.name = some t → t.ownerIk = ik)
      (tunnel : RegisteredTunnel)
      (htunnel : tunnel = ⟨handle, r.allowedServices, ik, w.registry.nextGeneration⟩) :
      Moved w (.register r ik handle)
        ⟨⟨w.registry.tunnels.insert r.name tunnel, (w.registry.nextGeneration + 1) % 2 ^ 64⟩,
          ⟨r.name, w.registry.nextGeneration⟩ :: w.guards, w.tasks, (r.name, tunnel) :: w.made,
          w.processed⟩
  | dropGuard (g : RegistrationGuard) (hg : g ∈ w.guards) :
      Moved w (.dropGuard g) { w with guards := w.guards.erase g, tasks := g :: w.tasks }
  | deregister (g : RegistrationGuard) (hg : g ∈ w.tasks) :
      Moved w (.deregister g) { w with
        registry := w.registry.deregister g
        tasks := w.tasks.erase g
        processed := g :: w.processed }

theorem step_moved (h : w.step a = some w') : Moved w a w' := by
  cases a with
  | register r ik handle =>
    rw [step, register] at h
    split at h
    · cases h
    · rename_i hoth
      cases h
      refine .register r ik handle (fun t ht => ?_) _ rfl
      by_contra hne
      exact hoth ⟨t, ht, hne⟩
  | dropGuard g =>
    rw [step] at h
    split at h
    · cases h
      exact .dropGuard g ‹_›
    · cases h
  | deregister g =>
    rw [step] at h
    split at h
    · cases h
      exact .deregister g ‹_›
    · cases h

/-- A removal takes away the registration it was issued for, and nothing else. -/
theorem lookup_deregister {s : RegistryState} {g : RegistrationGuard} {name : Str} :
    (s.deregister g).tunnels.lookup name =
      (s.tunnels.lookup name).filter fun t => (⟨name, t.generation⟩ : RegistrationGuard) ≠ g := by
  obtain ⟨gname, generation⟩ := g
  rw [deregister]
  by_cases hnm : name = gname
  · subst hnm
    cases hlk : s.tunnels.lookup name with
    | none => simp [hlk]
    | some t =>
      by_cases hgen : t.generation = generation <;> simp [hlk, hgen, Option.filter_some]
  · have hkp : (s.tunnels.lookup name).filter
        (fun t => (⟨name, t.generation⟩ : RegistrationGuard) ≠ ⟨gname, generation⟩)
          = s.tunnels.lookup name := by
      cases s.tunnels.lookup name <;> simp [hnm]
    rw [hkp]
    split
    · exact lookup_erase_ne hnm
    · rfl

theorem Inv.step (hw : Inv w) (h : w.step a = some w') (hfit : w'.made.length < 2 ^ 64) :
    Inv w' := by
  cases step_moved h with
  | register r ik handle hown tunnel htn =>
    have hgen : tunnel.generation = w.registry.nextGeneration := by rw [htn]
    have hnx : (w.registry.nextGeneration + 1) % 2 ^ 64 = w.registry.nextGeneration + 1 := by
      rw [hw.counted]
      exact Nat.mod_eq_of_lt hfit
    rw [hnx]
    refine ⟨congrArg (· + 1) hw.counted, ?_, ?_, ?_, fun name => ?_⟩
    · intro e he
      rcases mem_cons.mp he with rfl | he
      · exact hgen.trans_lt (Nat.lt_succ_self _)
      · exact Nat.lt_succ_of_lt (hw.made_lt e he)
    · refine pairwise_cons.mpr ⟨fun e he => ?_, hw.made_sorted⟩
      exact (hw.made_lt e he).trans_eq hgen.symm
    · intro g hg
      rcases hg with hg | hg
      · rcases mem_cons.mp hg with rfl | hg
        · exact Nat.lt_succ_self _
        · exact Nat.lt_succ_of_lt (hw.issued_lt g (.inl hg))
      · exact Nat.lt_succ_of_lt (hw.issued_lt g (.inr hg))
    · by_cases hnm : name = r.name
      · subst hnm
        -- no removal can have been issued for the new generation yet
        have hnew : (⟨r.name, tunnel.generation⟩ : RegistrationGuard) ∉ w.processed := by
          intro hmem
          have := hw.issued_lt _ (.inr (.inr hmem))
          dsimp only at this
          omega
        simp [holder, Option.filter_some, hnew]
      · have hne : (name == r.name) = false := beq_eq_false_iff_ne.mpr hnm
        rw [lookup_insert_of_ne _ hnm, hw.tunnels, holder, holder, lookup_cons, hne]
  | dropGuard g hg =>
    refine ⟨hw.counted, hw.made_lt, hw.made_sorted, fun g' hg' => hw.issued_lt g' ?_, hw.tunnels⟩
    rcases hg' with hg' | hg' | hg'
    · exact .inl (mem_of_mem_erase hg')
    · rcases mem_cons.mp hg' with rfl | hg'
      · exact .inl hg
      · exact .inr (.inl hg')
    · exact .inr (.inr hg')
  | deregister g hg =>
    have hnx : (w.registry.deregister g).nextGeneration = w.registry.nextGeneration := by
      rw [deregister]
      split <;> rfl
    refine ⟨hnx.trans hw.counted, ?_, hw.made_sorted, fun g' hg' => ?_, fun name => ?_⟩
    · rw [hnx]
      exact hw.made_lt
    · rw [hnx]
      apply hw.issued_lt
      rcases hg' with hg' | hg' | hg'
      · exact .inl hg'
      · exact .inr (.inl (mem_of_mem_erase hg'))
      · rcases mem_cons.mp hg' with rfl | hg'
        · exact .inr (.inl hg)
        · exact .inr (.inr hg')
    · rw [lookup_deregister, hw.tunnels, holder, holder, Option.filter_filter]
      congr 1
      funext t
      simp [Bool.and_comm]

theorem length_made_le (h : w.step a = some w') : w.made.length ≤ w'.made.length := by
  cases step_moved h with
  | register => exact Nat.le_succ _
  | dropGuard | deregister => exact Nat.le_refl _

theorem reachable_inv (h : adapter.Reachable (fun _ _ => True) w) (hfit : w.made.length < 2 ^ 64) :
    Inv w := by
  refine h.invariant (P := fun w => w.made.length < 2 ^ 64 → Inv w) ?_ ?_ hfit
  · intro w hin _
    cases hin
    exact ⟨rfl, nofun, .nil, by simp [new], fun _ => rfl⟩
  · intro w a w' hw _ hst hfit
    exact (hw ((length_made_le hst).trans_lt hfit)).step hst hfit

theorem mem_made (hw : Inv w) (h : w.registry.tunnels.lookup name = some t) :
    (name, t) ∈ w.made := by
  rw [hw.tunnels, holder_eq_some] at h
  obtain ⟨newer, older, hmd, -⟩ := List.lookup_eq_some_iff.mp h.1
  rw [hmd]
  exact mem_append_right _ (mem_cons_self ..)

theorem eq_of_mem_made (hw : Inv w) (h : (name, t) ∈ w.made) (h' : (name', t) ∈ w.made) :
    name = name' := by
  have hnd : (w.made.map (·.2.generation)).Nodup :=
    pairwise_map.mpr (hw.made_sorted.imp fun hlt => hlt.ne')
  exact congrArg Prod.fst (inj_on_of_nodup_map hnd h h' rfl)

/-- A registration is found under its own name exactly if that is in lower case. -/
theorem lookupEntry_iff (hw : Inv w) (h : w.registry.tunnels.lookup name = some t) :
    w.registry.lookupEntry name = some t ↔ toAsciiLowercase name = name := by
  constructor
  · intro hfn
    exact eq_of_mem_made hw (mem_made hw hfn) (mem_made hw h)
  · intro hlw
    rw [lookupEntry, hlw, h]

/-- Every name that is held is in lower case. -/
def AllLower (w : World) : Prop :=
  ∀ name t, w.registry.tunnels.lookup name = some t → toAsciiLowercase name = name

/-- **Names are DNS names**: a registration is found under every spelling of its name, and no
spelling of it belongs to somebody else. -/
def DnsNames (w : World) : Prop :=
  ∀ name t, w.registry.tunnels.lookup name = some t →
    (∀ spelling, toAsciiLowercase spelling = toAsciiLowercase name →
      w.registry.lookupEntry spelling = some t) ∧
    ∀ name' t', w.registry.tunnels.lookup name' = some t' →
      toAsciiLowercase name' = toAsciiLowercase name → t'.ownerIk = t.ownerIk

theorem dnsNames_iff (w : World) (h : adapter.Reachable (fun _ _ => True) w)
    (hmade : w.made.length < 2 ^ 64) : DnsNames w ↔ AllLower w := by
  have hw := reachable_inv h hmade
  constructor
  · intro hdns name t ht
    exact (lookupEntry_iff hw ht).mp ((hdns name t ht).1 name rfl)
  · intro hlw name t ht
    refine ⟨fun spelling hsm => ?_, fun name' t' ht' hsm => ?_⟩
    · rw [lookupEntry, hsm, hlw name t ht, ht]
    · rw [hlw name t ht, hlw name' t' ht'] at hsm
      subst hsm
      cases ht.symm.trans ht'
      rfl

/-- The adapter after its first registration. -/
def registered (name : Str) (ik : List UInt8) : World :=
  ⟨⟨(∅ : FinMap Str RegisteredTunnel).insert name ⟨0, ∅, ik, 0⟩, 1⟩, [⟨name, 0⟩], [],
    [(name, ⟨0, ∅, ik, 0⟩)], []⟩

theorem registered_reachable (name : Str) (ik : List UInt8) :
    adapter.Reachable (fun _ _ => True) (registered name ik) := by
  refine .tail (a := .register ⟨name, ∅⟩ ik 0) (.init rfl) trivial ?_
  simp [adapter, step, new, register, registered]

theorem registered_lower {ik : List UInt8} : AllLower (registered ['a'] ik) := by
  intro name t ht
  by_cases hnm : name = ['a']
  · rw [hnm]
    rfl
  · rw [registered, lookup_insert_of_ne _ hnm] at ht
    cases ht

theorem lower_name_is_dns : DnsNames (registered ['a'] [1]) :=
  (dnsNames_iff _ (registered_reachable _ _) (by decide)).mpr registered_lower

/-- The name `A` of one identity is looked up as the name `a` of another. -/
theorem two_spellings_two_owners : ∃ w t t', adapter.Reachable (fun _ _ => True) w ∧
    w.registry.tunnels.lookup ['A'] = some t ∧ w.registry.lookupEntry ['A'] = some t' ∧
    t.ownerIk ≠ t'.ownerIk := by
  have hlw : toAsciiLowercase ['A'] = ['a'] := rfl
  refine ⟨_, ⟨0, ∅, [1], 0⟩, ⟨1, ∅, [2], 1⟩,
    .tail (a := .register ⟨['a'], ∅⟩ [2] 1) (registered_reachable ['A'] [1]) trivial rfl, ?_, ?_,
    by decide⟩
  · simp [registered]
  · rw [lookupEntry, hlw]
    exact lookup_insert _

/-- **Names are not stolen or dropped**: what any next step does to a name, and what the name
is worth now. -/
structure Unstolen (w : World) : Prop where
  /-- A name goes over to nobody else. -/
  replaced : ∀ a w' name t t', w.step a = some w' → w.registry.tunnels.lookup name = some t →
    w'.registry.tunnels.lookup name = some t' → t'.ownerIk = t.ownerIk
  /-- It is given up only by the removal that was issued for it. -/
  removed : ∀ a w' name t, w.step a = some w' → w.registry.tunnels.lookup name = some t →
    w'.registry.tunnels.lookup name = none → a = .deregister ⟨name, t.generation⟩
  /-- It belongs to the registration made last, until the removal of that has run. -/
  latest : ∀ name, w.registry.tunnels.lookup name = w.holder name
  /-- Then anybody may register it. -/
  freed : ∀ name t, w.made.lookup name = some t → ⟨name, t.generation⟩ ∈ w.processed →
    ∀ r ik handle, r.name = name → (w.registry.register r ik handle).isSome
  /-- Whoever holds a name is found under it. -/
  found : ∀ name t, w.holder name = some t → w.registry.lookupEntry name = some t

theorem unstolen_iff (w : World) (h : adapter.Reachable (fun _ _ => True) w)
    (hmade : w.made.length < 2 ^ 64) : Unstolen w ↔ AllLower w := by
  have hw := reachable_inv h hmade
  constructor
  · intro hsf name t ht
    exact (lookupEntry_iff hw ht).mp (hsf.found name t (hsf.latest name ▸ ht))
  · intro hlw
    refine ⟨?_, ?_, hw.tunnels, ?_, fun name t ht => ?_⟩
    · intro a w' name t t' hst ht ht'
      cases step_moved hst with
      | register r ik handle hown tunnel htn =>
        by_cases hnm : name = r.name
        · subst hnm
          rw [lookup_insert] at ht'
          cases ht'
          rw [hown t ht, htn]
        · rw [lookup_insert_of_ne _ hnm, ht] at ht'
          cases ht'
          rfl
      | dropGuard g hg =>
        cases ht.symm.trans ht'
        rfl
      | deregister g hg =>
        rw [lookup_deregister, ht] at ht'
        cases (Option.filter_eq_some_iff.mp ht').1
        rfl
    · intro a w' name t hst ht hgn
      cases step_moved hst with
      | register r ik handle hown tunnel htn =>
        by_cases hnm : name = r.name
        · rw [hnm, lookup_insert] at hgn
          cases hgn
        · rw [lookup_insert_of_ne _ hnm, ht] at hgn
          cases hgn
      | dropGuard g hg => cases ht.symm.trans hgn
      | deregister g hg =>
        rw [lookup_deregister, ht] at hgn
        by_contra hne
        -- a guard of another generation removes nothing
        have hoth : (⟨name, t.generation⟩ : RegistrationGuard) ≠ g := fun heq => hne (heq ▸ rfl)
        simp [hoth] at hgn
    · intro name t hmd hdn r ik handle hnm
      have hfr : w.registry.tunnels.lookup r.name = none := by
        rw [hnm, hw.tunnels, holder, hmd]
        simp [hdn]
      simp [register, hfr]
    · rw [← hw.tunnels] at ht
      exact (lookupEntry_iff hw ht).mpr (hlw name t ht)

theorem lower_name_is_kept : Unstolen (registered ['a'] [1]) :=
  (unstolen_iff _ (registered_reachable _ _) (by decide)).mpr registered_lower

/-- The name `A` is held, but not found. -/
theorem upper_name_not_found : ∃ w t, adapter.Reachable (fun _ _ => True) w ∧
    w.holder ['A'] = some t ∧ w.registry.lookupEntry ['A'] = none := by
  have hlw : toAsciiLowercase ['A'] = ['a'] := rfl
  refine ⟨_, ⟨0, ∅, [1], 0⟩, registered_reachable ['A'] [1], rfl, ?_⟩
  rw [lookupEntry, hlw]
  simp [registered]

end VulosRelay.Reachability
