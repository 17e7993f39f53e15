import VulosRelay.Server.StaticTokens
import VulosRelay.Lib.Outcome
import Mathlib.Data.Set.Function

/-!
# Static grants and the entries they share

`NewStaticTokenStoreWithRevoked` gives every grant an entry, and a second grant of a token
the entry of the first. What may go wrong is that a grant finds its token bound already, as
the *previous* token of another grant: it then writes its names and its account into the
entry of that other grant. In the other order the list is refused.

The argument is about linked grants, those that list a token in common:

* `Separate` forbids that a previous token is listed by a grant that does not list the
  token it precedes. Then linked grants form classes (`linked_trans`), and whatever the
  order, the entries of the store are these classes (`Built`);
* `Built` determines every entry, so the order does not matter, and whether a list is
  accepted is a question about its grants and pairs of them (`Valid`);
* inside a class, a token reaches the names and the account of every grant of the class.
  That is right exactly if some grant lists the token with the name and the account
  (`Even`).
-/

namespace VulosRelay.Server

open List Option Except StaticStore

variable {gs' : List Grant} {old : GrantEntry}

/-! ## Values that may be blank -/

section Joined

variable {α : Type} {blank : α} {vals : α → Prop} {a b new : α}

def Joined (blank : α) (vals : α → Prop) (a : α) : Prop :=
  (∀ v, vals v → v ≠ blank → v = a) ∧ (a = blank ∨ vals a)

theorem Joined.unique (ha : Joined blank vals a) (hb : Joined blank vals b) : a = b := by
  rcases ha.2 with rfl | hvl
  · rcases hb.2 with rfl | hvl
    · rfl
    by_cases hbl : b = a
    · exact hbl.symm
    · exact (ha.1 b hvl hbl).symm
  · by_cases hbl : a = blank
    · rcases hb.2 with rfl | hvl'
      · exact hbl
      by_cases hb' : b = blank
      · rw [hbl, hb']
      · exact (ha.1 b hvl' hb').symm
    · exact hb.1 a hvl hbl

theorem Joined.congr (h : ∀ v, vals v ↔ vals' v) (ha : Joined blank vals a) :
    Joined blank vals' a :=
  ⟨fun v hv => ha.1 v ((h v).mpr hv), ha.2.imp_right (h a).mp⟩

variable [DecidableEq α]

@[simp] theorem settle_blank : settle blank blank new = some new := by
  unfold settle
  split
  · next h => rw [h]
  · simp

theorem Joined.settle (ha : Joined blank vals a) (h : settle blank a new = some b) :
    Joined blank (fun v => v = new ∨ vals v) b := by
  unfold Server.settle at h
  split at h
  · rename_i hbl
    cases h
    refine ⟨fun v hv hne => ?_, ha.2.imp_right .inr⟩
    rcases hv with rfl | hv
    · exact absurd hbl hne
    · exact ha.1 v hv hne
  · rename_i hbl
    split at h
    · simp at h
    rename_i hsm
    cases h
    refine ⟨fun v hv hne => ?_, .inr (.inl rfl)⟩
    rcases hv with rfl | hv
    · rfl
    have hva := ha.1 v hv hne
    by_contra hcn
    exact hsm ⟨fun h => hne (hva.trans h), fun h => hcn (hva.trans h)⟩

def Agrees (blank a b : α) : Prop := a = blank ∨ b = blank ∨ a = b

theorem Joined.agrees (ha : Joined blank vals a) (hv : vals v) (hw : vals w) :
    Agrees blank v w := by
  by_cases hv' : v = blank
  · exact .inl hv'
  by_cases hw' : w = blank
  · exact .inr (.inl hw')
  · exact .inr (.inr ((ha.1 v hv hv').trans (ha.1 w hw hw').symm))

theorem Joined.settle_isSome_iff (ha : Joined blank vals a) :
    (∃ b, Server.settle blank a new = some b) ↔ ∀ v, vals v → Agrees blank new v := by
  unfold Server.settle
  constructor
  · intro h v hv
    by_cases hnew : new = blank
    · exact .inl hnew
    by_cases hv' : v = blank
    · exact .inr (.inl hv')
    obtain rfl := ha.1 v hv hv'
    rw [if_neg hnew] at h
    obtain ⟨b, hb⟩ := h
    split at hb
    · simp at hb
    rename_i hsm
    by_contra hcn
    refine hsm ⟨hv', fun h => hcn ?_⟩
    exact .inr (.inr h.symm)
  · intro h
    split
    · exact ⟨a, rfl⟩
    rename_i hnew
    rw [if_neg]
    · exact ⟨new, rfl⟩
    rintro ⟨hne, hdf⟩
    rcases h a (ha.2.resolve_left hne) with h | h | h
    · exact hnew h
    · exact hne h
    · exact hdf h.symm

end Joined

/-! ## What a grant says -/

section Grants

variable {κ : Type} (env : TokenEnv κ)

/-- A grant lists a token, as its token or its previous one. -/
def Grant.Lists (g : Grant) (t : String) : Prop :=
  t = env.trimSpace g.token ∨ t = env.trimSpace g.previousToken ∧ t ≠ ""

def Grant.account (g : Grant) : String := env.trimSpace g.accountId

/-- A grant has a name that is the same after normalization. -/
def Grant.Names (g : Grant) (n : String) : Prop :=
  ∃ m ∈ g.names, env.normalizeName m = env.normalizeName n

/-- Two grants list a token in common. -/
def Grant.Linked (g h : Grant) : Prop := ∃ t, g.Lists env t ∧ h.Lists env t

def Grant.Valid (g : Grant) : Prop :=
  env.trimSpace g.token ≠ "" ∧ g.names ≠ [] ∧ (∀ n ∈ g.names, env.normalizeName n ≠ "") ∧
    env.trimSpace g.previousToken ≠ env.trimSpace g.token

def Grant.Compatible (g h : Grant) : Prop :=
  Agrees "" (g.account env) (h.account env) ∧ Agrees GoTime.zero g.expiresAt h.expiresAt

def Valid (gs : List Grant) : Prop :=
  (∀ g ∈ gs, g.Valid env) ∧ ∀ g ∈ gs, ∀ h ∈ gs, g.Linked env h → g.Compatible env h

/-- A previous token is listed by those grants only that list the token it precedes. -/
def Separate (gs : List Grant) : Prop :=
  ∀ g ∈ gs, ∀ h ∈ gs, env.trimSpace g.previousToken ≠ "" →
    h.Lists env (env.trimSpace g.previousToken) → h.Lists env (env.trimSpace g.token)

/-- Of linked grants, each token that one lists is listed with each name that one has, by a
grant that has the account of those that have one. -/
def Even (gs : List Grant) : Prop :=
  ∀ g ∈ gs, ∀ h ∈ gs, ∀ l ∈ gs, g.Linked env h → g.Linked env l → ∀ t, g.Lists env t →
    ∀ m ∈ h.names, ∃ k ∈ gs, k.Lists env t ∧ k.Names env m ∧
      (l.account env = "" ∨ k.account env = l.account env)

/-- The tokens that grants list are among some. -/
def Within (tokens : Set String) (gs : List Grant) : Prop :=
  ∀ g ∈ gs, ∀ t, g.Lists env t → t ∈ tokens

variable {env} {gs : List Grant} {g h k : Grant}

theorem Within.subset (h : Within env tokens gs) (hsub : gs' ⊆ gs) :
    Within env tokens gs' := fun g hg => h g (hsub hg)

theorem lists_token : g.Lists env (env.trimSpace g.token) := .inl rfl

theorem lists_previous (h : env.trimSpace g.previousToken ≠ "") :
    g.Lists env (env.trimSpace g.previousToken) := .inr ⟨rfl, h⟩

theorem linked_refl : g.Linked env g := ⟨_, lists_token, lists_token⟩

theorem Grant.Linked.symm (h : g.Linked env k) : k.Linked env g := by
  obtain ⟨t, hg, hk⟩ := h
  exact ⟨t, hk, hg⟩

theorem Separate.lists_token_of_linked (hsep : Separate env gs) (hg : g ∈ gs) (hh : h ∈ gs)
    (hln : g.Linked env h) : h.Lists env (env.trimSpace g.token) := by
  obtain ⟨t, hgt, hht⟩ := hln
  rcases hgt with rfl | ⟨rfl, hne⟩
  · exact hht
  · exact hsep g hg h hh hne hht

instance (g : Grant) (t : String) : Decidable (g.Lists env t) :=
  inferInstanceAs (Decidable (_ ∨ _))

instance (g : Grant) (n : String) : Decidable (g.Names env n) :=
  inferInstanceAs (Decidable (∃ m ∈ g.names, env.normalizeName m = env.normalizeName n))

theorem linked_iff :
    g.Linked env h ↔ h.Lists env (env.trimSpace g.token) ∨
      env.trimSpace g.previousToken ≠ "" ∧ h.Lists env (env.trimSpace g.previousToken) := by
  constructor
  · rintro ⟨t, rfl | ⟨rfl, hne⟩, hh⟩
    · exact .inl hh
    · exact .inr ⟨hne, hh⟩
  rintro (hh | ⟨hne, hh⟩)
  · exact ⟨_, lists_token, hh⟩
  · exact ⟨_, lists_previous hne, hh⟩

theorem separate_even_of_unlinked (hunl : ∀ g ∈ gs, ∀ h ∈ gs, g.Linked env h → g = h) :
    Separate env gs ∧ Even env gs := by
  constructor
  · intro g hg h hh hne hpr
    obtain rfl := hunl g hg h hh ⟨_, lists_previous hne, hpr⟩
    exact lists_token
  intro g hg h hh l hl hgh hgl t ht m hm
  obtain rfl := hunl g hg h hh hgh
  obtain rfl := hunl g hg l hl hgl
  exact ⟨g, hg, ht, ⟨m, hm, rfl⟩, .inr rfl⟩

theorem Separate.linked_trans (hsep : Separate env gs) (hg : g ∈ gs) (hh : h ∈ gs)
    (hk : k ∈ gs) (hgh : g.Linked env h) (hhk : h.Linked env k) : g.Linked env k :=
  ⟨_, hsep.lists_token_of_linked hh hg hgh.symm, hsep.lists_token_of_linked hh hk hhk⟩

theorem Separate.linked_congr (hsep : Separate env gs) (hg : g ∈ gs) (hh : h ∈ gs)
    (hk : k ∈ gs) (hgh : g.Linked env h) : g.Linked env k ↔ h.Linked env k :=
  ⟨hsep.linked_trans hh hg hk hgh.symm, hsep.linked_trans hg hh hk hgh⟩

theorem Separate.subset (hsep : Separate env gs) (hsub : gs' ⊆ gs) :
    Separate env gs' := fun g hg h hh => hsep g (hsub hg) h (hsub hh)

end Grants

/-! ## One grant is added -/

section Names

variable {κ : Type} {env : TokenEnv κ} {i : Nat}

theorem mem_addNames (h : addNames env i names l = .ok names') :
    (∀ n ∈ l, env.normalizeName n ≠ "") ∧
      ∀ n, n ∈ names' ↔ n ∈ names ∨ ∃ m ∈ l, env.normalizeName m = n := by
  induction l generalizing names with
  | nil =>
    obtain rfl := ok.inj h
    simp
  | cons m l ih =>
    rw [addNames] at h
    split at h
    · simp at h
    rename_i hne
    obtain ⟨hval, hnm⟩ := ih h
    refine ⟨forall_mem_cons.mpr ⟨hne, hval⟩, fun n => ?_⟩
    rw [hnm, Finset.mem_insert, exists_mem_cons_iff, eq_comm (a := n)]
    tauto

theorem addNames_ok (names : Finset String) (h : ∀ n ∈ l, env.normalizeName n ≠ "") :
    ∃ names', addNames env i names l = .ok names' := by
  induction l generalizing names with
  | nil => exact ⟨names, rfl⟩
  | cons m l ih =>
    obtain ⟨hm, hl⟩ := forall_mem_cons.mp h
    rw [addNames, if_neg hm]
    exact ih _ hl

theorem fillEntry_ok (h : fillEntry env i g old = .ok e) :
    (∀ n ∈ g.names, env.normalizeName n ≠ "") ∧ e.account = old.account ∧
      settle GoTime.zero old.expiresAt g.expiresAt = some e.expiresAt ∧
      ∀ n, n ∈ e.names ↔ n ∈ old.names ∨ ∃ m ∈ g.names, env.normalizeName m = n := by
  unfold fillEntry at h
  split at h
  · simp at h
  rename_i expiresAt hexp
  cases hnm : addNames env i old.names g.names with
  | error e => rw [hnm] at h; exact absurd h (by simp [Except.map])
  | ok names =>
    rw [hnm] at h
    obtain rfl := ok.inj h
    obtain ⟨hval, hmem⟩ := mem_addNames hnm
    exact ⟨hval, rfl, hexp, hmem⟩

end Names

section Add

variable {κ : Type} [DecidableEq κ] {env : TokenEnv κ} {s s' : StaticStore κ} {i : Nat}
  {g : Grant} {p : Nat} {old e : GrantEntry}

inductive Opens (env : TokenEnv κ) (s : StaticStore κ) (g : Grant) : Nat → GrantEntry → Prop where
  | fresh : s.byHash.lookup (env.sha256 (env.trimSpace g.token)) = none →
      Opens env s g s.next ⟨∅, "", GoTime.zero⟩
  | found {p : Nat} : s.byHash.lookup (env.sha256 (env.trimSpace g.token)) = some p →
      Opens env s g p ((s.entries.lookup p).getD ⟨∅, "", GoTime.zero⟩)

structure Fills (env : TokenEnv κ) (g : Grant) (old e : GrantEntry) : Prop where
  account : settle "" old.account (g.account env) = some e.account
  expiresAt : settle GoTime.zero old.expiresAt g.expiresAt = some e.expiresAt
  names : ∀ n, n ∈ e.names ↔ n ∈ old.names ∨ ∃ m ∈ g.names, env.normalizeName m = n

structure Added (env : TokenEnv κ) (s : StaticStore κ) (g : Grant) (p : Nat) (e : GrantEntry)
    (s' : StaticStore κ) : Prop where
  listed : ∀ t, g.Lists env t → s'.byHash.lookup (env.sha256 t) = some p
  others : ∀ k, (∀ t, g.Lists env t → env.sha256 t ≠ k) →
    s'.byHash.lookup k = s.byHash.lookup k
  entries : s'.entries = s.entries.insert p e
  next : s'.next = if (s.byHash.lookup (env.sha256 (env.trimSpace g.token))).isSome then s.next
    else s.next + 1

theorem lookup_bind : (s.bind h p).byHash.lookup h = some p := Finmap.lookup_insert _

theorem lookup_bind_of_ne (hne : k ≠ h) :
    (s.bind h p).byHash.lookup k = s.byHash.lookup k := Finmap.lookup_insert_of_ne _ hne

structure Entered (env : TokenEnv κ) (s : StaticStore κ) (g : Grant) (p : Nat)
    (t : StaticStore κ) : Prop where
  found : t.byHash.lookup (env.sha256 (env.trimSpace g.token)) = some p
  others : ∀ k, env.sha256 (env.trimSpace g.token) ≠ k → t.byHash.lookup k = s.byHash.lookup k
  entries : t.entries = s.entries
  next : t.next = if (s.byHash.lookup (env.sha256 (env.trimSpace g.token))).isSome then s.next
    else s.next + 1

theorem entryFor_ok (h : s.entryFor env i g (env.sha256 (env.trimSpace g.token)) = .ok (t, p, e)) :
    ∃ old, Opens env s g p old ∧ settle "" old.account (g.account env) = some e.account ∧
      e.names = old.names ∧ e.expiresAt = old.expiresAt ∧ Entered env s g p t := by
  unfold entryFor at h
  split at h
  · rename_i hno
    obtain ⟨rfl, rfl, rfl⟩ : _ ∧ _ ∧ _ := by simpa using h
    refine ⟨_, .fresh hno, settle_blank, rfl, rfl, ?_, fun k hk => ?_, rfl, ?_⟩
    · exact lookup_bind
    · exact lookup_bind_of_ne hk.symm
    · rw [hno]
      rfl
  · rename_i q hsm
    dsimp only at h
    split at h
    · simp at h
    rename_i account hac
    obtain ⟨rfl, rfl, rfl⟩ : _ ∧ _ ∧ _ := by simpa using h
    refine ⟨_, .found hsm, hac, rfl, rfl, hsm, fun k hk => rfl, rfl, ?_⟩
    rw [hsm]
    rfl

theorem bindPrevious_ok {t : StaticStore κ} (htok : env.trimSpace g.token ≠ "")
    (hfn : t.byHash.lookup (env.sha256 (env.trimSpace g.token)) = some p)
    (h : t.bindPrevious env i g p = .ok s') :
    env.trimSpace g.previousToken ≠ env.trimSpace g.token ∧
      (env.trimSpace g.previousToken ≠ "" →
        ∀ q, t.byHash.lookup (env.sha256 (env.trimSpace g.previousToken)) = some q → q = p) ∧
      (∀ u, g.Lists env u → s'.byHash.lookup (env.sha256 u) = some p) ∧
      (∀ k, (∀ u, g.Lists env u → env.sha256 u ≠ k) → s'.byHash.lookup k = t.byHash.lookup k) ∧
      s'.entries = t.entries ∧ s'.next = t.next := by
  unfold bindPrevious at h
  dsimp only at h
  split at h
  · rename_i hemp
    obtain rfl := ok.inj h
    refine ⟨hemp ▸ htok.symm, fun hne => absurd hemp hne, fun u hu => ?_,
      fun _ _ => rfl, rfl, rfl⟩
    rcases hu with rfl | ⟨rfl, hne⟩
    · exact hfn
    · exact absurd hemp hne
  · rename_i hemp
    split at h
    · simp at h
    rename_i hdf
    -- In both cases that are left the previous token is bound to the entry.
    have hbn :
        (∀ q, t.byHash.lookup (env.sha256 (env.trimSpace g.previousToken)) = some q → q = p) ∧
          s' = t.bind (env.sha256 (env.trimSpace g.previousToken)) p := by
      split at h
      · rename_i q hq
        split at h
        · simp at h
        rename_i hsm
        refine ⟨fun q' hq' => ?_, (ok.inj h).symm⟩
        rw [hq] at hq'
        cases hq'
        exact not_not.mp hsm
      · rename_i hno
        refine ⟨fun q hq => ?_, (ok.inj h).symm⟩
        rw [hno] at hq
        simp at hq
    obtain ⟨hsm, rfl⟩ := hbn
    refine ⟨hdf, fun _ => hsm, fun u hu => ?_, fun k hk => ?_, rfl, rfl⟩
    · by_cases hhs : env.sha256 u = env.sha256 (env.trimSpace g.previousToken)
      · rw [hhs]
        exact lookup_bind
      rw [lookup_bind_of_ne hhs]
      rcases hu with rfl | ⟨rfl, _⟩
      · exact hfn
      · exact absurd rfl hhs
    · exact lookup_bind_of_ne (hk _ (lists_previous hemp)).symm

theorem add_ok (h : s.add env i g = .ok s') :
    g.Valid env ∧ ∃ p old e, Opens env s g p old ∧ Fills env g old e ∧ Added env s g p e s' ∧
      (env.trimSpace g.previousToken ≠ "" →
        env.sha256 (env.trimSpace g.token) ≠ env.sha256 (env.trimSpace g.previousToken) →
        ∀ q, s.byHash.lookup (env.sha256 (env.trimSpace g.previousToken)) = some q → q = p) := by
  unfold add at h
  dsimp only at h
  split at h
  · simp at h
  rename_i htok
  split at h
  · simp at h
  rename_i hnm
  obtain ⟨⟨t, p, entry⟩, hen, h⟩ := bind_eq_ok.mp h
  obtain ⟨e, hfl, h⟩ := bind_eq_ok.mp h
  obtain ⟨old, hopens, hac, hold, hexp, hent⟩ := entryFor_ok hen
  obtain ⟨hval, hacc, hex, hmem⟩ := fillEntry_ok hfl
  obtain ⟨hdf, hpr, hls, hoth, hentries, hnx⟩ :=
    bindPrevious_ok (t := { t with entries := t.entries.insert p e }) htok
      hent.found h
  refine ⟨⟨htok, hnm, hval, hdf⟩, p, old, e, hopens, ⟨?_, ?_, ?_⟩,
    ⟨hls, fun k hk => ?_, ?_, ?_⟩, fun hne hhs q hq => ?_⟩
  · rw [hacc, hac]
  · rw [← hexp, hex]
  · rw [← hold]
    exact hmem
  · rw [hoth k hk]
    exact hent.others k (hk _ lists_token)
  · rw [hentries, ← hent.entries]
  · rw [hnx, ← hent.next]
  refine hpr hne q ?_
  rw [← hq]
  exact hent.others _ hhs

theorem bindPrevious_exists {t : StaticStore κ} (hval : g.Valid env)
    (hpr : env.trimSpace g.previousToken ≠ "" →
      ∀ q, t.byHash.lookup (env.sha256 (env.trimSpace g.previousToken)) = some q → q = p) :
    ∃ s', t.bindPrevious env i g p = .ok s' := by
  unfold bindPrevious
  dsimp only
  split
  · exact ⟨t, rfl⟩
  rename_i hne
  rw [if_neg hval.2.2.2]
  split
  · rename_i q hq
    rw [if_neg (not_not.mpr (hpr hne q hq))]
    exact ⟨_, rfl⟩
  · exact ⟨_, rfl⟩

theorem add_exists (hval : g.Valid env) (hopens : Opens env s g p old)
    (hac : ∃ a, settle "" old.account (g.account env) = some a)
    (hexp : ∃ x, settle GoTime.zero old.expiresAt g.expiresAt = some x)
    (hpr : env.trimSpace g.previousToken ≠ "" →
      ∀ q, s.byHash.lookup (env.sha256 (env.trimSpace g.previousToken)) = some q → q = p) :
    ∃ s', s.add env i g = .ok s' := by
  obtain ⟨account, hac⟩ := hac
  obtain ⟨expiresAt, hexp⟩ := hexp
  obtain ⟨names, hnm⟩ := addNames_ok (i := i) old.names hval.2.2.1
  have hfl : fillEntry env i g { old with account := account } =
      .ok ⟨names, account, expiresAt⟩ := by
    unfold fillEntry
    rw [hexp]
    rw [hnm]
    rfl
  unfold add
  rw [if_neg hval.1, if_neg hval.2.1]
  cases hopens with
  | fresh hno =>
    rw [settle_blank] at hac
    cases hac
    have hen : s.entryFor env i g (env.sha256 (env.trimSpace g.token)) =
        .ok ({ s.bind (env.sha256 (env.trimSpace g.token)) s.next with next := s.next + 1 },
          s.next, ⟨∅, g.account env, GoTime.zero⟩) := by
      unfold entryFor
      rw [hno]
      rfl
    obtain ⟨s', hs'⟩ := bindPrevious_exists (i := i) (p := s.next)
      (t := ⟨s.byHash.insert (env.sha256 (env.trimSpace g.token)) s.next,
        s.entries.insert s.next ⟨names, g.account env, expiresAt⟩, s.next + 1⟩) hval
      fun hne q hq => by
        by_cases hhs : env.sha256 (env.trimSpace g.previousToken) =
            env.sha256 (env.trimSpace g.token)
        · rw [hhs] at hq
          exact (some.inj ((lookup_bind (s := s)).symm.trans hq)).symm
        · exact hpr hne q ((lookup_bind_of_ne hhs).symm.trans hq)
    exact ⟨s', bind_eq_ok.mpr ⟨_, hen, bind_eq_ok.mpr ⟨_, hfl, hs'⟩⟩⟩
  | found hsm =>
    have hen : s.entryFor env i g (env.sha256 (env.trimSpace g.token)) =
        .ok (s, p, { (s.entries.lookup p).getD ⟨∅, "", GoTime.zero⟩ with account := account }) := by
      unfold entryFor
      rw [hsm]
      dsimp only
      rw [show settle "" _ (env.trimSpace g.accountId) = some account from hac]
    obtain ⟨s', hs'⟩ := bindPrevious_exists (i := i) (p := p)
      (t := { s with entries := s.entries.insert p ⟨names, account, expiresAt⟩ }) hval hpr
    exact ⟨s', bind_eq_ok.mpr ⟨_, hen, bind_eq_ok.mpr ⟨_, hfl, hs'⟩⟩⟩

end Add

/-! ## The store that a list builds -/

section Describes

variable {κ : Type} (env : TokenEnv κ)

structure Describes (gs : List Grant) (g : Grant) (e : GrantEntry) : Prop where
  names : ∀ n, n ∈ e.names ↔ ∃ h ∈ gs, g.Linked env h ∧ ∃ m ∈ h.names, env.normalizeName m = n
  account : Joined "" (fun a => ∃ h ∈ gs, g.Linked env h ∧ h.account env = a) e.account
  expiresAt : Joined GoTime.zero (fun x => ∃ h ∈ gs, g.Linked env h ∧ h.expiresAt = x) e.expiresAt

variable {env} {gs : List Grant} {g : Grant} {e e' : GrantEntry}

theorem Describes.unique (he : Describes env gs g e) (he' : Describes env gs g e') : e = e' := by
  have hnm : e.names = e'.names := by
    ext n
    rw [he.names, he'.names]
  have hac := he.account.unique he'.account
  have hexp := he.expiresAt.unique he'.expiresAt
  cases e
  cases e'
  simp_all

theorem Describes.congr (he : Describes env gs g e) (hiff : ∀ P : Grant → Prop,
    (∃ k ∈ gs, g.Linked env k ∧ P k) ↔ ∃ k ∈ gs', h.Linked env k ∧ P k) : Describes env gs' h e :=
  ⟨fun n => (he.names n).trans (hiff _), he.account.congr fun _ => hiff _,
    he.expiresAt.congr fun _ => hiff _⟩

theorem Describes.of_linked (hcn : ∀ k ∈ gs, g.Linked env k ↔ h.Linked env k)
    (he : Describes env gs g e) : Describes env gs h e :=
  he.congr fun _ => exists_congr fun k => and_congr_right fun hk => by rw [hcn k hk]

theorem Describes.cons (hunl : ¬ g.Linked env h) (he : Describes env gs g e) :
    Describes env (h :: gs) g e := by
  refine he.congr fun P => ?_
  rw [exists_mem_cons_iff]
  tauto

end Describes

section Build

variable {κ : Type} [DecidableEq κ] (env : TokenEnv κ)

structure Built (gs : List Grant) (s : StaticStore κ) : Prop where
  /-- Every hash in the store is that of a token that is listed. -/
  keys : ∀ k p, s.byHash.lookup k = some p → p < s.next ∧ ∃ g ∈ gs, ∃ t, g.Lists env t ∧
    env.sha256 t = k
  /-- The tokens of a grant lead to one entry, that of its class. -/
  entry : ∀ g ∈ gs, ∃ p e, (∀ t, g.Lists env t → s.byHash.lookup (env.sha256 t) = some p) ∧
    s.entries.lookup p = some e ∧ Describes env gs g e
  apart : ∀ g ∈ gs, ∀ h ∈ gs, ∀ t u p, g.Lists env t → h.Lists env u →
    s.byHash.lookup (env.sha256 t) = some p → s.byHash.lookup (env.sha256 u) = some p →
    g.Linked env h

variable {env} {gs : List Grant} {s s' : StaticStore κ} {g h : Grant} {e e' : GrantEntry}

theorem Built.congr (hmem : ∀ h, h ∈ gs ↔ h ∈ gs') (hs : Built env gs s) :
    Built env gs' s where
  keys := by simpa only [hmem] using hs.keys
  entry g hg := by
    obtain ⟨p, e, hls, hlk, he⟩ := hs.entry g ((hmem g).mpr hg)
    exact ⟨p, e, hls, hlk, he.congr (by simp only [hmem, implies_true])⟩
  apart := by simpa only [hmem] using hs.apart

theorem built_new : Built env [] (new : StaticStore κ) where
  keys k p h := absurd h (by simp [new])
  entry g hg := absurd hg (by simp)
  apart g hg := absurd hg (by simp)

theorem Added.next_le (hs : Built env gs s) (hopens : Opens env s g p old)
    (hadded : Added env s g p e s') :
    s.next ≤ s'.next ∧ p < s'.next := by
  have hnx := hadded.next
  cases hopens with
  | fresh hno =>
    rw [hno] at hnx
    simp only [isSome_none, Bool.false_eq_true, if_false] at hnx
    omega
  | found hsm =>
    rw [hsm] at hnx
    simp only [isSome_some, if_true] at hnx
    exact ⟨hnx.ge, hnx ▸ (hs.keys _ _ hsm).1⟩

theorem Added.lookup_eq (hsha : Set.InjOn env.sha256 tokens) (hwithin : Within env tokens (g :: gs))
    (hadded : Added env s g p e s') (hh : h ∈ g :: gs) (ht : h.Lists env t) (hg : ¬ g.Lists env t) :
    s'.byHash.lookup (env.sha256 t) = s.byHash.lookup (env.sha256 t) := by
  refine hadded.others _ fun u hu hhs => hg ?_
  exact hsha (hwithin g (.head _) u hu) (hwithin h hh t ht) hhs ▸ hu

section Step

variable {tokens : Set String} (hsha : Set.InjOn env.sha256 tokens)
  (hwithin : Within env tokens (g :: gs)) (hs : Built env gs s)

include hsha hwithin hs

theorem listed_of_lookup (ht : g.Lists env t) (hlk : s.byHash.lookup (env.sha256 t) = some p) :
    ∃ h ∈ gs, h.Lists env t := by
  obtain ⟨-, h, hh, u, hu, hhs⟩ := hs.keys _ _ hlk
  have heq := hsha (hwithin h (.tail _ hh) u hu)
    (hwithin g (.head _) t ht) hhs
  exact ⟨h, hh, heq ▸ hu⟩

variable (hsep : Separate env (g :: gs))

include hsep

theorem opens_describes (hopens : Opens env s g p old) :
    Describes env gs g old ∧
      ∀ h ∈ gs, ∀ t, h.Lists env t →
        (g.Linked env h ↔ s.byHash.lookup (env.sha256 t) = some p) := by
  have hmem : g ∈ g :: gs := .head _
  cases hopens with
  | fresh hno =>
    have hunl : ∀ h ∈ gs, ¬ g.Linked env h := fun h hh hln => by
      obtain ⟨p, e, hls, -, -⟩ := hs.entry h hh
      have hlst := hsep.lists_token_of_linked hmem (.tail _ hh) hln
      rw [hls _ hlst] at hno
      simp at hno
    refine ⟨⟨fun n => ?_, ⟨fun v hv => ?_, .inl rfl⟩, ⟨fun v hv => ?_, .inl rfl⟩⟩,
      fun h hh t ht => ?_⟩
    · refine ⟨nofun, fun hn => ?_⟩
      obtain ⟨h, hh, hln, -⟩ := hn
      exact absurd hln (hunl h hh)
    · obtain ⟨h, hh, hln, -⟩ := hv
      exact absurd hln (hunl h hh)
    · obtain ⟨h, hh, hln, -⟩ := hv
      exact absurd hln (hunl h hh)
    · refine ⟨fun hln => absurd hln (hunl h hh), fun hlk => ?_⟩
      exact absurd (hs.keys _ _ hlk).1 (lt_irrefl _)
  | @found p hsm =>
    obtain ⟨h₀, hh₀, hlst⟩ := listed_of_lookup hsha hwithin hs lists_token hsm
    have hmem₀ : h₀ ∈ g :: gs := .tail _ hh₀
    have hln₀ : g.Linked env h₀ := ⟨_, lists_token, hlst⟩
    obtain ⟨p₀, e, hpn, hen, hds⟩ := hs.entry h₀ hh₀
    obtain rfl : p₀ = p := some.inj ((hpn _ hlst).symm.trans hsm)
    have hcn : ∀ h ∈ gs, g.Linked env h ↔ h₀.Linked env h := fun h hh =>
      hsep.linked_congr hmem hmem₀ (.tail _ hh) hln₀
    refine ⟨?_, fun h hh t ht => ?_⟩
    · rw [hen, getD_some]
      exact hds.of_linked fun h hh => (hcn h hh).symm
    constructor
    · intro hln
      obtain ⟨q, -, hq, -, -⟩ := hs.entry h hh
      have htok := hsep.lists_token_of_linked hmem (.tail _ hh) hln
      rw [hq t ht, ← hq _ htok, hsm]
    · intro hlk
      have hh₀h := hs.apart h₀ hh₀ h hh _ t p₀ hlst ht hsm hlk
      exact (hcn h hh).mpr hh₀h

theorem fills_describes (hopens : Opens env s g p old) (hfl : Fills env g old e) :
    Describes env (g :: gs) g e := by
  obtain ⟨hold, -⟩ := opens_describes hsha hwithin hs hsep hopens
  have hsl : g.Linked env g := linked_refl
  refine ⟨fun n => ?_, (hold.account.settle hfl.account).congr fun v => ?_,
    (hold.expiresAt.settle hfl.expiresAt).congr fun v => ?_⟩
  · rw [hfl.names, hold.names, exists_mem_cons_iff, and_iff_right hsl, or_comm]
  · rw [exists_mem_cons_iff, and_iff_right hsl, eq_comm (a := v)]
  · rw [exists_mem_cons_iff, and_iff_right hsl, eq_comm (a := v)]

theorem add_exists_iff : (∃ s', s.add env i g = .ok s') ↔
      g.Valid env ∧ ∀ h ∈ gs, g.Linked env h → g.Compatible env h := by
  constructor
  · rintro ⟨s', hadd⟩
    obtain ⟨hval, p, old, e, hopens, hfl, -, -⟩ := add_ok hadd
    obtain ⟨hold, -⟩ := opens_describes hsha hwithin hs hsep hopens
    refine ⟨hval, fun h hh hln => ⟨?_, ?_⟩⟩
    · exact hold.account.settle_isSome_iff.mp ⟨_, hfl.account⟩ _ ⟨h, hh, hln, rfl⟩
    · exact hold.expiresAt.settle_isSome_iff.mp ⟨_, hfl.expiresAt⟩ _ ⟨h, hh, hln, rfl⟩
  · rintro ⟨hval, hcm⟩
    obtain ⟨p, old, hopens⟩ : ∃ p old, Opens env s g p old := by
      cases hlk : s.byHash.lookup (env.sha256 (env.trimSpace g.token)) with
      | none => exact ⟨_, _, .fresh hlk⟩
      | some p => exact ⟨_, _, .found hlk⟩
    obtain ⟨hold, hlnk⟩ := opens_describes hsha hwithin hs hsep hopens
    refine add_exists hval hopens (hold.account.settle_isSome_iff.mpr ?_)
      (hold.expiresAt.settle_isSome_iff.mpr ?_) fun hne q hq => ?_
    · rintro v ⟨h, hh, hln, rfl⟩
      exact (hcm h hh hln).1
    · rintro v ⟨h, hh, hln, rfl⟩
      exact (hcm h hh hln).2
    obtain ⟨h, hh, hls⟩ := listed_of_lookup hsha hwithin hs (lists_previous hne) hq
    have hln : g.Linked env h := ⟨_, lists_previous hne, hls⟩
    exact some.inj (hq.symm.trans ((hlnk h hh _ hls).mp hln))

section Added

variable {p : Nat} {old : GrantEntry} (hopens : Opens env s g p old) (hadded : Added env s g p e s')

include hopens hadded

theorem Added.linked_iff (hh : h ∈ g :: gs) (ht : h.Lists env t) :
    g.Linked env h ↔ s'.byHash.lookup (env.sha256 t) = some p := by
  by_cases hg : g.Lists env t
  · exact ⟨fun _ => hadded.listed t hg, fun _ => ⟨t, hg, ht⟩⟩
  rw [Added.lookup_eq hsha hwithin hadded hh ht hg]
  refine (opens_describes hsha hwithin hs hsep hopens).2 h
    ((mem_cons.mp hh).resolve_left ?_) t ht
  rintro rfl
  exact hg ht

theorem Added.entry_of (hfl : Fills env g old e) (hh : h ∈ g :: gs) :
    ∃ q f, (∀ t, h.Lists env t → s'.byHash.lookup (env.sha256 t) = some q) ∧
      s'.entries.lookup q = some f ∧ Describes env (g :: gs) h f := by
  have hln : ∀ t, h.Lists env t → (g.Linked env h ↔ _) := fun t ht =>
    Added.linked_iff hsha hwithin hs hsep hopens hadded hh ht
  by_cases hlnk : g.Linked env h
  · refine ⟨p, e, fun t ht => (hln t ht).mp hlnk, ?_, ?_⟩
    · rw [hadded.entries]
      exact Finmap.lookup_insert _
    · refine (fills_describes hsha hwithin hs hsep hopens hfl).of_linked fun k hk => ?_
      exact hsep.linked_congr (.head _) hh hk hlnk
  · have hold : h ∈ gs := (mem_cons.mp hh).resolve_left fun heq =>
      hlnk (heq ▸ linked_refl)
    obtain ⟨q, f, hls, hlk, hf⟩ := hs.entry h hold
    have hq : ∀ t, h.Lists env t → s'.byHash.lookup (env.sha256 t) = some q := fun t ht => by
      rw [Added.lookup_eq hsha hwithin hadded hh ht fun hg => hlnk ⟨t, hg, ht⟩, hls t ht]
    have hne : q ≠ p := fun heq => hlnk ((hln _ lists_token).mpr (heq ▸ hq _ lists_token))
    refine ⟨q, f, hq, ?_, hf.cons fun h => hlnk h.symm⟩
    rw [hadded.entries, Finmap.lookup_insert_of_ne _ hne]
    exact hlk

end Added

theorem Built.add (hadd : s.add env i g = .ok s') : Built env (g :: gs) s' := by
  obtain ⟨-, p, old, e, hopens, hfl, hadded, -⟩ := add_ok hadd
  refine ⟨fun k q hk => ?_, fun h hh => ?_, fun x hx y hy t u q ht hu hq hq' => ?_⟩
  · obtain ⟨hle, hlt⟩ := Added.next_le hs hopens hadded
    by_cases hls : ∃ t, g.Lists env t ∧ env.sha256 t = k
    · obtain ⟨t, ht, rfl⟩ := hls
      obtain rfl := some.inj ((hadded.listed t ht).symm.trans hk)
      exact ⟨hlt, g, .head _, t, ht, rfl⟩
    rw [hadded.others k fun t ht hhs => hls ⟨t, ht, hhs⟩] at hk
    obtain ⟨hold, h, hh, t, ht, hhs⟩ := hs.keys k q hk
    exact ⟨hold.trans_le hle, h, .tail _ hh, t, ht, hhs⟩
  · exact Added.entry_of hsha hwithin hs hsep hopens hadded hfl hh
  by_cases hqp : q = p
  · subst hqp
    have hgx := (Added.linked_iff hsha hwithin hs hsep hopens hadded hx ht).mpr hq
    have hgy := (Added.linked_iff hsha hwithin hs hsep hopens hadded hy hu).mpr hq'
    exact hsep.linked_trans hx (.head _) hy hgx.symm hgy
  · have hgt : ¬ g.Lists env t := fun h =>
      hqp (some.inj (hq.symm.trans (hadded.listed t h)))
    have hgu : ¬ g.Lists env u := fun h =>
      hqp (some.inj (hq'.symm.trans (hadded.listed u h)))
    rw [Added.lookup_eq hsha hwithin hadded hx ht hgt] at hq
    rw [Added.lookup_eq hsha hwithin hadded hy hu hgu] at hq'
    have hxl : x ∈ gs := (mem_cons.mp hx).resolve_left fun h => hgt (h ▸ ht)
    have hyl : y ∈ gs := (mem_cons.mp hy).resolve_left fun h => hgu (h ▸ hu)
    exact hs.apart x hxl y hyl t u q ht hu hq hq'

end Step

/-! ## The whole list -/

section All

variable {tokens : Set String} (hsha : Set.InjOn env.sha256 tokens)

include hsha

theorem addAll_ok (hwithin : Within env tokens (rest ++ gs)) (hsep : Separate env (rest ++ gs))
    (hs : Built env gs s) (h : s.addAll env i rest = .ok s') :
    Built env (rest ++ gs) s' ∧ ∀ g ∈ rest, g.Valid env := by
  induction rest generalizing gs s i with
  | nil =>
    obtain rfl := ok.inj h
    exact ⟨hs, nofun⟩
  | cons g rest ih =>
    have hsub : g :: gs ⊆ g :: rest ++ gs := by simp
    have hmem : ∀ x, x ∈ rest ++ g :: gs ↔ x ∈ g :: rest ++ gs := by simp [or_left_comm]
    have hsub' : rest ++ g :: gs ⊆ g :: rest ++ gs := fun x hx => (hmem x).mp hx
    obtain ⟨s₁, hadd, h⟩ := bind_eq_ok.mp h
    have hbl := Built.add hsha (hwithin.subset hsub) hs (hsep.subset hsub) hadd
    obtain ⟨hbl', hval⟩ := ih (hwithin.subset hsub') (hsep.subset hsub') hbl h
    exact ⟨hbl'.congr hmem, forall_mem_cons.mpr ⟨(add_ok hadd).1, hval⟩⟩

theorem addAll_exists (hwithin : Within env tokens (rest ++ gs)) (hsep : Separate env (rest ++ gs))
    (hs : Built env gs s) (hval : Valid env (rest ++ gs)) :
    ∃ s', s.addAll env i rest = .ok s' := by
  induction rest generalizing gs s i with
  | nil => exact ⟨s, rfl⟩
  | cons g rest ih =>
    have hsub : g :: gs ⊆ g :: rest ++ gs := by simp
    have hsub' : rest ++ g :: gs ⊆ g :: rest ++ gs := fun x hx => by
      simpa [or_left_comm] using hx
    have hg : g ∈ g :: rest ++ gs := .head _
    obtain ⟨s₁, hadd⟩ := (add_exists_iff hsha (hwithin.subset hsub) hs (hsep.subset hsub)).mpr
      ⟨hval.1 g hg, fun h hh => hval.2 g hg h (hsub (.tail _ hh))⟩
    have hbl := Built.add hsha (hwithin.subset hsub) hs (hsep.subset hsub) hadd
    obtain ⟨s', hs'⟩ := ih (i := i + 1) (hwithin.subset hsub') (hsep.subset hsub') hbl
      ⟨fun x hx => hval.1 x (hsub' hx),
        fun x hx y hy => hval.2 x (hsub' hx) y (hsub' hy)⟩
    exact ⟨s', bind_eq_ok.mpr ⟨s₁, hadd, hs'⟩⟩

theorem new_ok (hwithin : Within env tokens gs) (hsep : Separate env gs)
    (h : newStaticTokenStore env gs = .ok s) : Built env gs s ∧ gs ≠ [] ∧ Valid env gs := by
  obtain ⟨t, hall, h⟩ := bind_eq_ok.mp h
  split at h
  · simp at h
  rename_i hne
  obtain rfl := ok.inj h
  have hnil : gs ++ [] = gs := append_nil gs
  obtain ⟨hbl, hval⟩ :=
    addAll_ok hsha (hnil.symm ▸ hwithin) (hnil.symm ▸ hsep) built_new hall
  rw [hnil] at hbl
  refine ⟨hbl, ?_, hval, fun g hg h hh hln => ?_⟩
  · rintro rfl
    obtain rfl := ok.inj hall
    exact hne rfl
  obtain ⟨-, e, -, -, he⟩ := hbl.entry g hg
  refine ⟨?_, ?_⟩
  · exact he.account.agrees ⟨g, hg, linked_refl, rfl⟩ ⟨h, hh, hln, rfl⟩
  · exact he.expiresAt.agrees ⟨g, hg, linked_refl, rfl⟩ ⟨h, hh, hln, rfl⟩

theorem new_exists_iff (hwithin : Within env tokens gs) (hsep : Separate env gs) :
    (∃ s, newStaticTokenStore env gs = .ok s) ↔ gs ≠ [] ∧ Valid env gs := by
  constructor
  · rintro ⟨s, hs⟩
    exact (new_ok hsha hwithin hsep hs).2
  rintro ⟨hne, hval⟩
  have hnil : gs ++ [] = gs := append_nil gs
  obtain ⟨s, hall⟩ := addAll_exists (i := 0) hsha (hnil.symm ▸ hwithin) (hnil.symm ▸ hsep)
    built_new (hnil.symm ▸ hval)
  obtain ⟨hbl, -⟩ := addAll_ok hsha (hnil.symm ▸ hwithin) (hnil.symm ▸ hsep) built_new hall
  obtain ⟨g, hg⟩ := exists_mem_of_ne_nil gs hne
  obtain ⟨p, -, hlk, -, -⟩ := hbl.entry g (hnil.symm ▸ hg)
  refine ⟨s, bind_eq_ok.mpr ⟨s, hall, if_neg fun hemp => ?_⟩⟩
  have hfn := hlk _ lists_token
  rw [hemp] at hfn
  simp at hfn

end All

/-! ## What is authorized -/

section Authorize

variable {tokens : Set String} {revoked : RevokedList κ} {now : Int} {token name : String}

theorem authorize_listed (hs : Built env gs s) (hg : g ∈ gs) (hne : env.trimSpace token ≠ "")
    (hls : g.Lists env (env.trimSpace token)) :
    ∃ e, Describes env gs g e ∧
      ∀ revoked now name, s.authorize env revoked now token name =
        e.authorize env revoked now (env.trimSpace token) name := by
  obtain ⟨p, e, hlk, hen, he⟩ := hs.entry g hg
  refine ⟨e, he, fun revoked now name => ?_⟩
  unfold authorize
  rw [if_neg hne, hlk _ hls, bind_some, hen]

theorem authorize_unlisted (hsha : Set.InjOn env.sha256 tokens) (hwithin : Within env tokens gs)
    (hs : Built env gs s) (hne : env.trimSpace token ≠ "") (htok : env.trimSpace token ∈ tokens)
    (hun : ∀ g ∈ gs, ¬ g.Lists env (env.trimSpace token)) :
    s.authorize env revoked now token name = .error .unknownToken := by
  have hno : s.byHash.lookup (env.sha256 (env.trimSpace token)) = none := by
    rw [eq_none_iff_forall_ne_some]
    intro p hp
    obtain ⟨-, g, hg, t, ht, hhs⟩ := hs.keys _ _ hp
    exact hun g hg (hsha (hwithin g hg t ht) htok hhs ▸ ht)
  unfold authorize
  rw [if_neg hne, hno]
  rfl

theorem authorize_congr (hsha : Set.InjOn env.sha256 tokens) (hwithin : Within env tokens gs)
    (hs : Built env gs s) (hs' : Built env gs s') (htok : env.trimSpace token ∈ tokens) :
    s'.authorize env revoked now token name = s.authorize env revoked now token name := by
  by_cases hne : env.trimSpace token = ""
  · simp only [authorize, hne, if_true]
  by_cases hls : ∃ g ∈ gs, g.Lists env (env.trimSpace token)
  · obtain ⟨g, hg, hlst⟩ := hls
    obtain ⟨e, he, heq⟩ := authorize_listed hs hg hne hlst
    obtain ⟨e', he', heq'⟩ := authorize_listed hs' hg hne hlst
    rw [heq, heq', he.unique he']
  · have hun : ∀ g ∈ gs, ¬ g.Lists env (env.trimSpace token) := fun g hg hlst =>
      hls ⟨g, hg, hlst⟩
    rw [authorize_unlisted hsha hwithin hs hne htok hun,
      authorize_unlisted hsha hwithin hs' hne htok hun]

theorem GrantEntry.authorize_ok {account : String}
    (h : e.authorize env revoked now token name = .ok account) :
    env.normalizeName name ∈ e.names ∧ e.account = account := by
  unfold GrantEntry.authorize at h
  split at h
  · simp at h
  rename_i hnm
  split at h
  · simp at h
  split at h
  · simp at h
  · exact ⟨not_not.mp hnm, ok.inj h⟩

theorem GrantEntry.authorize_at_expiry (hnm : env.normalizeName name ∈ e.names) :
    e.authorize env ⟨∅, ∅, ∅⟩ e.expiresAt token name = .ok e.account := by
  unfold GrantEntry.authorize
  rw [if_neg (not_not.mpr hnm)]
  simp [GrantEntry.expired, RevokedList.isRevoked]

end Authorize

end Build

/-! ## Grants that do not leak -/

section Isolated

variable {κ : Type} [DecidableEq κ] (env : TokenEnv κ) (tokens : Set String)

/-- A store authorizes what grants say: with each name some grant that lists the token, and
with its account. -/
def GrantsFaithful (gs : List Grant) (s : StaticStore κ) : Prop :=
  ∀ revoked now token name account, env.trimSpace token ∈ tokens →
    s.authorize env revoked now token name = .ok account →
    ∃ g ∈ gs, g.Lists env (env.trimSpace token) ∧ g.Names env name ∧ g.account env = account

/-- Two lists are both refused, or both accepted with stores that authorize the same. -/
def SameStore (gs gs' : List Grant) : Prop :=
  ((∃ s, newStaticTokenStore env gs = .ok s) ↔ ∃ s, newStaticTokenStore env gs' = .ok s) ∧
    ∀ s s', newStaticTokenStore env gs = .ok s → newStaticTokenStore env gs' = .ok s' →
      ∀ revoked now token name, env.trimSpace token ∈ tokens →
        s'.authorize env revoked now token name = s.authorize env revoked now token name

variable {env} {tokens} {gs gs' : List Grant} {s : StaticStore κ}

theorem even_of_faithful (hwithin : Within env tokens gs) (hs : Built env gs s)
    (hval : Valid env gs) (hft : GrantsFaithful env tokens gs s) : Even env gs := by
  intro g hg h hh l hl hgh hgl t ht m hm
  obtain ⟨token, rfl, hne⟩ : ∃ token, env.trimSpace token = t ∧ t ≠ "" := by
    rcases ht with rfl | ⟨rfl, hne⟩
    · exact ⟨g.token, rfl, (hval.1 g hg).1⟩
    · exact ⟨g.previousToken, rfl, hne⟩
  obtain ⟨e, he, heq⟩ := authorize_listed hs hg hne ht
  have hnm : env.normalizeName m ∈ e.names := (he.names _).mpr ⟨h, hh, hgh, m, hm, rfl⟩
  obtain ⟨k, hk, hkt, hkn, hka⟩ := hft ⟨∅, ∅, ∅⟩ e.expiresAt token m e.account
    (hwithin g hg _ ht) (by rw [heq, GrantEntry.authorize_at_expiry hnm])
  refine ⟨k, hk, hkt, hkn, ?_⟩
  by_cases hbl : l.account env = ""
  · exact .inl hbl
  · exact .inr (hka.trans (he.account.1 _ ⟨l, hl, hgl, rfl⟩ hbl).symm)

variable (hsha : Set.InjOn env.sha256 tokens) (hwithin : Within env tokens gs)

include hsha hwithin

theorem sameStore_of_separate (hsep : Separate env gs) (hpr : gs.Perm gs') :
    SameStore env tokens gs gs' := by
  have hmem : ∀ g, g ∈ gs' ↔ g ∈ gs := fun g => hpr.mem_iff.symm
  have hsub : gs' ⊆ gs := fun g hg => (hmem g).mp hg
  have hwithin' := hwithin.subset hsub
  have hsep' := hsep.subset hsub
  constructor
  · rw [new_exists_iff hsha hwithin hsep, new_exists_iff hsha hwithin' hsep']
    refine and_congr (not_congr ⟨?_, ?_⟩) ?_
    · rintro rfl
      exact nil_perm.mp hpr
    · rintro rfl
      exact perm_nil.mp hpr
    · simp only [Valid, hmem]
  · intro s s' hs hs' revoked now token name htok
    have hbl := (new_ok hsha hwithin hsep hs).1
    have hbl' := (new_ok hsha hwithin' hsep' hs').1
    exact authorize_congr hsha hwithin hbl (hbl'.congr hmem) htok

theorem faithful_of_even (hs : Built env gs s) (hev : Even env gs) :
    GrantsFaithful env tokens gs s := by
  intro revoked now token name account htok h
  by_cases hne : env.trimSpace token = ""
  · rw [authorize, if_pos hne] at h
    simp at h
  by_cases hls : ∃ g ∈ gs, g.Lists env (env.trimSpace token)
  · obtain ⟨g, hg, hlst⟩ := hls
    obtain ⟨e, he, heq⟩ := authorize_listed hs hg hne hlst
    rw [heq] at h
    obtain ⟨hnm, rfl⟩ := e.authorize_ok h
    obtain ⟨x, hx, hln, m, hm, hnr⟩ := (he.names _).mp hnm
    by_cases hbl : e.account = ""
    · -- No grant of the class has an account.
      obtain ⟨k, hk, hkt, ⟨n, hn, hkn⟩, -⟩ :=
        hev g hg x hx g hg hln linked_refl _ hlst m hm
      refine ⟨k, hk, hkt, ⟨n, hn, hkn.trans hnr⟩, ?_⟩
      by_contra hcn
      exact hcn (he.account.1 _ ⟨k, hk, ⟨_, hlst, hkt⟩, rfl⟩ fun h => hcn (h.trans hbl.symm))
    · obtain ⟨l, hl, hgl, hac⟩ := he.account.2.resolve_left hbl
      obtain ⟨k, hk, hkt, ⟨n, hn, hkn⟩, hka⟩ := hev g hg x hx l hl hln hgl _ hlst m hm
      refine ⟨k, hk, hkt, ⟨n, hn, hkn.trans hnr⟩, ?_⟩
      rw [hac] at hka
      exact hka.resolve_left hbl
  · rw [authorize_unlisted hsha hwithin hs hne htok fun g hg hlst =>
      hls ⟨g, hg, hlst⟩] at h
    simp at h

theorem not_accepted_after (hg : g ∈ gs) (hh : h ∈ gs) (hne : env.trimSpace g.previousToken ≠ "")
    (hpr : h.Lists env (env.trimSpace g.previousToken))
    (htok : ¬ h.Lists env (env.trimSpace g.token)) :
    ¬ ∃ s, newStaticTokenStore env (h :: g :: rest) = .ok s := by
  rintro ⟨s, hs⟩
  obtain ⟨t, hall, -⟩ := bind_eq_ok.mp hs
  obtain ⟨s₁, hfst, hall⟩ := bind_eq_ok.mp hall
  obtain ⟨s₂, hsnd, -⟩ := bind_eq_ok.mp hall
  obtain ⟨-, p, old, e, hopens, -, hadded, -⟩ := add_ok hfst
  obtain ⟨hval, q, old', e', hopens', -, -, hbn⟩ := add_ok hsnd
  have htk := hwithin g hg
  -- The first grant takes the entry 0, and does not bind the token of the second.
  obtain ⟨rfl, hnx⟩ : p = 0 ∧ s₁.next = 1 := by
    have hnx := hadded.next
    cases hopens with
    | fresh => exact ⟨rfl, hnx⟩
    | found hsm => exact absurd hsm (by simp [new])
  have hun : s₁.byHash.lookup (env.sha256 (env.trimSpace g.token)) = none := by
    refine (hadded.others _ fun u hu hhs => htok ?_).trans (by simp [new])
    exact hsha (hwithin h hh u hu) (htk _ lists_token) hhs ▸ hu
  have hq : q = 1 := by
    cases hopens' with
    | fresh => exact hnx
    | found hsm => rw [hun] at hsm; simp at hsm
  have hhs : env.sha256 (env.trimSpace g.token) ≠ env.sha256 (env.trimSpace g.previousToken) :=
    fun heq => hval.2.2.2 (hsha (htk _ lists_token) (htk _ (lists_previous hne)) heq).symm
  have h01 := hbn hne hhs 0 (hadded.listed _ hpr)
  omega

theorem separate_of_orders (hor : ∀ gs', gs.Perm gs' → ∃ s, newStaticTokenStore env gs' = .ok s) :
    Separate env gs := by
  intro g hg h hh hne hpr
  by_contra htok
  have hdf : g ≠ h := by
    rintro rfl
    exact htok lists_token
  have hprm : gs.Perm (h :: g :: (gs.erase h).erase g) :=
    (perm_cons_erase hh).trans
      ((perm_cons_erase ((mem_erase_of_ne hdf).mpr hg)).cons h)
  exact not_accepted_after hsha hwithin hg hh hne hpr htok (hor _ hprm)

end Isolated

/-- **Static grants do not leak into each other, and may come in any order, exactly if they
are separate and even.** -/
theorem static_grants_isolated_iff {κ : Type} [DecidableEq κ] (env : TokenEnv κ)
    (tokens : Set String) (hsha : Set.InjOn env.sha256 tokens) :
    (∀ gs s, Within env tokens gs → newStaticTokenStore env gs = .ok s →
      ((GrantsFaithful env tokens gs s ∧ ∀ gs', gs.Perm gs' → SameStore env tokens gs gs') ↔
        Separate env gs ∧ Even env gs)) ∧
      ∀ gs gs', Within env tokens gs → Separate env gs → gs.Perm gs' →
        SameStore env tokens gs gs' := by
  refine ⟨fun gs s hwithin hs => ⟨fun ⟨hft, hor⟩ => ?_, fun ⟨hsep, hev⟩ => ?_⟩,
    fun gs gs' hwithin hsep hpr => sameStore_of_separate hsha hwithin hsep hpr⟩
  · have hsep : Separate env gs := separate_of_orders hsha hwithin fun gs' hpr =>
      (hor gs' hpr).1.mp ⟨s, hs⟩
    obtain ⟨hbl, -, hval⟩ := new_ok hsha hwithin hsep hs
    exact ⟨hsep, even_of_faithful hwithin hbl hval hft⟩
  · have hbl := (new_ok hsha hwithin hsep hs).1
    exact ⟨faithful_of_even hsha hwithin hbl hev,
      fun gs' hpr => sameStore_of_separate hsha hwithin hsep hpr⟩

def plainEnv : TokenEnv String := ⟨id, id, id⟩

def rotation : List Grant :=
  [⟨"new", ["box"], "acct", "old", GoTime.zero⟩, ⟨"other", ["nas"], "", "", GoTime.zero⟩]

theorem rotation_isolated :
    ∃ s, newStaticTokenStore plainEnv rotation = .ok s ∧
      s.authorize plainEnv ⟨∅, ∅, ∅⟩ 0 "old" "box" = .ok "acct" ∧
      GrantsFaithful plainEnv Set.univ rotation s ∧
      ∀ gs', rotation.Perm gs' → SameStore plainEnv Set.univ rotation gs' := by
  obtain ⟨s, hs, hat⟩ := exists_ok_of_any
    (x := newStaticTokenStore plainEnv rotation)
    (P := fun s => s.authorize plainEnv ⟨∅, ∅, ∅⟩ 0 "old" "box" = .ok "acct") (by decide)
  have hcn : Separate plainEnv rotation ∧ Even plainEnv rotation := by
    apply separate_even_of_unlinked
    simp only [linked_iff]
    decide
  refine ⟨s, hs, of_decide_eq_true hat, ?_⟩
  exact ((static_grants_isolated_iff plainEnv Set.univ (Set.injOn_id _)).1 rotation s
    (fun _ _ _ _ => Set.mem_univ _) hs).mpr hcn

def overlapping : List Grant :=
  [⟨"new", ["box"], "acct", "old", GoTime.zero⟩, ⟨"old", ["nas"], "", "", GoTime.zero⟩]

/-- The new token is authorized for the name of the other grant, and both tokens are billed
to one account; in the other order the list is refused. -/
theorem overlapping_grants_leak :
    (∃ s, newStaticTokenStore plainEnv overlapping = .ok s ∧
      s.authorize plainEnv ⟨∅, ∅, ∅⟩ 0 "new" "nas" = .ok "acct" ∧
      ¬ ∃ g ∈ overlapping, g.Lists plainEnv "new" ∧ g.Names plainEnv "nas") ∧
      ¬ ∃ s, newStaticTokenStore plainEnv overlapping.reverse = .ok s := by
  constructor
  · obtain ⟨s, hs, hat⟩ := exists_ok_of_any
      (x := newStaticTokenStore plainEnv overlapping)
      (P := fun s => s.authorize plainEnv ⟨∅, ∅, ∅⟩ 0 "new" "nas" = .ok "acct")
      (by decide)
    exact ⟨s, hs, of_decide_eq_true hat, by decide⟩
  · rintro ⟨s, hs⟩
    have href : (newStaticTokenStore plainEnv overlapping.reverse).isOk = false := by
      decide
    rw [hs] at href
    exact absurd href (by simp [Except.isOk, Except.toBool])

end VulosRelay.Server
