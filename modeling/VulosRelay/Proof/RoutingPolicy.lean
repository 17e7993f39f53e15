import VulosRelay.Gateway.MultiDomain

/-!
# Whom `route` lets mail through to

`route` goes through the name spaces of a domain and takes what the first one that has the
local part says (`named`; `NameOf` and `Unnamed` say it by the tables). The policy is applied
to texts and not to what they stand for: a suspension to the local part of the recipient, so
the other names of a suspended user's key still lead to it; a blocklist to the trimmed text
of the sender, with its angle brackets; and the correspondent of a random alias to nothing.
-/

namespace VulosRelay.Gateway.MultiDomain

open Authz (Core)

section Names

variable (core : Core) (t : DomainTenant) (lp domain : Str) (now : UInt64) (registered : List Key)

def randomRow : Option AliasRow :=
  match t.directory.lookup (folded (lp ++ '@' :: domain)) with
  | some _ => none
  | none => (t.random.lookup lp).filter (·.live now)

def named : Option Recipient :=
  ((t.directory.lookup (folded (lp ++ '@' :: domain))).map .directory).or
    (((randomRow t lp domain now).map fun row => .aliasTo row.target).or
      ((t.aliases.resolve core (lp ++ '@' :: domain) registered).map fun key =>
        .aliasTo (.identity key)))

/-- The tables have the local part as a name of the key. A directory address hides the other names,
a live random alias hides a vanity, and a vanity hides a derived name. -/
inductive NameOf (key : Key) : Prop where
  | directory {r : RecipientKey} : t.directory.lookup (folded (lp ++ '@' :: domain)) = some r →
      r.ik = key → NameOf key
  | random {row : AliasRow} : t.directory.lookup (folded (lp ++ '@' :: domain)) = none →
      t.random.lookup lp = some row → row.live now = true → row.target = .identity key → NameOf key
  | vanity {name : Str} : t.directory.lookup (folded (lp ++ '@' :: domain)) = none →
      (∀ row ∈ t.random.lookup lp, row.live now = false) →
      rsplitAt (folded (lp ++ '@' :: domain)) = some (name, t.aliases.domain) →
      t.aliases.vanity.lookup name = some key → NameOf key
  | derived {name : Str} : t.directory.lookup (folded (lp ++ '@' :: domain)) = none →
      (∀ row ∈ t.random.lookup lp, row.live now = false) →
      rsplitAt (folded (lp ++ '@' :: domain)) = some (name, t.aliases.domain) →
      t.aliases.vanity.lookup name = none →
      registered.find? (keyDerivedLocalpart core · == name) = some key → NameOf key

/-- No table has the local part as a name. -/
structure Unnamed : Prop where
  /-- It is no directory address. -/
  directory : t.directory.lookup (folded (lp ++ '@' :: domain)) = none
  /-- It is no live random alias. -/
  random : ∀ row ∈ t.random.lookup lp, row.live now = false
  /-- It is neither a vanity nor the derived name of a registered key. -/
  aliases : ∀ name, rsplitAt (folded (lp ++ '@' :: domain)) = some (name, t.aliases.domain) →
    t.aliases.vanity.lookup name = none ∧ ∀ key ∈ registered, keyDerivedLocalpart core key ≠ name

end Names

def Recipient.key : Recipient → Option Key
  | .directory r => some r.ik
  | .aliasTo (.identity key) => some key
  | .aliasTo (.native ..) => none

variable {core : Core} {g : MultiDomainGateway} {t : DomainTenant} {lp domain sender rcpt : Str}
  {now : UInt64} {registered : List Key} {r : Recipient}

theorem find_ok_iff : (t.find core lp domain now registered).2 = .ok r ↔
    named core t lp domain now registered = some r := by
  unfold DomainTenant.find named randomRow
  cases t.directory.lookup (folded (lp ++ '@' :: domain)) with
  | some key => simp
  | none =>
    cases hrow : t.random.lookup lp with
    | none =>
      cases t.aliases.resolve core (lp ++ '@' :: domain) registered <;> simp [Rows.resolve, hrow]
    | some row =>
      by_cases hlv : row.live now = true
      · simp [Rows.resolve, hrow, hlv]
      have hno : Option.filter (·.live now) (some row) = none := by simp [Option.filter, hlv]
      rw [hno]
      cases t.aliases.resolve core (lp ++ '@' :: domain) registered <;>
        simp [Rows.resolve, hrow, hlv]

/-- The sender stands on a blocklist as it is spelled, or the local part is suspended. -/
def Refused (g : MultiDomainGateway) (t : DomainTenant) (sender lp : Str) : Prop :=
  folded sender ∈ g.globalBlocked ∨ folded sender ∈ t.blockedSenders ∨ lp ∈ t.suspendedUsers

theorem route_ok_iff (hsp : splitAddress rcpt = some (lp, domain))
    (ht : g.tenants.lookup domain = some t) :
    (g.route core sender rcpt now registered).2 = .ok r ↔
      ¬ Refused g t sender lp ∧ named core t lp domain now registered = some r := by
  rw [← find_ok_iff, MultiDomainGateway.route, hsp, Refused]
  dsimp only
  rw [ht]
  by_cases hgl : folded sender ∈ g.globalBlocked
  · simp [hgl]
  by_cases hblk : folded sender ∈ t.blockedSenders
  · simp [hgl, hblk]
  · by_cases hspn : lp ∈ t.suspendedUsers <;> simp [hgl, hblk, hspn]

theorem resolve_eq_some_iff {key : Key} {address : Str} :
    t.aliases.resolve core address registered = some key ↔
      ∃ name, rsplitAt (folded address) = some (name, t.aliases.domain) ∧
        (t.aliases.vanity.lookup name = some key ∨ t.aliases.vanity.lookup name = none ∧
          registered.find? (keyDerivedLocalpart core · == name) = some key) := by
  rw [AliasAllocator.resolve]
  cases rsplitAt (folded address) with
  | none => simp
  | some parts =>
    obtain ⟨name, dom⟩ := parts
    rw [Option.bind_some]
    dsimp only
    split_ifs with hdom
    · refine iff_of_false nofun ?_
      rintro ⟨name', heq, _⟩
      cases heq
      exact hdom rfl
    · simp [not_not.mp hdom, Option.or_eq_some_iff]

theorem resolve_eq_none_iff {address : Str} : t.aliases.resolve core address registered = none ↔
    ∀ name, rsplitAt (folded address) = some (name, t.aliases.domain) →
      t.aliases.vanity.lookup name = none ∧
        ∀ key ∈ registered, keyDerivedLocalpart core key ≠ name := by
  rw [AliasAllocator.resolve]
  cases rsplitAt (folded address) with
  | none => simp
  | some parts =>
    obtain ⟨name, dom⟩ := parts
    rw [Option.bind_some]
    dsimp only
    split_ifs with hdom
    · refine iff_of_true rfl fun name' heq => ?_
      cases heq
      exact absurd rfl hdom
    · simp [not_not.mp hdom]

theorem randomRow_eq_some_iff {row : AliasRow}
    (hdir : t.directory.lookup (folded (lp ++ '@' :: domain)) = none) :
    randomRow t lp domain now = some row ↔ t.random.lookup lp = some row ∧ row.live now = true := by
  rw [randomRow, hdir]
  exact Option.filter_eq_some_iff

theorem randomRow_eq_none_iff (hdir : t.directory.lookup (folded (lp ++ '@' :: domain)) = none) :
    randomRow t lp domain now = none ↔ ∀ row ∈ t.random.lookup lp, row.live now = false := by
  rw [randomRow, hdir]
  simp [Option.filter_eq_none_iff]

theorem key_aliasTo {target : AliasTarget} {key : Key} :
    (Recipient.aliasTo target).key = some key ↔ target = .identity key := by
  cases target <;> simp [Recipient.key]

theorem nameOf_directory_iff {key : Key} {r : RecipientKey}
    (hdir : t.directory.lookup (folded (lp ++ '@' :: domain)) = some r) :
    NameOf core t lp domain now registered key ↔ r.ik = key := by
  refine ⟨fun h => ?_, .directory hdir⟩
  cases h with
  | directory hr hik =>
    rw [hdir] at hr
    cases hr
    exact hik
  | random hno | vanity hno | derived hno =>
    rw [hdir] at hno
    cases hno

theorem nameOf_random_iff {key : Key} {row : AliasRow}
    (hdir : t.directory.lookup (folded (lp ++ '@' :: domain)) = none)
    (hrow : randomRow t lp domain now = some row) :
    NameOf core t lp domain now registered key ↔ row.target = .identity key := by
  obtain ⟨hlk, hlv⟩ := (randomRow_eq_some_iff hdir).mp hrow
  refine ⟨fun h => ?_, .random hdir hlk hlv⟩
  cases h with
  | directory hr _ =>
    rw [hdir] at hr
    cases hr
  | random _ hlk' _ htg =>
    rw [hlk] at hlk'
    cases hlk'
    exact htg
  | vanity _ hdead | derived _ hdead =>
    rw [hdead row hlk] at hlv
    cases hlv

theorem nameOf_resolve_iff {key : Key}
    (hdir : t.directory.lookup (folded (lp ++ '@' :: domain)) = none)
    (hrow : randomRow t lp domain now = none) : NameOf core t lp domain now registered key ↔
      t.aliases.resolve core (lp ++ '@' :: domain) registered = some key := by
  have hdead := (randomRow_eq_none_iff hdir).mp hrow
  rw [resolve_eq_some_iff]
  constructor
  · intro h
    cases h with
    | directory hr _ =>
      rw [hdir] at hr
      cases hr
    | random _ hlk hlv _ =>
      rw [hdead _ hlk] at hlv
      cases hlv
    | vanity _ _ hsp hvan => exact ⟨_, hsp, .inl hvan⟩
    | derived _ _ hsp hno hder => exact ⟨_, hsp, .inr ⟨hno, hder⟩⟩
  · rintro ⟨name, hsp, hvan | ⟨hno, hder⟩⟩
    · exact .vanity hdir hdead hsp hvan
    · exact .derived hdir hdead hsp hno hder

/-- What the first name space that has the local part says, by the tables. -/
theorem named_key_iff {key : Key} :
    (∃ found ∈ named core t lp domain now registered, found.key = some key) ↔
      NameOf core t lp domain now registered key := by
  rw [named]
  cases hdir : t.directory.lookup (folded (lp ++ '@' :: domain)) with
  | some r => simp [nameOf_directory_iff hdir, Recipient.key]
  | none =>
    rw [Option.map_none, Option.none_or]
    cases hrow : randomRow t lp domain now with
    | some row => simp [nameOf_random_iff hdir hrow, key_aliasTo]
    | none => simp [nameOf_resolve_iff hdir hrow, key_aliasTo]

theorem named_eq_none_iff : named core t lp domain now registered = none ↔
    Unnamed core t lp domain now registered := by
  rw [named, Option.or_eq_none_iff, Option.or_eq_none_iff, Option.map_eq_none_iff,
    Option.map_eq_none_iff, Option.map_eq_none_iff, resolve_eq_none_iff]
  constructor
  · rintro ⟨hdir, hrow, hres⟩
    exact ⟨hdir, (randomRow_eq_none_iff hdir).mp hrow, hres⟩
  · rintro ⟨hdir, hrow, hres⟩
    exact ⟨hdir, (randomRow_eq_none_iff hdir).mpr hrow, hres⟩

/-- The directory key of a suspended user. -/
def SuspendedKey (t : DomainTenant) (domain : Str) (key : Key) : Prop :=
  ∃ user ∈ t.suspendedUsers, ∃ r, t.directory.lookup (user ++ '@' :: domain) = some r ∧ r.ik = key

/-- A recipient that is the directory key of a suspended user. -/
def Suspended (t : DomainTenant) (domain : Str) (found : Recipient) : Prop :=
  ∃ key ∈ found.key, SuspendedKey t domain key

/-- **No suspended user is reached** by a call exactly if the policy refuses it or the tables have
the local part as no name of such a user's key. -/
theorem suspended_unreached_iff (core : Core) (g : MultiDomainGateway) (t : DomainTenant)
    (sender rcpt lp domain : Str) (now : UInt64) (registered : List Key)
    (hsplit : splitAddress rcpt = some (lp, domain)) (ht : g.tenants.lookup domain = some t) :
    (∀ found, (g.route core sender rcpt now registered).2 = .ok found →
      ¬ Suspended t domain found) ↔
      Refused g t sender lp ∨
        ∀ key, NameOf core t lp domain now registered key → ¬ SuspendedKey t domain key := by
  simp only [route_ok_iff hsplit ht, ← named_key_iff]
  by_cases href : Refused g t sender lp
  · simp [href]
  · simp only [href, not_false_eq_true, true_and, false_or]
    constructor
    · rintro hno key ⟨found, hf, hkey⟩ hsus
      exact hno found hf ⟨key, hkey, hsus⟩
    · rintro hno found hf ⟨key, hkey, hsus⟩
      exact hno key ⟨found, hf, hkey⟩ hsus

def sampleCore : Core := ⟨fun _ _ _ => false, id⟩

def sampleKey : RecipientKey := ⟨List.replicate 10 0, []⟩

def run (acts : List Action) : MultiDomainGateway := acts.foldl (step sampleCore) ⟨∅, ∅⟩

theorem reachable_foldl (acts : List Action)
    (h : (gateway sampleCore).Reachable (fun _ _ => True) g) :
    (gateway sampleCore).Reachable (fun _ _ => True) (acts.foldl (step sampleCore) g) := by
  induction acts generalizing g with
  | nil => exact h
  | cons a acts ih => exact ih (.tail h trivial rfl)

theorem run_reachable (acts : List Action) :
    (gateway sampleCore).Reachable (fun _ _ => True) (run acts) := reachable_foldl acts (.init rfl)

def served : List Action := [.addDomain ['d'], .addRecipient "u@d".toList sampleKey]

theorem registered_served (hsp : splitAddress rcpt = some (lp, ['d']))
    (ht : (run acts).tenants.lookup ['d'] = some t)
    (hdir : t.directory = Finmap.insert "u@d".toList sampleKey ∅) :
    (run acts).Registered rcpt [sampleKey.ik] := by
  intro lp' domain t' hsp' ht' key
  obtain ⟨rfl, rfl⟩ : lp = lp' ∧ ['d'] = domain := by simpa [hsp] using hsp'
  obtain rfl : t = t' := by simpa [ht] using ht'
  rw [List.mem_singleton, hdir]
  constructor
  · rintro rfl
    exact ⟨_, _, Finmap.lookup_insert _, rfl⟩
  rintro ⟨email, r, hr, rfl⟩
  by_cases hem : email = "u@d".toList
  · rw [hem, Finmap.lookup_insert] at hr
    injection hr with hr
    rw [hr]
  · rw [Finmap.lookup_insert_of_ne _ hem] at hr
    simp at hr

def servedTenant : DomainTenant :=
  ⟨['d'], Finmap.insert "u@d".toList sampleKey ∅, ⟨['d'], ∅, [], {['u']}⟩, ∅, ∅, ∅⟩

def suspended : List Action := served ++ [.suspendUser ['d'] ['u']]

def suspendedTenant : DomainTenant := { servedTenant with suspendedUsers := {['u']} }

theorem suspended_user_refused :
    ['u'] ∈ suspendedTenant.suspendedUsers ∧ ∀ found,
      ((run suspended).route sampleCore "s@x".toList "u@d".toList 0 [sampleKey.ik]).2 = .ok found →
        ¬ Suspended suspendedTenant ['d'] found := by
  have hmem : ['u'] ∈ suspendedTenant.suspendedUsers := Finset.mem_singleton_self _
  exact ⟨hmem, (suspended_unreached_iff sampleCore (run suspended) suspendedTenant _ _ ['u'] ['d']
    0 _ rfl rfl).mpr (.inl (.inr (.inr hmem)))⟩

theorem suspended_reached :
    ∃ g t found, (gateway sampleCore).Reachable (fun _ _ => True) g ∧
      g.tenants.lookup ['d'] = some t ∧
      g.Registered "kaaaaaaaaaaaaaaaa@d".toList [sampleKey.ik] ∧
      (g.route sampleCore "s@x".toList "kaaaaaaaaaaaaaaaa@d".toList 0 [sampleKey.ik]).2
        = .ok found ∧
      Suspended t ['d'] found := by
  refine ⟨run suspended, suspendedTenant, .aliasTo (.identity sampleKey.ik), run_reachable _, rfl,
    ?_, ?_, ?_⟩
  · exact registered_served rfl rfl rfl
  · rfl
  · exact ⟨sampleKey.ik, rfl, ['u'], Finset.mem_singleton_self _, sampleKey, rfl, rfl⟩

def bare (s : Str) : Str := folded (trimBrackets (trim s))

/-- What a route has to respect: the blocklists, and the correspondent of a random alias. -/
def Respected (g : MultiDomainGateway) (t : DomainTenant) (sender lp domain : Str) (now : UInt64) :
    Prop :=
  (∀ b ∈ g.globalBlocked ∪ t.blockedSenders, bare b ≠ bare sender) ∧
    ∀ row ∈ randomRow t lp domain now, ∀ c ∈ row.correspondent, bare c = bare sender

/-- The sender is listed in another spelling. -/
def Respelled (g : MultiDomainGateway) (t : DomainTenant) (sender : Str) : Prop :=
  ∃ b ∈ g.globalBlocked ∪ t.blockedSenders, b ≠ folded sender ∧ bare b = bare sender

/-- The local part is a random alias for someone else. -/
def OutOfScope (t : DomainTenant) (sender lp domain : Str) (now : UInt64) : Prop :=
  ∃ row ∈ randomRow t lp domain now, ∃ c ∈ row.correspondent, bare c ≠ bare sender

theorem respected_iff (h : ¬ Refused g t sender lp) :
    Respected g t sender lp domain now ↔
      ¬ Respelled g t sender ∧ ¬ OutOfScope t sender lp domain now := by
  have hnot : folded sender ∉ g.globalBlocked ∪ t.blockedSenders := by
    rw [Finset.mem_union]
    rintro (hg | ht)
    · exact h (.inl hg)
    · exact h (.inr (.inl ht))
  have hls : (∀ b ∈ g.globalBlocked ∪ t.blockedSenders, bare b ≠ bare sender) ↔
      ¬ Respelled g t sender := by
    constructor
    · rintro hall ⟨b, hb, -, heq⟩
      exact hall b hb heq
    intro hno b hb heq
    refine hno ⟨b, hb, ?_, heq⟩
    rintro rfl
    exact hnot hb
  rw [Respected, hls, OutOfScope]
  push Not
  rfl

/-- **The routing policy holds** of a call exactly if it is refused for what it is spelled like,
leads nowhere, or the sender is neither listed in another spelling nor out of scope. -/
theorem policy_kept_iff (core : Core) (g : MultiDomainGateway) (t : DomainTenant)
    (sender rcpt lp domain : Str) (now : UInt64) (registered : List Key)
    (hsplit : splitAddress rcpt = some (lp, domain)) (ht : g.tenants.lookup domain = some t) :
    (∀ found, (g.route core sender rcpt now registered).2 = .ok found →
      Respected g t sender lp domain now) ↔
      Refused g t sender lp ∨ Unnamed core t lp domain now registered ∨
        (¬ Respelled g t sender ∧ ¬ OutOfScope t sender lp domain now) := by
  simp only [route_ok_iff hsplit ht, ← named_eq_none_iff]
  by_cases href : Refused g t sender lp
  · simp [href]
  · rw [respected_iff href]
    cases named core t lp domain now registered <;> simp [href]

def blocked : List Action := served ++ [.blockSenderGlobal "s@x".toList]

theorem blocked_sender_refused :
    Refused (run blocked) servedTenant "S@X".toList ['u'] ∧ ∀ found,
      ((run blocked).route sampleCore "S@X".toList "u@d".toList 0 [sampleKey.ik]).2 = .ok found →
        Respected (run blocked) servedTenant "S@X".toList ['u'] ['d'] 0 := by
  have href : Refused (run blocked) servedTenant "S@X".toList ['u'] :=
    .inl (by decide)
  exact ⟨href, (policy_kept_iff sampleCore _ servedTenant _ _ ['u'] ['d'] 0 _ rfl rfl).mpr
    (.inl href)⟩

theorem policy_broken :
    (∃ g t found, (gateway sampleCore).Reachable (fun _ _ => True) g ∧
      g.tenants.lookup ['d'] = some t ∧ g.Registered "u@d".toList [sampleKey.ik] ∧
      (g.route sampleCore "<s@x>".toList "u@d".toList 0 [sampleKey.ik]).2 = .ok found ∧
      "s@x".toList ∈ t.blockedSenders) ∧
    ∃ g t found row, (gateway sampleCore).Reachable (fun _ _ => True) g ∧
      g.tenants.lookup ['d'] = some t ∧
      g.Registered (List.replicate 26 'a' ++ "@d".toList) [sampleKey.ik] ∧
      (g.route sampleCore "s@x".toList (List.replicate 26 'a' ++ "@d".toList) 0
        [sampleKey.ik]).2 = .ok found ∧
      randomRow t (List.replicate 26 'a') ['d'] 0 = some row ∧
      row.correspondent = some "c@x".toList := by
  refine ⟨⟨run (served ++ [.blockSender ['d'] "s@x".toList]),
    { servedTenant with blockedSenders := {"s@x".toList} }, .directory sampleKey, run_reachable _,
    rfl, registered_served rfl rfl rfl, rfl, by simp⟩, ?_⟩
  let rows : Rows := Finmap.insert (List.replicate 26 'a')
    ⟨.identity sampleKey.ik, some "c@x".toList, none, false, false⟩ ∅
  refine ⟨run (served ++ [.mintRandomAlias ['d'] (Vector.replicate 16 0) (.identity sampleKey.ik)
    (some "c@x".toList) none false 0]), { servedTenant with random := rows },
    .aliasTo (.identity sampleKey.ik), _, run_reachable _, rfl, registered_served rfl rfl rfl, rfl,
    rfl, rfl⟩

end VulosRelay.Gateway.MultiDomain
