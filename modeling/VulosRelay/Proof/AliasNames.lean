import VulosRelay.Gateway.MultiDomain

/-!
# The names that an allocator gives out

A vanity stands in two indexes, by name and by key, and each call changes both (`Inv`). What
`alias_for` presents is in lower case and has no white space, so `resolve` reads the name back
as it is; a vanity is found in the first index, and no vanity has the shape of a derived name,
so a derived name is looked for among the registered keys.
-/

namespace VulosRelay.Gateway.MultiDomain

open List Finmap Authz

/-- A character that `trim().to_ascii_lowercase()` leaves. -/
def Settled (c : Char) : Prop := isWhitespace c = false ∧ lowerChar c = c

theorem folded_of_settled (h : ∀ c ∈ s, Settled c) : folded s = s := by
  rw [folded, trim_word fun c hc => (h c hc).1, toAsciiLowercase]
  exact (map_congr_left fun c hc => (h c hc).2).trans (map_id s)

theorem lowerChar_idem : lowerChar (lowerChar c) = lowerChar c := by
  unfold lowerChar
  split
  · rename_i hc
    have hlow : 65 ≤ c.toNat := hc.1
    have hhg : c.toNat ≤ 90 := hc.2
    have hval : (c.toNat + 32).isValidChar := .inl (by omega)
    have hnat : (Char.ofNat (c.toNat + 32)).toNat = c.toNat + 32 := by
      rw [Char.ofNat, dif_pos hval]
      rfl
    refine if_neg fun hd => ?_
    have hd : (Char.ofNat (c.toNat + 32)).toNat ≤ 90 := hd.2
    omega
  · rfl

theorem settled_of_solid (h : ∀ c ∈ toAsciiLowercase s, isWhitespace c = false) :
    ∀ c ∈ toAsciiLowercase s, Settled c := by
  intro c hc
  refine ⟨h c hc, ?_⟩
  obtain ⟨d, -, rfl⟩ := mem_map.mp hc
  exact lowerChar_idem

theorem solid_of_alphanumeric (h : isAlphanumeric c = true) :
    isWhitespace c = false ∧ c ≠ '.' ∧ c ≠ '@' := by
  have hrn : (48 ≤ c.toNat ∧ c.toNat ≤ 57) ∨ (97 ≤ c.toNat ∧ c.toNat ≤ 122) ∨
      (65 ≤ c.toNat ∧ c.toNat ≤ 90) := by
    simpa [isAlphanumeric, Char.le_def, UInt32.le_iff_toNat_le, or_assoc] using h
  refine ⟨?_, ?_, ?_⟩
  · simp only [isWhitespace, Bool.or_eq_false_iff, decide_eq_false_iff_not, beq_eq_false_iff_ne]
    omega
  · rintro rfl
    cases h
  · rintro rfl
    cases h

theorem base32Char_mem {v : UInt32} : base32Char v ∈ base32Alphabet := by
  have hlt : (v &&& 31).toNat < base32Alphabet.length := by
    rw [UInt32.toNat_and]
    exact lt_of_le_of_lt Nat.and_le_right (by decide)
  rw [base32Char, getD, getElem?_eq_getElem hlt]
  exact getElem_mem hlt

theorem base32Drain_spec (bits : UInt32) : ∀ n, (base32Drain bits n).2 = n % 5 ∧
    (base32Drain bits n).1.length = n / 5 ∧ ∀ c ∈ (base32Drain bits n).1, c ∈ base32Alphabet
  | n + 5 => by
    obtain ⟨hrs, hlen, hmem⟩ := base32Drain_spec bits n
    rw [base32Drain]
    refine ⟨by rw [hrs]; omega, by rw [length_cons, hlen]; omega, ?_⟩
    rw [forall_mem_cons]
    exact ⟨base32Char_mem, hmem⟩
  | 0 | 1 | 2 | 3 | 4 => ⟨rfl, rfl, nofun⟩

theorem base32From_spec : ∀ (input : List UInt8) (bits : UInt32) {n : Nat}, n < 5 →
    (base32From bits n input).length = (n + 8 * input.length + 4) / 5 ∧
      ∀ c ∈ base32From bits n input, c ∈ base32Alphabet
  | [], bits, n, hn => by
    rw [base32From]
    split
    · refine ⟨?_, ?_⟩
      · rw [length_singleton, length_nil]
        omega
      · rw [forall_mem_singleton]
        exact base32Char_mem
    · exact ⟨by rw [length_nil, length_nil]; omega, nofun⟩
  | b :: rest, bits, n, hn => by
    obtain ⟨hlf, hlen, hmem⟩ := base32Drain_spec (bits <<< 8 ||| b.toUInt32) (n + 8)
    have hrs := base32From_spec rest (bits <<< 8 ||| b.toUInt32)
      (Nat.mod_lt (n + 8) (by decide : 0 < 5))
    rw [base32From, hlf, length_append, length_cons, hlen, hrs.1]
    refine ⟨by omega, fun c hc => ?_⟩
    rcases mem_append.mp hc with hc | hc
    · exact hmem c hc
    · exact hrs.2 c hc

theorem alphabet_settled : ∀ c ∈ base32Alphabet, Settled c ∧ c.utf8Size = 1 := by
  unfold Settled
  exact all_iff_forall_prop.mp (by decide)

theorem byteLen_of_ascii (h : ∀ c ∈ s, c.utf8Size = 1) : byteLen s = s.length := by
  rw [byteLen, map_congr_left h, map_const', sum_replicate_nat, Nat.mul_one]

variable {core : Core} {key : Key} {a : AliasAllocator}

theorem isKeyDerivedForm_derived (h : 10 ≤ (core.digest key).length) :
    isKeyDerivedForm (keyDerivedLocalpart core key) = true := by
  obtain ⟨hlen, hmem⟩ := base32From_spec ((core.digest key).take 10) 0 (by decide : 0 < 5)
  have hby := byteLen_of_ascii fun c hc => (alphabet_settled c (hmem c hc)).2
  rw [length_take, Nat.min_eq_left h] at hlen
  rw [keyDerivedLocalpart, isKeyDerivedForm, Bool.and_eq_true, all_eq_true, base32Lower, hby, hlen]
  exact ⟨rfl, fun c hc => contains_iff_mem.mpr (hmem c hc)⟩

theorem settled_derived : ∀ c ∈ keyDerivedLocalpart core key, Settled c := by
  rw [keyDerivedLocalpart, forall_mem_cons]
  refine ⟨(alphabet_settled 'k' (by decide)).1, fun c hc => ?_⟩
  exact (alphabet_settled c ((base32From_spec _ _ (by decide)).2 c hc)).1

theorem flatten_splitWhen (p : Char → Bool) : ∀ s, (splitWhen p s).flatten = s.filter (!p ·)
  | [] => rfl
  | c :: s => by
    rw [splitWhen]
    split
    · rename_i hc
      rw [flatten_cons, nil_append, flatten_splitWhen p s, filter_cons_of_neg (by simp [hc])]
    · rename_i hc
      rw [filter_cons_of_pos (by simp [hc]), ← flatten_splitWhen p s]
      cases splitWhen p s with
      | nil | cons part parts => rfl

theorem settled_domain (h : isValidDnsDomain (folded raw) = true) :
    ∀ c ∈ folded raw, Settled c ∧ c ≠ '@' := by
  have hsl : ∀ c ∈ folded raw, isWhitespace c = false ∧ c ≠ '@' := by
    intro c hc
    by_cases hdot : c = '.'
    · rw [hdot]
      decide
    have hpr : c ∈ (splitAt '.' (folded raw)).flatten := by
      rw [splitAt, flatten_splitWhen]
      exact mem_filter.mpr ⟨hc, by simpa using hdot⟩
    obtain ⟨label, hlb, hmem⟩ := mem_flatten.mp hpr
    rw [isValidDnsDomain, Bool.and_eq_true, all_eq_true] at h
    have hch := h.2 label hlb
    rw [Bool.and_eq_true, all_eq_true] at hch
    rcases Bool.or_eq_true_iff.mp (hch.2 c hmem) with hal | hds
    · exact ⟨(solid_of_alphanumeric hal).1, (solid_of_alphanumeric hal).2.2⟩
    · rw [beq_iff_eq.mp hds]
      decide
  intro c hc
  exact ⟨settled_of_solid (fun d hd => (hsl d hd).1) c hc, (hsl c hc).2⟩

namespace AliasAllocator

/-- A name that may be held. -/
structure Allowed (a : AliasAllocator) (lp : Str) : Prop where
  unreserved : lp ∉ a.reserved
  undotted : '.' ∉ lp
  unstarted : ¬ reservedStart <+: lp
  underived : isKeyDerivedForm lp = false
  settled : ∀ c ∈ lp, Settled c

structure Inv (a : AliasAllocator) : Prop where
  inverse : ∀ lp key, a.vanity.lookup lp = some key ↔ (key, lp) ∈ a.reverse
  once : (a.reverse.map Prod.fst).Nodup
  allowed : ∀ lp ∈ a.vanity, a.Allowed lp
  domain : ∀ c ∈ a.domain, Settled c ∧ c ≠ '@'

theorem Inv.name_eq (h : a.Inv) (hlp : (key, n) ∈ a.reverse) (hlp' : (key, n') ∈ a.reverse) :
    n = n' := by
  have heq := inj_on_of_nodup_map h.once hlp hlp' rfl
  exact (Prod.mk.inj heq).2

theorem inv_init (h : forDomain raw = .ok a) : a.Inv := by
  rw [forDomain] at h
  split at h
  · rename_i hval
    cases h
    exact ⟨fun lp key => by simp, nodup_nil, fun lp hlp => absurd hlp (notMem_empty),
      settled_domain hval⟩
  · cases h

theorem inv_reserveLocalpart (h : a.Inv) :
    (a.reserveLocalpart localPart).Inv where
  inverse lp key := by
    rw [reserveLocalpart, mem_filter, ← h.inverse]
    by_cases hlp : lp = folded localPart
    · rw [hlp, lookup_erase]
      simp
    · rw [lookup_erase_ne hlp]
      simp [hlp]
  once := h.once.sublist (filter_sublist.map _)
  allowed lp hlp := by
    obtain ⟨hne, hlp⟩ := mem_erase.mp hlp
    refine { h.allowed lp hlp with unreserved := ?_ }
    rw [reserveLocalpart, Finset.mem_insert]
    rintro (heq | hmem)
    · exact hne heq
    · exact (h.allowed lp hlp).unreserved hmem
  domain := h.domain

theorem mem_eraseP {l : List (Key × Str)} (h : (l.map Prod.fst).Nodup) {e : Key × Str} :
    e ∈ l.eraseP (·.1 == key) ↔ e ∈ l ∧ e.1 ≠ key := by
  induction l with
  | nil => simp
  | cons x l ih =>
    rw [map_cons, nodup_cons] at h
    have hx : ∀ y ∈ l, y.1 ≠ x.1 := fun y hy heq => h.1 (heq ▸ mem_map_of_mem hy)
    grind [ih h.2]

theorem mem_release (h : a.Inv) {e : Key × Str} :
    e ∈ (a.release key).1.reverse ↔ e ∈ a.reverse ∧ e.1 ≠ key := by
  rw [release]
  split
  · rename_i hno
    refine ⟨fun he => ⟨he, ?_⟩, And.left⟩
    simpa using find?_eq_none.mp hno e he
  · exact mem_eraseP h.once

theorem inv_release (h : a.Inv) {key : Key} : (a.release key).1.Inv := by
  have hmem := fun e => @mem_release key a h e
  rw [release] at hmem ⊢
  split
  · exact h
  · rename_i e hfn
    rw [hfn] at hmem
    have he : e ∈ a.reverse := mem_of_find?_eq_some hfn
    have hkey : e.1 = key := by simpa using find?_some hfn
    refine ⟨fun lp k => ?_, h.once.sublist (eraseP_sublist.map _), fun lp hlp => ?_, h.domain⟩
    · rw [hmem, ← h.inverse]
      by_cases hlp : lp = e.2
      · rw [hlp, lookup_erase, (h.inverse e.2 e.1).mpr he]
        simp [hkey, eq_comm]
      · rw [lookup_erase_ne hlp]
        refine ⟨fun hlk => ⟨hlk, fun heq => hlp ?_⟩, And.left⟩
        obtain rfl : k = e.1 := heq.trans hkey.symm
        exact h.name_eq ((h.inverse lp e.1).mp hlk) he
    · exact { h.allowed lp (mem_erase.mp hlp).2 with }

theorem allowed_of_checkVanity (h : a.checkVanity localPart = .ok n) : a.Allowed n := by
  rw [checkVanity] at h
  split_ifs at h with hdot hch hsh hrsv
  cases h
  rw [not_or] at hsh
  have hpl : ∀ c ∈ toAsciiLowercase localPart, isWhitespace c = false ∧ c ≠ '.' := by
    intro c hc
    rw [Bool.not_eq_false, isValidVanityCharset, Bool.and_eq_true, all_eq_true] at hch
    have hc := hch.2 c hc
    simp only [Bool.or_eq_true, beq_iff_eq] at hc
    rcases hc with ((hal | rfl) | rfl) | rfl
    · exact ⟨(solid_of_alphanumeric hal).1, (solid_of_alphanumeric hal).2.1⟩
    all_goals decide
  exact ⟨hrsv, fun hmem => (hpl '.' hmem).2 rfl, hsh.1, by simpa using hsh.2,
    settled_of_solid fun c hc => (hpl c hc).1⟩

theorem Allowed.release (h : a.Allowed n) (key : Key) : (a.release key).1.Allowed n := by
  rw [AliasAllocator.release]
  split
  · exact h
  · exact { h with }

theorem inv_hold (h : a.Inv) (hal : a.Allowed n) (hnew : n ∉ a.vanity)
    (hkey : ∀ e ∈ a.reverse, e.1 ≠ key) :
    { a with vanity := a.vanity.insert n key, reverse := a.reverse ++ [(key, n)] }.Inv where
  inverse n' k := by
    rw [mem_append, List.mem_singleton, ← h.inverse, Prod.mk.injEq]
    by_cases hlp : n' = n
    · rw [hlp, lookup_insert, lookup_eq_none.mpr hnew]
      simp [eq_comm]
    · rw [lookup_insert_of_ne _ hlp]
      simp [hlp]
  once := by
    rw [map_append, nodup_append]
    refine ⟨h.once, nodup_singleton _, ?_⟩
    simpa using hkey
  allowed n' hlp' := by
    obtain rfl | hlp' := mem_insert.mp hlp'
    · exact { hal with }
    · exact { h.allowed n' hlp' with }
  domain := h.domain

theorem inv_allocateVanity (h : a.Inv) (hok : a.allocateVanity key localPart = .ok (a', addr)) :
    a'.Inv := by
  rw [allocateVanity] at hok
  split at hok
  · cases hok
  · rename_i lp hchk
    have hal := allowed_of_checkVanity hchk
    split at hok
    · split at hok
      · cases hok
        exact h
      · cases hok
    · rename_i hno
      cases hok
      refine inv_hold (inv_release h) (hal.release key) ?_ fun e he =>
        ((mem_release h).mp he).2
      intro hmem
      obtain ⟨k, hk⟩ := FinMap.mem_iff_lookup.mp hmem
      have hhl := (mem_release h).mp (((inv_release h).inverse lp k).mp hk)
      rw [← h.inverse, hno] at hhl
      cases hhl.1

theorem inv_call (h : a.Inv) : (a.call c).Inv := by
  cases c with
  | reserveLocalpart localPart => exact inv_reserveLocalpart h
  | reserveDirectoryAddress email =>
    rw [call, reserveDirectoryAddress]
    split
    · split
      · exact inv_reserveLocalpart h
      · exact h
    · exact h
  | allocateVanity key localPart =>
    rw [call]
    split
    · rename_i hok
      exact inv_allocateVanity h hok
    · exact h
  | releaseVanity key => exact inv_release h

theorem resolve_qualify (h : a.Inv) {lp : Str} (hlp : ∀ c ∈ lp, Settled c) {keys : List Key} :
    a.resolve core (a.qualify lp) keys =
      (a.vanity.lookup lp).or (keys.find? (keyDerivedLocalpart core · == lp)) := by
  have hset : ∀ c ∈ a.qualify lp, Settled c := by
    intro c hc
    rcases mem_append.mp hc with hc | hc
    · exact hlp c hc
    · rcases mem_cons.mp hc with rfl | hc
      · unfold Settled
        decide
      · exact (h.domain c hc).1
  have hsp : rsplitAt (lp ++ '@' :: a.domain) = some (lp, a.domain) := by
    have hat : '@' ∉ a.domain.reverse := fun hmem =>
      (h.domain '@' (mem_reverse.mp hmem)).2 rfl
    rw [rsplitAt, reverse_append, reverse_cons, append_assoc, singleton_append,
      splitOnce_append hat]
    simp
  rw [resolve, folded_of_settled hset, qualify, hsp]
  exact if_neg fun hne => hne rfl

theorem resolve_aliasFor (h : a.Inv) (hdig : ∀ key, 10 ≤ (core.digest key).length)
    {keys : List Key} (hinj : ∀ k ∈ keys, ∀ k' ∈ keys,
      keyDerivedLocalpart core k = keyDerivedLocalpart core k' → k = k') (hkey : key ∈ keys) :
    a.resolve core (a.aliasFor core key) keys = some key := by
  rw [aliasFor]
  cases hfn : a.reverse.find? (·.1 == key) with
  | some e =>
    have hlk : a.vanity.lookup e.2 = some key := by
      obtain rfl : e.1 = key := by simpa using find?_some hfn
      exact (h.inverse e.2 e.1).mpr (mem_of_find?_eq_some hfn)
    have hset := (h.allowed e.2 (FinMap.mem_of_lookup hlk)).settled
    rw [Option.map_some, Option.getD_some, resolve_qualify h hset, hlk, Option.some_or]
  | none =>
    -- a derived name is no vanity, whoever holds one
    have hfr : a.vanity.lookup (keyDerivedLocalpart core key) = none := by
      refine lookup_eq_none.mpr fun hmem => ?_
      have hsh := isKeyDerivedForm_derived (hdig key)
      rw [(h.allowed _ hmem).underived] at hsh
      cases hsh
    rw [Option.map_none, Option.getD_none, resolve_qualify h settled_derived, hfr, Option.none_or]
    cases hk : keys.find? (keyDerivedLocalpart core · == keyDerivedLocalpart core key) with
    | none => simpa using find?_eq_none.mp hk key hkey
    | some k =>
      have heq : keyDerivedLocalpart core k = keyDerivedLocalpart core key := by
        simpa using find?_some hk
      rw [hinj k (mem_of_find?_eq_some hk) key hkey heq]

/-- **The alias name space keeps its integrity.** -/
theorem alias_names_kept (raw : Str) (a : AliasAllocator)
    (h : (allocator raw).Reachable (fun _ _ => True) a) :
    ((∀ lp key, a.vanity.lookup lp = some key ↔ (key, lp) ∈ a.reverse) ∧
      (a.reverse.map Prod.fst).Nodup ∧
      ∀ lp ∈ a.vanity, lp ∉ a.reserved ∧ '.' ∉ lp ∧ ¬ reservedStart <+: lp ∧
        isKeyDerivedForm lp = false) ∧
    ∀ (core : Core) (keys : List Key), (∀ key, (core.digest key).length = 32) →
      (∀ k ∈ keys, ∀ k' ∈ keys, keyDerivedLocalpart core k = keyDerivedLocalpart core k' → k = k') →
      ∀ key ∈ keys, a.resolve core (a.aliasFor core key) keys = some key := by
  have hinv : a.Inv := by
    refine h.invariant (P := Inv) (fun b hb => inv_init hb) fun b c b' hb _ hst => ?_
    cases hst
    exact inv_call hb
  refine ⟨⟨hinv.inverse, hinv.once, fun lp hlp => ?_⟩, ?_⟩
  · obtain ⟨hrsv, hdot, hstr, hfr, -⟩ := hinv.allowed lp hlp
    exact ⟨hrsv, hdot, hstr, hfr⟩
  · intro core keys hdig hinj key hkey
    exact resolve_aliasFor hinv (fun key => by rw [hdig]; decide) hinj hkey

def sampleDigest : Core := ⟨fun _ _ _ => false, fun key => replicate 32 (key.headD 0)⟩

def oneVanity : AliasAllocator := call ⟨['d'], ∅, [], ∅⟩ (.allocateVanity [1] "Me".toList)

/-- Of two keys one has a vanity name and the other the name derived from it. -/
theorem oneVanity_read_back :
    oneVanity.aliasFor sampleDigest [1] = "me@d".toList ∧
      oneVanity.aliasFor sampleDigest [2] = keyDerivedLocalpart sampleDigest [2] ++ "@d".toList ∧
      ∀ key ∈ [[1], [2]],
        oneVanity.resolve sampleDigest (oneVanity.aliasFor sampleDigest key) [[1], [2]]
          = some key :=
  ⟨by decide, by decide, (alias_names_kept ['d'] oneVanity (.tail (.init rfl) trivial rfl)).2
    sampleDigest [[1], [2]] (fun _ => length_replicate) (by decide)⟩

end AliasAllocator

end VulosRelay.Gateway.MultiDomain
