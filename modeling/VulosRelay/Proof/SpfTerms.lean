import VulosRelay.Gateway.Spf

/-!
# The terms of an SPF record

`parse_record` takes every term that has a `=` for a modifier, before it looks at qualifiers
and names. A mechanism whose argument has one is therefore dropped without a trace.
-/

namespace VulosRelay.Gateway.Spf

open List

/-- A modifier of RFC 7208: a name, `=` and whatever follows. -/
def isModifier (term : Str) : Bool :=
  match splitOnce '=' term with
  | some (c :: name, _) =>
    c.isAlpha && name.all fun c => c.isAlphanum || c == '-' || c == '_' || c == '.'
  | _ => false

def termsOf (record : Str) : List Str := (splitWhitespace record).tail

/-- The pair that a term stands for. -/
def Reads (ips : IpTexts) (term : Str) (pair : Qualifier × Mechanism) : Prop :=
  pair.1 = (parseQualifier term).1 ∧ parseMechanism ips (parseQualifier term).2 = some pair.2

/-- Every term but the modifiers gives its pair, in their order. -/
def NoneDropped (ips : IpTexts) (record : Str) (parsed : ParsedRecord) : Prop :=
  Forall₂ (Reads ips) ((termsOf record).filter (!isModifier ·)) parsed.mechanisms

theorem isModifier_eq_false (h : '=' ∉ term) : isModifier term = false := by
  rw [isModifier, splitOnce_none h]

theorem parseTerm_cases (h : parseTerm ips record term = some record') :
    '=' ∈ term ∧ record'.mechanisms = record.mechanisms
      ∨ '=' ∉ term ∧ ∃ pair, Reads ips term pair
        ∧ record'.mechanisms = record.mechanisms ++ [pair] := by
  by_cases hmem : '=' ∈ term
  · obtain ⟨name, value, rfl, hnm⟩ := eq_append_cons_of_mem hmem
    rw [parseTerm, splitOnce_append hnm] at h
    dsimp only at h
    refine .inl ⟨hmem, ?_⟩
    split at h
    · split at h
      · cases h
      · exact (congrArg _ (Option.some.inj h)).symm
    · exact (congrArg _ (Option.some.inj h)).symm
  · rw [parseTerm, splitOnce_none hmem] at h
    obtain ⟨m, hm, rfl⟩ := Option.map_eq_some_iff.mp h
    exact .inr ⟨hmem, _, ⟨rfl, hm⟩, rfl⟩

theorem mechanisms_of_terms {terms : List Str} {record parsed : ParsedRecord}
    (h : terms.foldlM (parseTerm ips) record = some parsed) :
    ∃ pairs, parsed.mechanisms = record.mechanisms ++ pairs
      ∧ Forall₂ (Reads ips) (terms.filter ('=' ∉ ·)) pairs := by
  induction terms generalizing record with
  | nil =>
    cases h
    exact ⟨[], (append_nil _).symm, .nil⟩
  | cons term terms ih =>
    rw [foldlM_cons] at h
    obtain ⟨record', htr, hrs⟩ := Option.bind_eq_some_iff.mp h
    obtain ⟨pairs, hpr, hrd⟩ := ih hrs
    rcases parseTerm_cases htr with ⟨hmem, heq⟩ | ⟨hmem, pair, hpra, heq⟩
    · refine ⟨pairs, by rw [hpr, heq], ?_⟩
      rw [filter_cons_of_neg (by simp [hmem])]
      exact hrd
    · refine ⟨pair :: pairs, by rw [hpr, heq, append_assoc, singleton_append], ?_⟩
      rw [filter_cons_of_pos (by simp [hmem])]
      exact .cons hpra hrd

theorem mechanisms_of_record (h : parseRecord ips record = some parsed) :
    Forall₂ (Reads ips) ((termsOf record).filter ('=' ∉ ·)) parsed.mechanisms := by
  rw [parseRecord] at h
  rw [termsOf]
  cases hsp : splitWhitespace record with
  | nil => rw [hsp] at h; cases h
  | cons version terms =>
    rw [hsp] at h
    dsimp only at h
    split at h
    · cases h
    obtain ⟨pairs, hpr, hrd⟩ := mechanisms_of_terms h
    rw [hpr]
    exact hrd

/--
**When no term is dropped.** The parser gives each term its pair exactly if every term that
has a `=` is a modifier.
-/
theorem terms_kept_iff (ips : IpTexts) (record : Str) (parsed : ParsedRecord)
    (h : parseRecord ips record = some parsed) :
    NoneDropped ips record parsed ↔ ∀ term ∈ termsOf record, '=' ∈ term → isModifier term := by
  have hrd := mechanisms_of_record h
  constructor
  · intro hno term hmem heq
    -- the parser's pairs are those of the terms without `=`, and there are as many as terms kept
    have hsub : (termsOf record).filter ('=' ∉ ·)
        = ((termsOf record).filter (!isModifier ·)).filter ('=' ∉ ·) := by
      rw [filter_filter]
      refine filter_congr fun t _ => ?_
      by_cases ht : '=' ∈ t
      · simp [ht]
      · simp [ht, isModifier_eq_false ht]
    have hlen := hrd.length_eq.trans hno.length_eq.symm
    rw [hsub, length_filter_eq_length_iff] at hlen
    by_contra hmod
    have hkp := hlen term (mem_filter.mpr ⟨hmem, by rw [eq_false_of_ne_true hmod]; rfl⟩)
    exact of_decide_eq_true hkp heq
  · intro hall
    have hsm : (termsOf record).filter (!isModifier ·) = (termsOf record).filter ('=' ∉ ·) := by
      refine filter_congr fun t ht => ?_
      by_cases hmem : '=' ∈ t
      · simp [hmem, hall t ht hmem]
      · simp [hmem, isModifier_eq_false hmem]
    rw [NoneDropped, hsm]
    exact hrd

def noIps : IpTexts := ⟨fun _ => none, fun _ => none⟩

theorem plain_terms_kept :
    NoneDropped noIps "v=spf1 mx exp=e.x -all".toList
      ⟨[(.pass, .mx none 32 128), (.fail, .all)], none⟩ :=
  (terms_kept_iff noIps _ _ rfl).mpr (by decide)

/-- The term that should have failed some hosts is gone; all of them are soft failures. -/
theorem exists_dropped :
    parseRecord noIps "v=spf1 -exists:a=b.x ~all".toList = some ⟨[(.softFail, .all)], none⟩
      ∧ isModifier "-exists:a=b.x".toList = false
      ∧ ¬ NoneDropped noIps "v=spf1 -exists:a=b.x ~all".toList ⟨[(.softFail, .all)], none⟩ := by
  refine ⟨rfl, by decide, fun h => ?_⟩
  have hlen := h.length_eq
  revert hlen
  decide

end VulosRelay.Gateway.Spf
