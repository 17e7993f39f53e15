import VulosRelay.Server.DirectProbe
import VulosRelay.Gateway.DestIp

/-!
# What the two address screens let through

`isPublicIP` of the relay and `is_forbidden_dest_ip` of the mail gateway are compared with
the addresses that are public. Each test of the source is first read as membership in a
block. What is left is a question about blocks: which of them meet, and `mem_iff_base_mem`
decides that by their bases.

Neither screen lets through public addresses only. `isPublicIP` follows Go's
`IsGlobalUnicast`, which takes in all of IPv6 that is not loopback, link-local or multicast;
the deny list of the gateway has neither the rest of the special blocks nor the translation
forms. The main result says for both, of every address, exactly when the screen is right.
-/

namespace VulosRelay.AddressScreens

open Ip Server.DirectProbe Gateway List Apart Gateway Fin

/-! ## The tests of IPv4 as blocks -/

theorem and_f0 (hc : c.toNat % 16 = 0) : b &&& 0xf0 = c ↔ Agree 4 b c :=
  and_eq_iff_agree (by decide) (by decide) hc

section

variable (a : Addr 4)

theorem isLoopback_v4 : isLoopback (.v4 a) = true ↔ a ∈ loopback4 := by
  simp [isLoopback, onTo4, mem_iff, loopback4, forall_fin_succ, covered]

theorem isUnspecified_v4 : isUnspecified (.v4 a) = true → a ∈ thisNetwork := by
  intro h
  have hzr : a = ![0, 0, 0, 0] := by
    have hmapped : unspecified6.base ∉ mapped := by decide
    simpa [isUnspecified, equal, hmapped] using h
  rw [hzr]
  decide

theorem isPrivate_v4 :
    isPrivate (.v4 a) = true ↔ a ∈ private10 ∨ a ∈ private172 ∨ a ∈ private192 := by
  simp [isPrivate, onTo4, mem_iff, private10, private172, private192, forall_fin_succ, covered,
    and_f0, or_assoc]

theorem isLinkLocalUnicast_v4 : isLinkLocalUnicast (.v4 a) = true ↔ a ∈ linkLocal4 := by
  simp [isLinkLocalUnicast, onTo4, mem_iff, linkLocal4, forall_fin_succ, covered]

theorem isMulticast_v4 : isMulticast (.v4 a) = true ↔ a ∈ multicast4 := by
  simp [isMulticast, onTo4, mem_iff, multicast4, forall_fin_succ, covered, and_f0]

theorem isLinkLocalMulticast_v4 (h : isLinkLocalMulticast (.v4 a) = true) : a ∈ multicast4 := by
  simp only [isLinkLocalMulticast, onTo4, Bool.and_eq_true, beq_iff_eq] at h
  rw [← isMulticast_v4]
  simp only [isMulticast, onTo4, h.1.1]
  decide

theorem mem_thisNetwork : a ∈ thisNetwork ↔ a 0 = 0 := by
  simp [mem_iff, thisNetwork, forall_fin_succ, covered]

theorem mem_shared : a ∈ shared ↔ a 0 = 100 ∧ 64 ≤ a 1 ∧ a 1 ≤ 127 := by
  have hbt : Agree 2 (a 1) 64 ↔ 64 ≤ a 1 ∧ a 1 ≤ 127 := by
    simp only [Agree, UInt8.le_iff_toNat_le, UInt8.reduceToNat]
    omega
  simp [mem_iff, shared, forall_fin_succ, covered, hbt]

theorem mem_protocol4 : a ∈ protocol4 ↔ a 0 = 192 ∧ a 1 = 0 ∧ a 2 = 0 := by
  simp [mem_iff, protocol4, forall_fin_succ, covered]

theorem mem_documentation1 : a ∈ documentation1 ↔ a 0 = 192 ∧ a 1 = 0 ∧ a 2 = 2 := by
  simp [mem_iff, documentation1, forall_fin_succ, covered]

theorem mem_documentation2 : a ∈ documentation2 ↔ a 0 = 198 ∧ a 1 = 51 ∧ a 2 = 100 := by
  simp [mem_iff, documentation2, forall_fin_succ, covered]

theorem mem_documentation3 : a ∈ documentation3 ↔ a 0 = 203 ∧ a 1 = 0 ∧ a 2 = 113 := by
  simp [mem_iff, documentation3, forall_fin_succ, covered]

theorem mem_benchmarking4 : a ∈ benchmarking4 ↔ a 0 = 198 ∧ (a 1 = 18 ∨ a 1 = 19) := by
  have hbt : Agree 7 (a 1) 18 ↔ a 1 = 18 ∨ a 1 = 19 := by
    simp only [Agree, ← UInt8.toNat_inj, UInt8.reduceToNat]
    omega
  simp [mem_iff, benchmarking4, forall_fin_succ, covered, hbt]

theorem mem_reserved4 : a ∈ reserved4 ↔ 240 ≤ a 0 := by
  have hbt : Agree 4 (a 0) 240 ↔ 240 ≤ a 0 := by
    have := (a 0).toNat_lt
    simp only [Agree, UInt8.le_iff_toNat_le, UInt8.reduceToNat]
    omega
  simp [mem_iff, reserved4, forall_fin_succ, covered, hbt]

theorem isPublicV4_iff : isPublicV4 a = true ↔ Public4 a := by
  have hun := isUnspecified_v4 a
  have hln := isLinkLocalMulticast_v4 a
  simp only [Public4, special4, forall_mem_cons, not_mem_nil, false_imp_iff, implies_true, and_true]
  simp only [← isLoopback_v4, ← isLinkLocalUnicast_v4, mem_shared, mem_protocol4,
    mem_documentation1, mem_documentation2, mem_documentation3, mem_benchmarking4, mem_reserved4]
  rw [← isMulticast_v4] at hln ⊢
  have hpr := isPrivate_v4 a
  rw [mem_thisNetwork] at hun ⊢
  unfold isPublicV4
  grind

/-! ## The tests of IPv6 as blocks -/

end

section

variable (a : Addr 16)

theorem mem_unspecified6 : a ∈ unspecified6 ↔ a = unspecified6.base := mem_host

theorem mem_loopback6 : a ∈ loopback6 ↔ a = loopback6.base := mem_host

theorem mem_multicast6 : a ∈ multicast6 ↔ a 0 = 0xff := by
  simp [mem_iff, multicast6, forall_fin_succ, covered, groups]

theorem mem_uniqueLocal : a ∈ uniqueLocal ↔ a 0 &&& 0xfe = 0xfc := by
  rw [and_eq_iff_agree (k := 7) (by decide) (by decide) (by decide)]
  simp [mem_iff, uniqueLocal, forall_fin_succ, covered, groups]

theorem mem_linkLocal6 : a ∈ linkLocal6 ↔ a 0 = 0xfe ∧ a 1 &&& 0xc0 = 0x80 := by
  rw [and_eq_iff_agree (k := 2) (by decide) (by decide) (by decide)]
  simp [mem_iff, linkLocal6, forall_fin_succ, covered, groups]

theorem mem_documentation6 :
    a ∈ documentation6 ↔ a 0 = 0x20 ∧ a 1 = 0x01 ∧ a 2 = 0x0d ∧ a 3 = 0xb8 := by
  simp [mem_iff, documentation6, forall_fin_succ, covered, groups]

theorem embeddedV4_eq :
    embeddedV4 a =
      if a ∈ nat64 then some (low a)
      else if a ∈ sixToFour then some (router a)
      else if a ∈ teredo then some (client a)
      else none := by
  have hnat : a ∈ nat64 ↔ a 0 = 0x00 ∧ a 1 = 0x64 ∧ a 2 = 0xff ∧ a 3 = 0x9b ∧ a 4 = 0 ∧ a 5 = 0
      ∧ a 6 = 0 ∧ a 7 = 0 ∧ a 8 = 0 ∧ a 9 = 0 ∧ a 10 = 0 ∧ a 11 = 0 := by
    simp [mem_iff, nat64, forall_fin_succ, covered, groups]
  have hsix : a ∈ sixToFour ↔ a 0 = 0x20 ∧ a 1 = 0x02 := by
    simp [mem_iff, sixToFour, forall_fin_succ, covered, groups]
  have htr : a ∈ teredo ↔ a 0 = 0x20 ∧ a 1 = 0x01 ∧ a 2 = 0x00 ∧ a 3 = 0x00 := by
    simp [mem_iff, teredo, forall_fin_succ, covered, groups]
  simp only [embeddedV4, hnat, hsix, htr, Bool.and_eq_true, beq_iff_eq, and_assoc, low,
    router, client]

end

section NotMapped

variable {a : Addr 16} (hmapped : a ∉ mapped)

include hmapped

theorem isLoopback_v6 : isLoopback (.v6 a) = true ↔ a ∈ loopback6 := by
  simp [isLoopback, onTo4, hmapped, equal, mem_loopback6]

theorem isUnspecified_v6 : isUnspecified (.v6 a) = true ↔ a ∈ unspecified6 := by
  simp [isUnspecified, equal, hmapped, mem_unspecified6]

theorem isLinkLocalUnicast_v6 : isLinkLocalUnicast (.v6 a) = true ↔ a ∈ linkLocal6 := by
  simp [isLinkLocalUnicast, onTo4, hmapped, mem_linkLocal6]

theorem isMulticast_v6 : isMulticast (.v6 a) = true ↔ a ∈ multicast6 := by
  simp [isMulticast, onTo4, hmapped, mem_multicast6]

theorem isLinkLocalMulticast_v6 (h : isLinkLocalMulticast (.v6 a) = true) : a ∈ multicast6 := by
  simp only [isLinkLocalMulticast, onTo4, hmapped, if_false, Bool.and_eq_true, beq_iff_eq] at h
  exact (mem_multicast6 a).mpr h.1

theorem isPrivate_v6 : isPrivate (.v6 a) = true ↔ a ∈ uniqueLocal := by
  simp [isPrivate, onTo4, hmapped, mem_uniqueLocal]

theorem isGlobalUnicast_v6 :
    isGlobalUnicast (.v6 a) = true ↔
      a ∉ unspecified6 ∧ a ∉ loopback6 ∧ a ∉ multicast6 ∧ a ∉ linkLocal6 := by
  have hbr : equal (.v6 a) (.v4 ![255, 255, 255, 255]) = false := by simp [equal, hmapped]
  rw [← isUnspecified_v6 hmapped, ← isLoopback_v6 hmapped, ← isMulticast_v6 hmapped,
    ← isLinkLocalUnicast_v6 hmapped]
  simp [isGlobalUnicast, hbr, and_assoc]

end NotMapped

theorem isInterfaceLocalMulticast_v6 (h : isInterfaceLocalMulticast (.v6 a) = true) :
    a ∈ multicast6 := by
  simp only [isInterfaceLocalMulticast, Bool.and_eq_true, beq_iff_eq] at h
  exact (mem_multicast6 a).mpr h.1

theorem isPublicV6_iff (hgl : isGlobalUnicast (.v6 a) = true) :
    isPublicV6 a = true ↔
      (a ∈ nat64 → Public4 (low a)) ∧ (a ∈ sixToFour → Public4 (router a)) ∧
        (a ∈ teredo → Public4 (client a)) ∧ a ∉ documentation6 := by
  have hdoc := mem_documentation6 a
  have hnt : a ∈ nat64 → a ∉ sixToFour := not_mem (by decide)
  have hntr : a ∈ nat64 → a ∉ teredo := not_mem (by decide)
  have hntd : a ∈ nat64 → a ∉ documentation6 := not_mem (by decide)
  have htr : a ∈ teredo → a ∉ sixToFour := not_mem (by decide)
  have hdc : a ∈ documentation6 → a ∉ sixToFour := not_mem (by decide)
  have hdct : a ∈ documentation6 → a ∉ teredo := not_mem (by decide)
  unfold isPublicV6
  rw [embeddedV4_eq, hgl]
  simp only [← isPublicV4_iff]
  grind

theorem isPublicIP_v6 (hmapped : a ∉ mapped) :
    isPublicIP (some (.v6 a)) = true ↔
      (a ∉ unspecified6 ∧ a ∉ loopback6 ∧ a ∉ multicast6 ∧ a ∉ linkLocal6) ∧ a ∉ uniqueLocal ∧
        (a ∈ nat64 → Public4 (low a)) ∧ (a ∈ sixToFour → Public4 (router a)) ∧
        (a ∈ teredo → Public4 (client a)) ∧ a ∉ documentation6 := by
  have hln := isLinkLocalMulticast_v6 hmapped
  have hin := isInterfaceLocalMulticast_v6 (a := a)
  have hpub := isPublicV6_iff (a := a)
  rw [isGlobalUnicast_v6 hmapped] at hpub
  have hml := isMulticast_v6 hmapped
  have hlp := isLoopback_v6 hmapped
  have hun := isUnspecified_v6 hmapped
  have hlc := isLinkLocalUnicast_v6 hmapped
  have hpr := isPrivate_v6 hmapped
  simp only [isPublicIP, onTo4, if_neg hmapped]
  grind

theorem isPublicIP_v4 (hip : ip = .v4 a ∨ ∃ b ∈ mapped, ip = .v6 b ∧ low b = a)
    (h : isPublicIP (some ip) = true) : Public4 a := by
  rw [← isPublicV4_iff]
  have hfr : onTo4 isPublicV4 isPublicV6 ip = isPublicV4 a := by
    rcases hip with rfl | ⟨b, hb, rfl, rfl⟩
    · rfl
    · simp [onTo4, hb]
  simp only [isPublicIP, hfr] at h
  grind

/-! ## The screen of the mail gateway -/

theorem toIpv4Mapped_eq :
    toIpv4Mapped a = if a ∈ mapped then some (low a) else none := by
  have hmapped : a ∈ mapped ↔ segment a 0 = 0 ∧ segment a 1 = 0 ∧
      segment a 2 = 0 ∧ segment a 3 = 0 ∧ segment a 4 = 0 ∧
      segment a 5 = 0xffff := by
    simp [mem_iff, mapped, forall_fin_succ, covered, groups, Gateway.segment, ← UInt8.toNat_inj]
    have := (a 10).toNat_lt
    have := (a 11).toNat_lt
    omega
  simp only [toIpv4Mapped, hmapped, low]

def listed4 : List (Block 4) :=
  [thisNetwork, private10, loopback4, linkLocal4, private172, private192]

def missing4 : List (Block 4) :=
  [shared, protocol4, documentation1, benchmarking4, documentation2, documentation3, multicast4,
    reserved4]

theorem isForbiddenV4_iff :
    isForbiddenV4 a = true ↔ (∃ block ∈ listed4, a ∈ block) ∨ a = ![255, 255, 255, 255] := by
  have hpr : Agree 4 (a 1) 16 ↔ 16 ≤ a 1 ∧ a 1 ≤ 31 := by
    simp only [Agree, UInt8.le_iff_toNat_le, UInt8.reduceToNat]
    omega
  have hzr : a = ![0, 0, 0, 0] → a 0 = 0 := fun h => by rw [h]; rfl
  simp only [listed4, exists_mem_cons_iff, not_mem_nil, false_and, exists_false,
    mem_iff, private10, loopback4, linkLocal4, private172, private192, thisNetwork]
  simp [forall_fin_succ, covered, hpr, isForbiddenV4]
  grind

theorem public4_iff :
    Public4 a ↔ (∀ block ∈ listed4, a ∉ block) ∧ ∀ block ∈ missing4, a ∉ block := by
  simp only [Public4, special4, listed4, missing4, forall_mem_cons, not_mem_nil,
    false_imp_iff, implies_true, and_true]
  tauto

theorem isForbiddenV6_iff :
    isForbiddenV6 a = true ↔
      a ∈ loopback6 ∨ a ∈ unspecified6 ∨ a ∈ linkLocal6 ∨ a ∈ uniqueLocal := by
  have hlc : segment a 0 &&& 0xffc0 = 0xfe80 ↔ a ∈ linkLocal6 := by
    have hms := and_mask (segment a 0) 10 6
    have := (a 0).toNat_lt
    have := (a 1).toNat_lt
    simp [mem_iff, linkLocal6, forall_fin_succ, covered, groups, ← UInt8.toNat_inj]
    simp [Gateway.segment, Agree] at hms ⊢
    omega
  have hun : segment a 0 &&& 0xfe00 = 0xfc00 ↔ a ∈ uniqueLocal := by
    have hms := and_mask (segment a 0) 7 9
    have := (a 0).toNat_lt
    have := (a 1).toNat_lt
    simp [mem_iff, uniqueLocal, forall_fin_succ, covered, groups]
    simp [Gateway.segment, Agree] at hms ⊢
    omega
  simp [isForbiddenV6, hlc, hun, mem_loopback6, mem_unspecified6, or_assoc]

/-! ## Public addresses -/

theorem public_mapped (hmapped : a ∈ mapped) : Public (.v6 a) ↔ Public4 (low a) := by
  have hcm : a ∉ compatible := not_mem (by decide) hmapped
  have hnat : a ∉ nat64 := not_mem (by decide) hmapped
  have hlc : a ∉ nat64Local := not_mem (by decide) hmapped
  have hsix : a ∉ sixToFour := not_mem (by decide) hmapped
  have htr : a ∉ teredo := not_mem (by decide) hmapped
  simp [Public, Routable, CarriesPublic, forms, hmapped, hcm, hnat, hlc, hsix, htr]

/-- The addresses that no screen has to look into. -/
def Plain6 (a : Addr 16) : Prop :=
  a ∈ globalUnicast ∧ ¬ Protocol6 a ∧ a ∉ documentation20

theorem public_v6 (hmapped : a ∉ mapped) :
    Public (.v6 a) ↔
      (a ∈ nat64 ∧ Public4 (low a)) ∨
        (Plain6 a ∧ a ∉ documentation6 ∧ (a ∈ sixToFour → Public4 (router a)) ∧
          (a ∈ teredo → Public4 (server a) ∧ Public4 (client a))) := by
  have hnt : a ∈ nat64 → a ∉ compatible := not_mem (by decide)
  have hntl : a ∈ nat64 → a ∉ nat64Local := not_mem (by decide)
  have hnts : a ∈ nat64 → a ∉ sixToFour := not_mem (by decide)
  have hntr : a ∈ nat64 → a ∉ teredo := not_mem (by decide)
  have hntg : a ∈ nat64 → a ∉ globalUnicast := not_mem (by decide)
  have hcm : a ∈ compatible → a ∉ globalUnicast := not_mem (by decide)
  have hlc : a ∈ nat64Local → a ∉ globalUnicast := not_mem (by decide)
  simp only [Public, Routable, if_neg hmapped, Global6, CarriesPublic, forms,
    forall_mem_cons, not_mem_nil, false_imp_iff, implies_true, and_true, Plain6]
  grind

theorem plain6_of_form (h : a ∈ sixToFour ∨ a ∈ teredo ∨ a ∈ documentation6) : Plain6 a := by
  rcases h with h | h | h
  · refine ⟨mem_of_base_mem (by decide) (by decide) h, fun hp => ?_, fun hd => ?_⟩
    · exact not_mem (by decide) hp.1 h
    · exact not_mem (by decide) hd h
  · refine ⟨mem_of_base_mem (by decide) (by decide) h, fun hp => ?_, ?_⟩
    · exact hp.2 teredo (by simp [reachable6]) h
    · exact not_mem (by decide) h
  refine ⟨mem_of_base_mem (by decide) (by decide) h, fun hp => ?_, ?_⟩
  · exact not_mem (by decide) h hp.1
  · exact not_mem (by decide) h

/-! ## When the screens are right -/

/-- The addresses about which `isPublicIP` is right: IPv4 in either form, the translation
prefix, the blocks that it refuses, and of the global unicast space all but the blocks set
aside in it and the Teredo addresses of a server that is not public. -/
def ProbeRight : IP → Prop
  | .v4 _ => True
  | .v6 a =>
    a ∈ mapped ∨ a ∈ nat64 ∨
      (a ∈ unspecified6 ∨ a ∈ loopback6 ∨ a ∈ multicast6 ∨ a ∈ linkLocal6 ∨ a ∈ uniqueLocal) ∨
      (Plain6 a ∧ (a ∈ teredo → Public4 (client a) → Public4 (server a)))

theorem probe_right_iff : (isPublicIP (some ip) = true → Public ip) ↔ ProbeRight ip := by
  cases ip with
  | v4 a => exact ⟨fun _ => trivial, fun _ h => ⟨isPublicIP_v4 (.inl rfl) h, trivial⟩⟩
  | v6 a =>
    by_cases hmapped : a ∈ mapped
    · refine ⟨fun _ => .inl hmapped, fun _ h => ?_⟩
      exact (public_mapped hmapped).mpr (isPublicIP_v4 (.inr ⟨a, hmapped, rfl, rfl⟩) h)
    rw [isPublicIP_v6 hmapped, public_v6 hmapped]
    have hpl := plain6_of_form (a := a)
    have htr : a ∈ teredo → a ∉ sixToFour := not_mem (by decide)
    have htrd : a ∈ teredo → a ∉ documentation6 :=
      not_mem (by decide)
    constructor
    · -- An address that is none of these passes every test and is not public.
      intro h
      by_contra hrg
      simp only [ProbeRight, not_or] at hrg
      obtain ⟨_, hnat, ⟨hu, hl, hm, hll, hul⟩, hbad⟩ := hrg
      grind
    · intro hrg ⟨⟨hu, hl, hm, hll⟩, hul, hnat, hsix, hteredo, hdoc⟩
      rcases hrg with h | h | h | ⟨h, hsr⟩
      · exact absurd h hmapped
      · exact .inl ⟨h, hnat h⟩
      · rcases h with h | h | h | h | h
        · exact absurd h hu
        · exact absurd h hl
        · exact absurd h hm
        · exact absurd h hll
        · exact absurd h hul
      · exact .inr ⟨h, hdoc, hsix, fun ht => ⟨hsr ht (hteredo ht), hteredo ht⟩⟩

/-- The addresses of IPv4 about which the list is right: all but the special blocks that it
lacks, with the one address of them that it has. -/
def ListRight (a : Addr 4) : Prop :=
  a = ![255, 255, 255, 255] ∨ ∀ block ∈ missing4, a ∉ block

theorem listRight_iff : (isForbiddenV4 a = false → Public4 a) ↔ ListRight a := by
  rw [← Bool.not_eq_true, isForbiddenV4_iff, public4_iff]
  constructor
  · intro h
    by_cases hls : a = ![255, 255, 255, 255]
    · exact .inl hls
    refine .inr fun block hbl hmem => ?_
    by_cases hlst : ∃ b ∈ listed4, a ∈ b
    · -- A block on the list meets none that is missing.
      obtain ⟨b, hb, ha⟩ := hlst
      have hap : ∀ b ∈ listed4, ∀ c ∈ missing4, Apart b c := by decide
      exact (hap b hb block hbl).not_mem ha hmem
    · exact (h (not_or.mpr ⟨hlst, hls⟩)).2 block hbl hmem
  · intro hrg hnot
    obtain ⟨hlst, hls⟩ := not_or.mp hnot
    refine ⟨fun block hbl hmem => hlst ⟨block, hbl, hmem⟩, ?_⟩
    exact hrg.resolve_left hls

/-- The addresses about which `is_forbidden_dest_ip` is right: of IPv4 those above, in
either form; of IPv6 the blocks on the list, and what is left of the translation prefix and
of the global unicast space without the blocks set aside in it and without the forms that
carry an address that is not public. -/
def GatewayRight : IP → Prop
  | .v4 a => ListRight a
  | .v6 a =>
    if a ∈ mapped then ListRight (low a)
    else (a ∈ loopback6 ∨ a ∈ unspecified6 ∨ a ∈ linkLocal6 ∨ a ∈ uniqueLocal) ∨
        (a ∈ nat64 ∧ Public4 (low a)) ∨
        (Plain6 a ∧ a ∉ documentation6 ∧ (a ∈ sixToFour → Public4 (router a)) ∧
          (a ∈ teredo → Public4 (server a) ∧ Public4 (client a)))

theorem gateway_right_iff :
    (isForbiddenDestIp ip = false → Public ip) ↔ GatewayRight ip := by
  cases ip with
  | v4 a =>
    simpa [Public, Routable, CarriesPublic, isForbiddenDestIp, GatewayRight]
      using listRight_iff
  | v6 a =>
    by_cases hmapped : a ∈ mapped
    · rw [public_mapped hmapped]
      simp only [isForbiddenDestIp, toIpv4Mapped_eq, GatewayRight, if_pos hmapped]
      exact listRight_iff
    rw [public_v6 hmapped]
    simp only [isForbiddenDestIp, toIpv4Mapped_eq, GatewayRight, if_neg hmapped]
    rw [← Bool.not_eq_true, isForbiddenV6_iff]
    exact imp_iff_or_not.trans (by rw [not_not, or_comm])

/-- **The address screens let through public addresses only, exactly here.** -/
theorem screens_right_iff (ip : IP) :
    ((isPublicIP (some ip) = true → Public ip) ↔ ProbeRight ip) ∧
      ((isForbiddenDestIp ip = false → Public ip) ↔ GatewayRight ip) :=
  ⟨probe_right_iff, gateway_right_iff⟩

def probed : List IP :=
  [.v6 (groups ![0xfec0, 0, 0, 0, 0, 0, 0, 1]), .v6 (groups ![0, 0, 0, 0, 0, 0, 0x7f00, 1]),
    .v6 (groups ![0x64, 0xff9b, 1, 0x7f00, 0, 0x100, 0, 0])]

/-- Addresses that `is_forbidden_dest_ip` does not forbid: shared and multicast addresses,
site-local, and `127.0.0.1` as a translated and as a 6to4 address. -/
def dialled : List IP :=
  [.v4 ![100, 64, 0, 1], .v4 ![224, 0, 0, 1], .v6 (groups ![0xff02, 0, 0, 0, 0, 0, 0, 1]),
    .v6 (groups ![0xfec0, 0, 0, 0, 0, 0, 0, 1]),
    .v6 (groups ![0x64, 0xff9b, 0, 0, 0, 0, 0x7f00, 1]),
    .v6 (groups ![0x2002, 0x7f00, 1, 0, 0, 0, 0, 0])]

theorem screens_let_through :
    (∀ ip ∈ probed, isPublicIP (some ip) = true ∧ ¬ Public ip) ∧
      ∀ ip ∈ dialled, isForbiddenDestIp ip = false ∧ ¬ Public ip := by
  decide

end VulosRelay.AddressScreens
