import VulosRelay.Proof.ControlStreams

/-!
# Hop-by-hop headers

`stripHopByHop` reads `Connection` with an accessor for the first value only. So a header that is
named in a later line crosses the relay, unless the first line names it too.
-/

namespace VulosRelay.Agent

open GoText Http Keyauth Server List

/-- The headers that end at the relay: those that any `Connection` line names, and the standard
ones. -/
def hopByHop (h : Header) : List Text :=
  namedIn (h.values (literal "Connection")) ++ hopByHopHeaders.map canonicalName

/-- A header that only a later `Connection` line names is not there, `except` for some. -/
def FirstLineNames (h : Header) (except : List Text) : Prop :=
  ∀ name, canonicalName name ∈ hopByHop h → canonicalName name ∉ struck h →
    canonicalName name ∉ except.map canonicalName → h.values name = []

theorem hopByHop_of_struck (h : Header) (hc : c ∈ struck h) : c ∈ hopByHop h := by
  rw [struck, Header.get] at hc
  rw [hopByHop]
  cases hv : h.values (literal "Connection") with
  | nil => rwa [hv] at hc
  | cons first later =>
    simp only [hv, namedIn, flatMap_cons, map_append, mem_append] at hc ⊢
    exact hc.imp_left (.imp_right (by simp))

theorem filter_lines {order : List Text} {f : Text → List Text} (hord : order.Nodup)
    (hcn : ∀ k ∈ order, canonicalName k = k) (c : Text) :
    ((order.flatMap fun k => (f k).map (k, ·)).filter fun line => canonicalName line.1 = c).map
        Prod.snd = if c ∈ order then f c else [] := by
  induction order with
  | nil => rfl
  | cons k ks ih =>
    obtain ⟨hk, hks⟩ := forall_mem_cons.mp hcn
    rw [nodup_cons] at hord
    rw [flatMap_cons, filter_append, map_append, ih hord.2 hks]
    by_cases heq : k = c
    · subst heq
      simp [hk, hord.1, filter_map, Function.comp_def]
    · simp [hk, heq, Ne.symm heq, filter_map, Function.comp_def]

theorem values_copyResponseHeaders (dst src : Header) (order : KeyOrder (stripHopByHop src))
    (name : Text) : (copyResponseHeaders dst src order).values name
      = dst.values name ++ (stripHopByHop src).values name := by
  have hcn : ∀ k ∈ order.1, canonicalName k = k := fun k hk =>
    (stripHopByHop src).canonical k ((order.2.2 k).mp hk)
  rw [copyResponseHeaders, Header.values_add_all, filter_lines order.2.1 hcn]
  congr 1
  split
  · rw [Header.values, canonicalName_idem, Header.values]
  · rename_i hno
    rw [order.2.2, ← Finmap.lookup_eq_none] at hno
    rw [Header.values, hno, Option.getD_none]

/-- **Hop-by-hop headers cross the relay** exactly if a later `Connection` line is the first to
name them: then, and only then, a header that should end at the relay is in the forwarded request
or response. The forwarding headers that the relay sets in a request are its own. -/
theorem hop_by_hop_ends_iff (out orig : Request) (trustProxy : Bool) (dst src : Header)
    (order : KeyOrder (stripHopByHop src)) :
    ((∀ name, canonicalName name ∈ hopByHop out.header →
        canonicalName name ∉ (forwardingFields trustProxy).map canonicalName →
        (sanitizeRequestHeaders out orig trustProxy).header.values name = []) ↔
      FirstLineNames out.header (forwardingFields trustProxy)) ∧
    ((∀ name, (copyResponseHeaders dst src order).values name = dst.values name ++
        if canonicalName name ∈ hopByHop src then [] else src.values name) ↔
      FirstLineNames src []) := by
  refine ⟨⟨fun hs name hhop hst hex => ?_, fun hf name hhop hex => ?_⟩,
    ⟨fun hs name hhop hst _ => ?_, fun hf name => ?_⟩⟩
  · have hno := hs name hhop hex
    rwa [values_sanitizeRequestHeaders _ _ _ hex, values_stripHopByHop, if_neg hst] at hno
  · rw [values_sanitizeRequestHeaders _ _ _ hex, values_stripHopByHop]
    split
    · rfl
    · next hst => exact hf name hhop hst hex
  · have hno := hs name
    rwa [values_copyResponseHeaders, values_stripHopByHop, if_pos hhop, if_neg hst,
      append_cancel_left_eq] at hno
  · rw [values_copyResponseHeaders, values_stripHopByHop, append_cancel_left_eq]
    split
    · next hst => rw [if_pos (hopByHop_of_struck src hst)]
    · next hst =>
      split
      · next hhop => exact hf name hhop hst not_mem_nil
      · rfl

def twoLines : Header :=
  .ofFields [(literal "connection", literal "close"), (literal "Connection", literal "X-B"),
    (literal "X-B", literal "2")]

/-- The second of two `Connection` lines is not read, and the header that it names crosses. -/
theorem second_line_crosses :
    literal "X-B" ∈ hopByHop twoLines ∧
      (∀ (r : Request) (trustProxy : Bool), r.header = twoLines →
        (sanitizeRequestHeaders r r trustProxy).header.values (literal "X-B") = [literal "2"]) ∧
      ∀ order, (copyResponseHeaders .empty twoLines order).values (literal "X-B")
        = [literal "2"] := by
  have hcr : (stripHopByHop twoLines).values (literal "X-B") = [literal "2"] := by decide
  refine ⟨by decide, fun r trustProxy hr => ?_, fun order => ?_⟩
  · rw [values_sanitizeRequestHeaders _ _ _ (by cases trustProxy <;> decide), hr, hcr]
  · rw [values_copyResponseHeaders, hcr, Header.values_empty, nil_append]

end VulosRelay.Agent
