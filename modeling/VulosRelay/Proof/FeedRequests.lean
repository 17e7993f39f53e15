import Mathlib
import VulosRelay.Pubcache.Feed

/-!
# Which feed ranges are asked for, and how

The length of a range is computed in unsigned words, where the range of all 2⁶⁴ entries
has length zero. And the query of a range request is part of the path of the URL that is
built, so `URL.String` escapes its `?`: no upstream is ever asked for a range.
-/

namespace VulosRelay.Pubcache

open GoText Keyauth List

theorem parseFeedRange_some {max : UInt64} (h : parseFeedRange query max = some r) :
    r.1 ≤ r.2 ∧ r.2 - r.1 + 1 ≤ max := by
  unfold parseFeedRange at h
  split at h
  · cases h
  obtain ⟨first, -, h⟩ := Option.bind_eq_some_iff.mp h
  obtain ⟨last, -, h⟩ := Option.bind_eq_some_iff.mp h
  split at h
  · cases h
  rename_i hle
  split at h
  · cases h
  rename_i hft
  cases h
  exact ⟨UInt64.not_lt.mp hle, UInt64.not_lt.mp hft⟩

/-- **An accepted range has at most `MaxFeedRange` entries, unless it is the range of all
entries there can be.** -/
theorem feed_range_bounded_iff (query : Text → Text) (max : UInt64) (r : UInt64 × UInt64)
    (h : parseFeedRange query max = some r) :
    (Finset.Icc r.1.toNat r.2.toNat).card ≤ max.toNat ↔ ¬ (r.1 = 0 ∧ r.2.toNat = 2 ^ 64 - 1) := by
  obtain ⟨hle, hft⟩ := parseFeedRange_some h
  have hls := r.2.toNat_lt
  have hlen : (r.2 - r.1 + 1).toNat = (r.2.toNat - r.1.toNat + 1) % 2 ^ 64 := by
    rw [UInt64.toNat_add, UInt64.toNat_sub_of_le _ _ hle]
    rfl
  have hmax := max.toNat_lt
  rw [UInt64.le_iff_toNat_le, hlen] at hft
  rw [UInt64.le_iff_toNat_le] at hle
  rw [Nat.card_Icc, ← UInt64.toNat_inj, UInt64.toNat_zero]
  omega

def asked (first last : String) (key : Text) : Text :=
  if key = literal "from" then literal first else literal last

theorem short_range_bounded :
    parseFeedRange (asked "7" "9") 100 = some (7, 9) ∧ (Finset.Icc 7 9).card ≤ 100 := by
  have h : parseFeedRange (asked "7" "9") 100 = some (7, 9) := by decide +kernel
  exact ⟨h, (feed_range_bounded_iff _ 100 (7, 9) h).mpr (by decide)⟩

theorem whole_feed_accepted :
    parseFeedRange (asked "0" "18446744073709551615") 1 = some (0, 18446744073709551615) ∧
      ¬ (Finset.Icc 0 (2 ^ 64 - 1)).card ≤ 1 := by
  refine ⟨by decide +kernel, ?_⟩
  rw [Nat.card_Icc]
  decide

/-! ## The URL -/

theorem queryOf_eq_nil {front tail : Text} (hfr : 0x3F ∉ front)
    (htl : tail = [] ∨ tail = [0x3F]) : queryOf (front ++ tail) = [] := by
  have hdr : ∀ s : Text, s ⊆ front → s.dropWhile (· ≠ 0x3F) = [] := by
    intro s hs
    refine dropWhile_eq_nil_iff.mpr fun c hc => ?_
    exact decide_eq_true fun heq => hfr (heq ▸ hs hc)
  unfold queryOf
  rw [takeWhile_append]
  split
  · rw [dropWhile_append, hdr front (Subset.refl _)]
    rcases htl with rfl | rfl <;> decide
  · rw [hdr _ (takeWhile_sublist _).subset]
    rfl

theorem query_not_mem_escape (hpl : shouldEscape plain 0x3F = true) :
    0x3F ∉ escape plain s := by
  have hhex : ∀ c : UInt8, 0x3F ∉ [0x25, upperHex (c / 16), upperHex (c % 16)] := by decide +kernel
  intro hmem
  obtain ⟨c, -, hc⟩ := mem_flatMap.mp hmem
  split at hc
  · exact hhex c hc
  · rename_i hkp
    rw [mem_singleton.mp hc] at hpl
    exact hkp hpl

theorem query_not_mem_escapedPath {unescape : Text → Option Text} {u : Url} :
    0x3F ∉ u.escapedPath unescape := by
  unfold Url.escapedPath
  split
  · rename_i hraw
    intro hmem
    have hval := all_eq_true.mp hraw.2.1 _ hmem
    exact absurd hval (by decide)
  split
  · decide
  · exact query_not_mem_escape (by decide)

theorem parseUpstream_some (h : parseUpstream u = some base) :
    (base.scheme = literal "http" ∨ base.scheme = literal "https") ∧ base.rawQuery = [] := by
  unfold parseUpstream at h
  split at h
  · cases h
  rename_i hsc
  split at h
  · cases h
  split at h
  · cases h
  split at h
  · cases h
  rename_i hno
  cases h
  refine ⟨?_, not_not.mp (not_or.mp hno).1⟩
  rwa [not_and_or, not_not, not_not] at hsc

theorem queryOf_upstreamURL (unescape : Text → Option Text) (hbs : parseUpstream u = some base)
    (suffix : Text) : queryOf (upstreamURL unescape base suffix) = [] := by
  obtain ⟨hsc, hqr⟩ := parseUpstream_some hbs
  rw [upstreamURL, Url.string]
  refine queryOf_eq_nil ?_ ?_
  · have hsc' : 0x3F ∉ base.scheme ++ literal "://" := by
      rcases hsc with h | h <;> rw [h] <;> decide
    have hsl : ∀ p : Prop, [Decidable p] → 0x3F ∉ if p then literal "/" else [] := by
      intro p _
      split <;> decide
    simp only [mem_append, not_or]
    exact ⟨⟨⟨not_or.mp fun h => hsc' (mem_append.mpr h),
      query_not_mem_escape (by decide)⟩, hsl _⟩, query_not_mem_escapedPath⟩
  · rw [hqr]
    split
    · exact .inr (by decide)
    · exact .inl rfl

/--
**No feed range is ever asked for.** Whatever the upstream and the range, the URL that is
requested has an empty query when it is parsed, so never the one that names the range.
-/
theorem feed_range_query_lost (unescape : Text → Option Text) (u base : Url)
    (hbase : parseUpstream u = some base) (serveFeeds : Bool) (pub : Text) (query : Text → Text)
    (max : UInt64) :
    ∀ suffix r, feedSuffix serveFeeds pub (literal "range") query max = some suffix →
      parseFeedRange query max = some r →
      queryOf (upstreamURL unescape base suffix) = [] ∧
        queryOf (upstreamURL unescape base suffix) ≠ rangeQuery r := by
  intro suffix r _ _
  have hls := queryOf_upstreamURL unescape hbase suffix
  refine ⟨hls, fun heq => ?_⟩
  have hnil : literal "from=" ++ (formatUint r.1 ++ (literal "&to=" ++ formatUint r.2)) = [] := by
    rw [← append_assoc, ← append_assoc]
    exact heq.symm.trans hls
  exact absurd (append_eq_nil_iff.mp hnil).1 (by decide)

def plainUpstream : Url :=
  ⟨literal "http", false, literal "cache.example", literal "/", [], false, [], []⟩

def rootUpstream : Url := { plainUpstream with path := [] }

def feedKey : Text := literal "11qYAYKxCrfVS_7TyWQHOg7hcvPapiMlrwIaaPcHURo"

def shortSuffix : Text := literal "/feed/" ++ feedKey ++ literal "/range?from=7&to=9"

/-- The range from 7 to 9 is requested under a path that ends in the escaped query. -/
theorem range_requested_as_path :
    parseUpstream plainUpstream = some rootUpstream ∧ validFeedKey feedKey = true ∧
      feedSuffix true feedKey (literal "range") (asked "7" "9") 100 = some shortSuffix ∧
      upstreamURL some rootUpstream shortSuffix = literal "http://cache.example/feed/" ++ feedKey ++
        literal "/range%3Ffrom=7&to=9" ∧
      queryOf (upstreamURL some rootUpstream shortSuffix) ≠ rangeQuery (7, 9) := by
  decide +kernel

theorem short_range_lost : queryOf (upstreamURL some rootUpstream shortSuffix) = [] :=
  (feed_range_query_lost some plainUpstream rootUpstream (by decide +kernel) true feedKey
    (asked "7" "9") 100 shortSuffix (7, 9) (by decide +kernel) (by decide +kernel)).1

end VulosRelay.Pubcache
