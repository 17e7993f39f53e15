import VulosRelay.Lib.FinMap
import VulosRelay.Lib.GoText
import Mathlib.Data.List.DropRight

/-!
# Header maps of HTTP messages

The header type of Go's `net/http`: a map from canonical field names to the values the
field was given, in order. Every operation takes a name in any case and works on its
canonical form, so a name that is not canonical is never a key; a `Header` carries that
fact. `get` reads the first value only.

The lemmas say what each operation does to the values of a field, and `values_del_all` what
a list of deletions does.
-/

namespace Http

open GoText List

def isTokenByte (c : UInt8) : Bool :=
  (0x30 ≤ c && c ≤ 0x39) || (0x41 ≤ c && c ≤ 0x5A) || (0x61 ≤ c && c ≤ 0x7A)
    || [0x21, 0x23, 0x24, 0x25, 0x26, 0x27, 0x2A, 0x2B, 0x2D, 0x2E, 0x5E, 0x5F, 0x60, 0x7C,
      0x7E].contains c

def capitalize : Bool → Text → Text
  | _, [] => []
  | upper, c :: cs => (if upper then upperByte c else lowerByte c) :: capitalize (c = 0x2D) cs

def canonicalName (name : Text) : Text :=
  if name.all isTokenByte then capitalize true name else name

theorem isTokenByte_of_upper (hlow : 0x41 ≤ c) (hhg : c ≤ 0x5A) : isTokenByte c = true := by
  simp [isTokenByte, hlow, hhg]

theorem isTokenByte_of_lower (hlow : 0x61 ≤ c) (hhg : c ≤ 0x7A) : isTokenByte c = true := by
  simp [isTokenByte, hlow, hhg]

theorem isTokenByte_upperByte (h : isTokenByte c = true) : isTokenByte (upperByte c) = true := by
  unfold upperByte
  split
  · exact isTokenByte_of_upper (by grind) (by grind)
  · exact h

theorem isTokenByte_lowerByte (h : isTokenByte c = true) : isTokenByte (lowerByte c) = true := by
  unfold lowerByte
  split
  · exact isTokenByte_of_lower (by grind) (by grind)
  · exact h

variable {c : UInt8}

theorem upperByte_idem : upperByte (upperByte c) = upperByte c := by
  unfold upperByte
  grind

theorem lowerByte_idem : lowerByte (lowerByte c) = lowerByte c := by
  unfold lowerByte
  grind

theorem upperByte_eq_hyphen : upperByte c = 0x2D ↔ c = 0x2D := by
  unfold upperByte
  grind

theorem lowerByte_eq_hyphen : lowerByte c = 0x2D ↔ c = 0x2D := by
  unfold lowerByte
  grind

theorem capitalize_all (h : name.all isTokenByte = true) :
    (capitalize upper name).all isTokenByte = true := by
  induction name generalizing upper with
  | nil => rfl
  | cons c cs ih =>
    rw [all_cons, Bool.and_eq_true] at h
    rw [capitalize, all_cons, Bool.and_eq_true]
    refine ⟨?_, ih h.2⟩
    cases upper with
    | true => exact isTokenByte_upperByte h.1
    | false => exact isTokenByte_lowerByte h.1

theorem capitalize_idem {upper : Bool} :
    capitalize upper (capitalize upper name) = capitalize upper name := by
  induction name generalizing upper with
  | nil => rfl
  | cons c cs ih =>
    cases upper with
    | true =>
      simp only [capitalize, if_pos, upperByte_idem, upperByte_eq_hyphen, ih]
    | false =>
      simp only [capitalize, Bool.false_eq_true, if_false, lowerByte_idem, lowerByte_eq_hyphen, ih]

@[simp] theorem canonicalName_idem (name : Text) :
    canonicalName (canonicalName name) = canonicalName name := by
  unfold canonicalName
  by_cases h : name.all isTokenByte = true
  · rw [if_pos h, if_pos (capitalize_all h), capitalize_idem]
  · rw [if_neg h, if_neg h]

structure Header where
  fields : FinMap Text (List Text)
  canonical : ∀ name ∈ fields, canonicalName name = name

namespace Header

def empty : Header where
  fields := ∅
  canonical := by
    intro name h
    exact absurd h Finmap.notMem_empty

def values (h : Header) (name : Text) : List Text :=
  (h.fields.lookup (canonicalName name)).getD []

def get (h : Header) (name : Text) : Text := (h.values name).headD []

def put (h : Header) (name : Text) (vs : List Text) : Header where
  fields := h.fields.insert (canonicalName name) vs
  canonical := by
    intro other hmem
    rcases Finmap.mem_insert.mp hmem with heq | hold
    · rw [heq, canonicalName_idem]
    · exact h.canonical other hold

def set (h : Header) (name value : Text) : Header := h.put name [value]

def add (h : Header) (name value : Text) : Header := h.put name (h.values name ++ [value])

def del (h : Header) (name : Text) : Header where
  fields := h.fields.erase (canonicalName name)
  canonical := by
    intro other hmem
    exact h.canonical other (Finmap.mem_erase.mp hmem).2

def ofFields (lines : List (Text × Text)) : Header :=
  lines.foldl (fun h line => h.add line.1 line.2) empty

theorem values_empty (name : Text) : empty.values name = [] := rfl

variable {h : Header}

theorem values_put_of_eq {name other : Text} {vs : List Text}
    (heq : canonicalName other = canonicalName name) : (h.put name vs).values other = vs := by
  rw [values, put, heq, Finmap.lookup_insert, Option.getD_some]

theorem values_put_of_ne {name other : Text} {vs : List Text}
    (hne : canonicalName other ≠ canonicalName name) :
    (h.put name vs).values other = h.values other := by
  rw [values, put, Finmap.lookup_insert_of_ne _ hne, values]

theorem values_set (h : Header) (name value other : Text) : (h.set name value).values other
      = if canonicalName other = canonicalName name then [value] else h.values other := by
  split
  · next heq => exact values_put_of_eq heq
  · next hne => exact values_put_of_ne hne

theorem values_del {name other : Text} : (h.del name).values other
      = if canonicalName other = canonicalName name then [] else h.values other := by
  rw [values, del]
  split
  · next heq => rw [heq, Finmap.lookup_erase, Option.getD_none]
  · next hne => rw [Finmap.lookup_erase_ne hne, values]

theorem values_del_all (names : List Text) (h : Header) (other : Text) :
    (names.foldl del h).values other
      = if canonicalName other ∈ names.map canonicalName then [] else h.values other := by
  induction names generalizing h with
  | nil => rfl
  | cons name names ih =>
    rw [foldl_cons, ih, values_del, map_cons]
    by_cases heq : canonicalName other = canonicalName name
    · simp [heq]
    · simp [heq]

theorem values_add {name value other : Text} : (h.add name value).values other
      = h.values other ++ if canonicalName name = canonicalName other then [value] else [] := by
  by_cases heq : canonicalName name = canonicalName other
  · rw [if_pos heq, add, values_put_of_eq heq.symm, values, values, heq]
  · rw [if_neg heq, add, values_put_of_ne (Ne.symm heq), append_nil]

theorem values_add_all (lines : List (Text × Text)) (h : Header) (name : Text) :
    (lines.foldl (fun h line => h.add line.1 line.2) h).values name
      = h.values name
        ++ (lines.filter fun line => canonicalName line.1 = canonicalName name).map Prod.snd := by
  induction lines generalizing h with
  | nil => rw [foldl_nil, filter_nil, map_nil, append_nil]
  | cons line lines ih =>
    rw [foldl_cons, ih, values_add, append_assoc]
    by_cases heq : canonicalName line.1 = canonicalName name
    · simp [heq]
    · simp [heq]

/-- **What is read from field lines**: the values of the lines with that name in any case. -/
theorem values_ofFields : (ofFields lines).values name
      = (lines.filter fun line => canonicalName line.1 = canonicalName name).map Prod.snd := by
  rw [ofFields, values_add_all, values_empty, nil_append]

def firstOf (lines : List (Text × Text)) (name : Text) : Text :=
  ((lines.find? fun line => canonicalName line.1 = canonicalName name).map Prod.snd).getD []

theorem get_ofFields (lines : List (Text × Text)) (name : Text) :
    (ofFields lines).get name = firstOf lines name := by
  rw [get, values_ofFields, headD_eq_head?_getD, head?_map, head?_filter, firstOf]

def mapValues (f : Text → Text) (h : Header) : Header where
  fields := h.fields.mapFilter fun _ vs => some (vs.map f)
  canonical := by
    intro name hmem
    obtain ⟨vs, hvs⟩ := FinMap.mem_iff_lookup.mp hmem
    rw [FinMap.lookup_mapFilter] at hvs
    obtain ⟨old, hold, -⟩ := Option.bind_eq_some_iff.mp hvs
    exact h.canonical name (FinMap.mem_of_lookup hold)

theorem values_mapValues (f : Text → Text) (h : Header) (name : Text) :
    (h.mapValues f).values name = (h.values name).map f := by
  rw [values, mapValues, FinMap.lookup_mapFilter, values]
  cases h.fields.lookup (canonicalName name) with
  | none => rfl
  | some vs => rfl

end Header

def isBlank (c : UInt8) : Bool := c = 0x20 ∨ c = 0x09

def wireValue (value : Text) : Text :=
  ((value.map fun c => if c = 0x0A ∨ c = 0x0D then 0x20 else c).dropWhile isBlank).rdropWhile
    isBlank

/--
**A header arrives**: for a field outside `managed` the receiver has the values of the
sender, in their order, as they are on the wire.
-/
def Arrives (managed : List Text) (sent received : Header) : Prop :=
  ∀ name, canonicalName name ∉ managed →
    received.values name = (sent.values name).map wireValue

theorem Arrives.get (h : Arrives managed sent received) (hnm : canonicalName name ∉ managed) :
    received.get name = wireValue (sent.get name) := by
  rw [Header.get, h name hnm, Header.get]
  cases sent.values name with
  | nil => rfl
  | cons value values => rfl

end Http
