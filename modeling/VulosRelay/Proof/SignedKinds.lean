import VulosRelay.Client.Signing

/-!
# The kinds of signed messages are told apart

One key signs JSON texts and raw bytes without a tag for the kind. The texts are told apart
by their first property: `type` with the name of a frame, `type` with `join`, or `to`. They
are told apart from a prekey by their length: the property names alone take more than 32
bytes. So bytes that a client checks as a message of one kind are the bytes of a signed
message of that kind or of none.
-/

namespace VulosRelay.Client.Signaling

open JsText Json List Nat

variable {N Key : Type}

def sentFields (fields : List (String × Option (Value N))) : List (String × Option (Value N)) :=
  fields.map fun f => (f.1, f.2.map Value.norm)

theorem norm_object (fields : List (String × Option (Value N))) :
    (object fields).norm = object (sentFields fields) := by
  induction fields with
  | nil => rfl
  | cons f fields ih =>
    obtain ⟨key, v⟩ := f
    cases v with
    | none => exact ih
    | some v => exact congrArg (Members.cons (literal key) v.norm) ih

def names (fields : List (String × Option (Value N))) : List Text :=
  fields.map fun f => literal f.1

theorem object_ne_cons (fields : List (String × Option (Value N)))
    (h : object fields = .cons key v rest) : key ∈ names fields := by
  induction fields with
  | nil => cases h
  | cons f fields ih =>
    obtain ⟨k, w⟩ := f
    cases w with
    | none => exact .tail _ (ih h)
    | some w =>
      injection h with hkey _ _
      rw [← hkey]
      exact .head _

/-- **An object literal determines its properties**, if no name stands in it twice. -/
theorem object_inj (hnm : fields.map Prod.fst = fields'.map Prod.fst)
    (hnd : (names fields).Nodup) (h : object fields = object fields') : fields = fields' := by
  induction fields generalizing fields' with
  | nil =>
    cases fields' with
    | nil => rfl
    | cons f fields' => cases hnm
  | cons f fields ih =>
    cases fields' with
    | nil => cases hnm
    | cons f' fields' =>
      obtain ⟨key, v⟩ := f
      obtain ⟨key', v'⟩ := f'
      injection hnm with hkey hrs
      cases hkey
      have hnot : literal key ∉ names fields := (nodup_cons.mp hnd).1
      have hds : (names fields).Nodup := (nodup_cons.mp hnd).2
      have hsm : names fields = names fields' := by
        have hmap := congrArg (map literal) hrs
        rw [map_map, map_map] at hmap
        exact hmap
      cases v with
      | none =>
        cases v' with
        | none => rw [ih hrs hds h]
        | some v' => exact absurd (object_ne_cons fields h) hnot
      | some v =>
        cases v' with
        | none =>
          rw [hsm] at hnot
          exact absurd (object_ne_cons fields' h.symm) hnot
        | some v' =>
          injection h with _ hv hob
          rw [hv, ih hrs hds hob]

def cost : Members N → Nat
  | .nil => 0
  | .cons key _ rest => (chars (quote key)).length + 3 + cost rest

theorem length_chars_pos (h : s ≠ []) : 1 ≤ (chars s).length := by
  cases s with
  | nil => exact absurd rfl h
  | cons c s =>
    cases s with
    | nil => exact le_refl 1
    | cons d s =>
      rw [chars]
      split <;> exact succ_le_succ (zero_le _)

theorem cost_le_moreMembers (hnum : numbers.Lawful) (ms : Members N) :
    cost ms ≤ (chars (moreMembers numbers ms)).length := by
  cases ms with
  | nil => exact zero_le _
  | cons key v rest =>
    have ih := cost_le_moreMembers hnum rest
    have hv : 1 ≤ (chars (stringify numbers v)).length := by
      obtain ⟨c, t, hv, -⟩ := stringify_head hnum v
      exact length_chars_pos (by rw [hv]; exact cons_ne_nil c t)
    have hcm : isSurrogate 0x2C = false := by decide
    have hcl : isSurrogate 0x3A = false := by decide
    rw [moreMembers, chars_unit hcm, chars_append (paired_quote key), chars_unit hcl,
      chars_append (paired_stringify hnum v), cost]
    simp only [length_cons, length_append]
    omega

theorem cost_le_bytes (hnum : env.numbers.Lawful) :
    cost ms ≤ (bytesOf env (.obj ms)).length := by
  have hmr := cost_le_moreMembers hnum ms
  have hby := length_chars_le_encode (stringify env.numbers (.obj ms))
  have hbr : isSurrogate 0x7B = false := by decide
  have hcm : isSurrogate 0x2C = false := by decide
  rw [stringify, chars_unit hbr, length_cons] at hby
  rw [bytesOf, stringify]
  cases ms with
  | nil => exact zero_le _
  | cons key v rest =>
    rw [moreMembers, chars_unit hcm, length_cons] at hmr
    rw [openMembers] at hby ⊢
    omega

theorem cost_skip (f : String × Option (Value N)) (rest : List (String × Option (Value N))) :
    cost (object rest) ≤ cost (object (f :: rest)) := by
  obtain ⟨key, v⟩ := f
  cases v with
  | none => exact le_rfl
  | some v => exact le_add_left _ _

theorem cost_some :
    cost (object ((key, some v) :: rest))
      = (chars (quote (literal key))).length + 3 + cost (object rest) := rfl

theorem key_lengths : (chars (quote (literal "type"))).length = 6 ∧
    (chars (quote (literal "to"))).length = 4 ∧ (chars (quote (literal "from"))).length = 6 ∧
    (chars (quote (literal "nonce"))).length = 7 := by decide

theorem frame_long (hnum : env.numbers.Lawful) (type sender nonce : Value N)
    (session addressee ts sdp candidate pubKey : Option (Value N)) :
    32 < (bytesOf env (canonical (some type) session addressee (some sender) (some nonce) ts sdp
      candidate pubKey)).length := by
  obtain ⟨hty, hto, hfr, hnc⟩ := key_lengths
  refine lt_of_lt_of_le ?_ (cost_le_bytes hnum)
  have hse := cost_skip ("session", session) [("to", orNull addressee),
    ("from", some sender), ("nonce", some nonce), ("ts", ts), ("sdp", sdp),
    ("candidate", candidate), ("pubKey", pubKey)]
  rw [orNull, cost_some, cost_some, cost_some, hto, hfr, hnc] at hse
  rw [cost_some, hty]
  rw [orNull]
  omega

theorem join_long (hnum : env.numbers.Lawful) (sender : Value N)
    (session depositPubKey boxPubKey : Option (Value N)) (supportsV2 : Bool)
    (nonce ts : Option (Value N)) :
    32 < (bytesOf env (canonicalJoin session (some sender) depositPubKey boxPubKey supportsV2
      nonce ts)).length := by
  obtain ⟨hty, -, hfr, -⟩ := key_lengths
  have hkey : (chars (quote (literal "depositPubKey"))).length = 15 := by decide
  refine lt_of_lt_of_le ?_ (cost_le_bytes hnum)
  have hse := cost_skip ("session", session) [("from", some sender),
    ("depositPubKey", orNull depositPubKey), ("boxPubKey", orNull boxPubKey),
    ("supportsV2", some (.bool supportsV2)), ("nonce", nonce), ("ts", ts)]
  rw [orNull, cost_some, cost_some, hfr, hkey] at hse
  rw [cost_some, hty]
  rw [orNull]
  omega

theorem deposit_long (hnum : env.numbers.Lawful) (addressee sender nonce blob : Value N)
    (epk : Option (Value N)) :
    32 < (bytesOf env (canonicalDeposit (some addressee) (some sender) (some nonce) (some blob)
      epk)).length := by
  obtain ⟨-, hto, hfr, hnc⟩ := key_lengths
  have hbl : (chars (quote (literal "blob_b64"))).length = 10 := by decide
  refine lt_of_lt_of_le ?_ (cost_le_bytes hnum)
  rw [cost_some, cost_some, cost_some, cost_some, hto, hfr, hnc, hbl]
  omega

theorem isFrame_type (h : isFrame p = true) :
    ∃ type : FrameType, field p "type" = some (.str type.text) := by
  have hnm : ∀ name, isType p name = true → field p "type" = some (.str (literal name)) := by
    intro name hnm
    rw [isType, isText.eq_def] at hnm
    split at hnm
    · next t ht => rw [ht, of_decide_eq_true hnm]
    · cases hnm
  rw [isFrame, Bool.or_eq_true, Bool.or_eq_true] at h
  rcases h with (h | h) | h
  · exact ⟨.offer, hnm _ h⟩
  · exact ⟨.answer, hnm _ h⟩
  · exact ⟨.ice, hnm _ h⟩

theorem first_eq (h : (Value.obj (.cons key v rest)).norm = (Value.obj (.cons key' v' rest')).norm)
    :
    key = key' ∧ v.norm = v'.norm := by
  injection h with h
  injection h with hkey hv _
  exact ⟨hkey, hv⟩

theorem type_ne_join (type : FrameType) : type.text ≠ literal "join" := by
  cases type with
  | offer | answer | ice => decide

theorem type_ne_to : literal "type" ≠ literal "to" := by decide

variable {env : Env N Key} (hnum : env.numbers.Lawful) {m : SignedMessage N}

include hnum

theorem frame_of_bytes (hfr : isFrame p = true) (hnc : (field p "nonce").isSome = true)
    (h : m.bytes env = bytesOf env (frameMessage sender p)) :
    ∃ f, m = .frame f ∧ f.message.norm = (frameMessage sender p).norm := by
  obtain ⟨type, hty⟩ := isFrame_type hfr
  obtain ⟨nonce, hnc⟩ := Option.isSome_iff_exists.mp hnc
  rw [frameMessage, hty, hnc] at h ⊢
  cases m with
  | frame f => exact ⟨f, rfl, encode_stringify_inj hnum h⟩
  | join j =>
    obtain ⟨-, hv⟩ := first_eq (encode_stringify_inj hnum h)
    injection hv with hv
    exact absurd hv.symm (type_ne_join type)
  | deposit d =>
    obtain ⟨hkey, -⟩ := first_eq (encode_stringify_inj hnum h)
    exact absurd hkey.symm type_ne_to
  | preKey pub size =>
    have hln := frame_long hnum (.str type.text) (.str sender) nonce (field p "session")
      (field p "to") (field p "ts") (field p "sdp") (field p "candidate") (field p "pubKey")
    rw [← h] at hln
    exact absurd size (ne_of_gt hln)

theorem join_of_bytes (h : m.bytes env = bytesOf env (joinMessage sender p)) :
    ∃ j, m = .join j ∧ j.message.norm = (joinMessage sender p).norm := by
  rw [joinMessage] at h ⊢
  cases m with
  | frame f =>
    obtain ⟨-, hv⟩ := first_eq (encode_stringify_inj hnum h)
    injection hv with hv
    exact absurd hv (type_ne_join f.type)
  | join j => exact ⟨j, rfl, encode_stringify_inj hnum h⟩
  | deposit d =>
    obtain ⟨hkey, -⟩ := first_eq (encode_stringify_inj hnum h)
    exact absurd hkey.symm type_ne_to
  | preKey pub size =>
    have hln := join_long hnum (.str sender) (field p "session") (field p "depositPubKey")
      (field p "boxPubKey") true (field p "nonce") (field p "ts")
    rw [← h] at hln
    exact absurd size (ne_of_gt hln)

theorem deposit_of_bytes
    (h : m.bytes env = bytesOf env (canonicalDeposit (some addressee) (some sender) (some nonce)
      (some blob) (some epk))) : ∃ d, m = .deposit d := by
  cases m with
  | frame f | join j =>
    obtain ⟨hkey, -⟩ := first_eq (encode_stringify_inj hnum h)
    exact absurd hkey type_ne_to
  | deposit d => exact ⟨d, rfl⟩
  | preKey pub size =>
    have hln := deposit_long hnum addressee sender nonce blob (some epk)
    rw [← h] at hln
    exact absurd size (ne_of_gt hln)

theorem preKey_of_bytes (h : (m.bytes env).length = 32) : m.kind = .preKey := by
  cases m with
  | frame f => exact absurd h (ne_of_gt (frame_long hnum _ _ _ _ _ _ _ _ _))
  | join j => exact absurd h (ne_of_gt (join_long hnum _ _ _ _ _ _ _))
  | deposit d => exact absurd h (ne_of_gt (deposit_long hnum _ _ _ _ _))
  | preKey pub size => rfl

end VulosRelay.Client.Signaling
