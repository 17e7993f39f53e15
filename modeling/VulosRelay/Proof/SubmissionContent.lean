import VulosRelay.Gateway.LegacyNet
import Mathlib.Data.List.Infix
import Mathlib.Data.List.TakeWhile

/-!
# Message content in a submission session

The line loop does not know whether the session is in its data phase: it classifies every
line by its first word. A content line that starts with `STARTTLS` does no harm, since the
session answers nothing to it and no reply means no upgrade. A content line that starts
with `QUIT` is fed and then ends the connection. Two more things happen to content on its
way: a carriage return at the end of a line is taken off with the line end, and a line
beyond the cap is refused.

The message is followed line by line, for every way of cutting its bytes into chunks. For
the converse the bytes arrive one at a time.
-/

namespace VulosRelay.Gateway.LegacyNet

open List Utf8

/-! ## Lines and chunks -/

theorem takeLine_eq (h : 10 ∉ line) :
    takeLine (line ++ 10 :: rest) = some (line ++ [10], rest) := by
  induction line with
  | nil => rfl
  | cons b line ih =>
    rw [mem_cons, not_or] at h
    rw [cons_append, takeLine, if_neg fun hb => h.1 hb.symm, ih h.2]
    rfl

theorem takeLine_eq_none (h : 10 ∉ bytes) : takeLine bytes = none := by
  induction bytes with
  | nil => rfl
  | cons b bytes ih =>
    rw [mem_cons, not_or] at h
    rw [takeLine, if_neg fun hb => h.1 hb.symm, ih h.2]
    rfl

def arrives : List Chunk → List UInt8
  | [] => []
  | .interrupted :: chunks => arrives chunks
  | .failed _ :: _ => []
  | .data bytes :: chunks => if bytes = [] then [] else bytes ++ arrives chunks

theorem readChunks_line (chunks : List Chunk) :
    ∀ (out line : List UInt8), 10 ∉ line → out.length + line.length ≤ cap →
      arrives chunks = line ++ 10 :: rest →
      ∃ buffer chunks', readChunks cap out chunks = ⟨.ok (out ++ line ++ [10]), buffer, chunks'⟩ ∧
        buffer ++ arrives chunks' = rest := by
  induction chunks with
  | nil =>
    intro out line _ _ harr
    exact absurd harr (by simp [arrives])
  | cons chunk chunks ih =>
    intro out line hln hcap harr
    cases chunk with
    | interrupted => exact ih out line hln hcap harr
    | failed e => exact absurd harr (by simp [arrives])
    | data available =>
      by_cases hemp : available = []
      · rw [arrives, if_pos hemp] at harr
        simp at harr
      rw [arrives, if_neg hemp] at harr
      rw [readChunks, if_neg hemp]
      by_cases hfd : 10 ∈ available
      · -- the line ends in this chunk
        obtain ⟨upTo, after, rfl, hup⟩ := eq_append_cons_of_mem hfd
        rw [append_assoc, cons_append] at harr
        obtain ⟨hsm, haf⟩ := Option.some.inj
          ((takeLine_eq hup).symm.trans (harr ▸ takeLine_eq hln)) |> Prod.mk.inj
        rw [takeLine_eq hup]
        refine ⟨after, chunks, ?_, haf⟩
        rw [hsm, append_assoc]
      · -- the line goes on
        obtain ⟨line', rfl, hrs⟩ : ∃ line', line = available ++ line' ∧
            arrives chunks = line' ++ 10 :: rest := by
          rcases append_eq_append_iff.mp harr with ⟨line', hl, hr⟩ | ⟨extra, hl, hr⟩
          · exact ⟨line', hl, hr⟩
          cases extra with
          | nil => exact ⟨[], by simpa using hl.symm, by simpa using hr.symm⟩
          | cons b extra =>
            injection hr with hb _
            exact absurd (by rw [hl, ← hb]; simp) hfd
        have hlng : ¬ (out ++ available).length > cap := by
          simp only [length_append] at hcap ⊢
          omega
        rw [takeLine_eq_none hfd]
        rw [if_neg hlng]
        obtain ⟨buffer, chunks', hrd, hlf⟩ := ih (out ++ available) line'
          (fun hmem => hln (mem_append_right _ hmem))
          (by simp only [length_append] at hcap ⊢; omega) hrs
        exact ⟨buffer, chunks', by rw [hrd, append_assoc out], hlf⟩

theorem readLineCapped_line (cap : Nat) (line rest : List UInt8) (hln : 10 ∉ line)
    (hcap : line.length ≤ cap) (harr : buffer ++ arrives chunks = line ++ 10 :: rest) :
    ∃ buffer' chunks', readLineCapped cap buffer chunks = ⟨.ok (line ++ [10]), buffer', chunks'⟩ ∧
      buffer' ++ arrives chunks' = rest := by
  rw [readLineCapped]
  split
  · rename_i hemp
    rw [hemp] at harr
    exact readChunks_line chunks [] line hln (by simpa using hcap) harr
  rename_i hfl
  refine readChunks_line (.data buffer :: chunks) [] line hln (by simpa using hcap) ?_
  rw [arrives, if_neg hfl]
  exact harr

def oneByOne (bytes : List UInt8) : List Chunk := bytes.map fun b => .data [b]

theorem arrives_oneByOne : arrives (oneByOne bytes) = bytes := by
  induction bytes with
  | nil => rfl
  | cons b bytes ih =>
    rw [oneByOne, map_cons, arrives, if_neg (cons_ne_nil b []), singleton_append]
    exact congrArg (b :: ·) ih

theorem readChunks_oneByOne (cap : Nat) (rest line : List UInt8) :
    ∀ (out : List UInt8), 10 ∉ line → out.length ≤ cap →
      (out.length + line.length ≤ cap ∧ readChunks cap out (oneByOne (line ++ 10 :: rest))
          = ⟨.ok (out ++ line ++ [10]), [], oneByOne rest⟩) ∨
        cap < out.length + line.length ∧
          ∃ e, (readChunks cap out (oneByOne (line ++ 10 :: rest))).outcome = .error e := by
  induction line with
  | nil =>
    intro out _ hout
    refine .inl ⟨by simpa using hout, ?_⟩
    rw [nil_append, oneByOne, map_cons, readChunks, if_neg (cons_ne_nil _ _), append_nil]
    rfl
  | cons b line ih =>
    intro out hln hout
    rw [mem_cons, not_or] at hln
    have hno : takeLine [b] = none := takeLine_eq_none (by simpa using hln.1)
    rw [cons_append, oneByOne, map_cons, readChunks, if_neg (cons_ne_nil _ _), hno]
    dsimp only
    split
    · rename_i hlng
      right
      simp only [length_append, length_cons, length_nil] at hlng ⊢
      exact ⟨by omega, _, rfl⟩
    · rename_i hsh
      rcases ih (out ++ [b]) hln.2 (by omega) with ⟨hcap, hrd⟩ | ⟨hcap, her⟩
      · left
        simp only [length_append, length_cons, length_nil] at hcap ⊢
        refine ⟨by omega, ?_⟩
        rw [oneByOne] at hrd
        rw [hrd]
        simp only [append_assoc, cons_append, nil_append]
      · right
        simp only [length_append, length_cons, length_nil] at hcap ⊢
        exact ⟨by omega, her⟩

/-! ## Line ends -/

theorem stripEnds_crlf : stripEnds (line ++ [13, 10]) = stripEnds line := by
  simp [stripEnds]

theorem stripEnds_spec :
    ∃ ends, line = stripEnds line ++ ends ∧ ∀ b ∈ ends, b = 13 ∨ b = 10 := by
  refine ⟨(line.reverse.takeWhile fun b => b == 13 || b == 10).reverse, ?_, ?_⟩
  · rw [stripEnds, ← reverse_append, takeWhile_append_dropWhile, reverse_reverse]
  · intro b hb
    simpa using mem_takeWhile_imp (mem_reverse.mp hb)

theorem stripEnds_eq_iff (h : 10 ∉ line) : stripEnds line = line ↔ line.getLast? ≠ some 13 := by
  cases hls : line.reverse with
  | nil => simp [reverse_eq_nil_iff.mp hls, stripEnds]
  | cons b rest =>
    have hln : line = rest.reverse ++ [b] := by
      rw [← reverse_reverse line, hls, reverse_cons]
    have hb : b ≠ 10 := fun hb => h (by rw [hln, hb]; simp)
    rw [stripEnds, hls, hln, getLast?_concat]
    by_cases hcr : b = 13
    · subst hcr
      simp only [dropWhile_cons, beq_self_eq_true, Bool.true_or, if_true, ne_eq,
        not_true_eq_false, iff_false]
      intro heq
      have hlen := congrArg length heq
      have hle := (dropWhile_sublist (fun b : UInt8 => b == 13 || b == 10)
        (l := rest)).length_le
      simp only [length_reverse, length_append, length_singleton] at hlen
      omega
    · simp [hcr, hb]

def stuff (line : List UInt8) : List UInt8 := if line.head? = some 46 then 46 :: line else line

theorem stuff_no_feed (h : 10 ∉ line) : 10 ∉ stuff line := by
  rw [stuff]
  split
  · simpa using h
  · exact h

theorem stripEnds_stuff_ne (line : List UInt8) : stripEnds (stuff line) ≠ [46] := by
  intro hdot
  obtain ⟨ends, hen, hall⟩ := stripEnds_spec
  rw [hdot] at hen
  rw [stuff] at hen
  split at hen
  · rename_i hhd
    cases line with
    | nil => cases hhd
    | cons b line =>
      injection hhd with hb
      injection hen with _ hen
      have hend : b = 13 ∨ b = 10 := hall b (by
        rw [show ends = b :: line from hen.symm]
        simp)
      subst hb
      rcases hend with h | h <;> cases h
  · rename_i hhd
    exact hhd (by rw [hen]; rfl)

/-! ## Content lines in the loop -/

/-- **What the mail library promises of its session**: after a reply 354 it is in its data
phase, where it answers nothing to a line and stays, until the line is a single dot. -/
structure Conforms {σ : Type} (feed : σ → List UInt8 → Str × σ) (inData : σ → Prop) : Prop where
  /-- A reply 354 begins the data phase. -/
  enters : ∀ s line, (stripPrefix "354".toList (feed s line).1).isSome = true →
    inData (feed s line).2
  /-- In it a line that is not the single dot gets no reply, -/
  silent : ∀ s line, inData s → line ≠ [46] → (feed s line).1 = []
  /-- and does not end it. -/
  stays : ∀ s line, inData s → line ≠ [46] → inData (feed s line).2

def transmission (message : List (List UInt8)) : List UInt8 :=
  message.flatMap (fun line => stuff line ++ [13, 10]) ++ [46, 13, 10]

/-- **Content is content**: the loop feeds every line of the message and the dot, and
meanwhile neither ends nor upgrades. -/
def ContentFed {σ : Type} (proto : LineProtocol σ) (loop : Loop σ)
    (message : List (List UInt8)) : Prop :=
  (∀ k ≤ message.length,
    (passes proto loop k).ended = none ∧ (passes proto loop k).secured = loop.secured) ∧
  (passes proto loop (message.length + 1)).fed = loop.fed ++ message.map stuff ++ [[46]]

/-- A line that does nothing on its way: its first word is not `QUIT`, it does not end in a
carriage return, and with its line end it is within the cap. -/
def Harmless (line : List UInt8) : Prop :=
  verbOf (Utf8.decodeLossy line) ≠ "QUIT".toList ∧ line.getLast? ≠ some 13 ∧
    line.length < maxLine

section
variable {σ : Type} {feed : σ → List UInt8 → Str × σ} {inData : σ → Prop}

theorem step_content (hcn : Conforms feed inData) (hen : loop.ended = none)
    (hdt : inData loop.session) (hrd : readLineCapped maxLine loop.buffer loop.chunks
      = ⟨.ok (stuff line ++ [13, 10]), buffer, chunks⟩) :
    step (smtpLine feed) loop =
      { loop with
        session := (feed loop.session (stripEnds (stuff line))).2
        buffer := buffer
        chunks := chunks
        fed := loop.fed ++ [stripEnds (stuff line)]
        ended := if verbOf (decodeLossy (stripEnds (stuff line))) = "QUIT".toList
          then some .closed else none } := by
  have hsl := hcn.silent loop.session _ hdt (stripEnds_stuff_ne line)
  have hne : stuff line ++ [13, 10] ≠ [] := by simp
  rw [step, hen, hrd]
  simp only [Option.isSome_none, Bool.false_eq_true, if_false, if_neg hne, onLine, smtpLine,
    stripEnds_crlf, hsl, if_true, finishPass]
  -- without a reply there is no upgrade
  have href : (stripPrefix "220".toList []).isSome = false := rfl
  rw [href, Bool.and_false, if_neg Bool.false_ne_true]
  by_cases hqt : verbOf (decodeLossy (stripEnds (stuff line))) = "QUIT".toList
  · rw [if_pos hqt, hqt]
    rfl
  have hqt' :
      (verbOf (decodeLossy (stripEnds (stuff line))) == "QUIT".toList) = false := by
    simpa using hqt
  rw [if_neg hqt, hqt']
  simp only [Bool.false_eq_true, if_false]

theorem finishPass_fed (proto : LineProtocol σ) (loop : Loop σ) (wantsUpgrade quit : Bool)
    (reply : Str) : (finishPass proto loop wantsUpgrade quit reply).fed = loop.fed := by
  rw [finishPass]
  split
  · split
    · rfl
    split
    · rfl
    · split <;> rfl
  · split <;> rfl

theorem onLine_fed :
    (onLine proto loop line).fed = loop.fed ++ [stripEnds line] := by
  rw [onLine]
  split
  · exact finishPass_fed ..
  split
  · rfl
  · exact finishPass_fed ..

theorem fed_step : loop.fed <+: (step proto loop).fed := by
  rw [step]
  split
  · exact prefix_rfl
  dsimp only
  split
  · exact prefix_rfl
  split
  · exact prefix_rfl
  · rw [onLine_fed]
    exact prefix_append ..

theorem fed_passes (proto : LineProtocol σ) :
    ∀ (n : Nat) (loop : Loop σ), loop.fed <+: (passes proto loop n).fed
  | 0, _ => prefix_rfl
  | n + 1, loop => fed_step.trans (fed_passes proto n (step proto loop))

theorem step_error (hen : loop.ended = none)
    (h : (readLineCapped maxLine loop.buffer loop.chunks).outcome = .error e) :
    (step proto loop).ended ≠ none := by
  rw [step, hen]
  simp [h]

theorem contentFed_of_harmless (hcn : Conforms feed inData) :
    ∀ (message : List (List UInt8)) (loop : Loop σ), loop.ended = none → inData loop.session →
      (∀ line ∈ message, 10 ∉ line) → (∀ line ∈ message, Harmless (stuff line)) →
      transmission message <+: loop.buffer ++ arrives loop.chunks →
      ContentFed (smtpLine feed) loop message := by
  intro message
  induction message with
  | nil =>
    intro loop hen hdt _ _ hsn
    obtain ⟨rest, hrs⟩ := hsn
    obtain ⟨buffer, chunks, hrd, -⟩ := readLineCapped_line maxLine [46, 13] rest
      (by decide) (by decide) hrs.symm
    refine ⟨fun k hk => ?_, ?_⟩
    · obtain rfl : k = 0 := by simpa using hk
      exact ⟨hen, rfl⟩
    rw [length_nil, passes, passes, step, hen, hrd]
    simp only [Option.isSome_none, Bool.false_eq_true, if_false]
    rw [if_neg (by simp), onLine_fed, map_nil, append_nil]
    rfl
  | cons line message ih =>
    intro loop hen hdt hln hhr hsn
    obtain ⟨hqt, hcr, hlng⟩ := hhr line (.head _)
    have hfd := stuff_no_feed (hln line (.head _))
    obtain ⟨rest, hrs⟩ := hsn
    obtain ⟨buffer, chunks, hrd, hlf⟩ := readLineCapped_line maxLine
      (stuff line ++ [13]) (transmission message ++ rest) (by simpa using hfd)
      (by rw [length_append]; exact hlng)
      (show loop.buffer ++ arrives loop.chunks = _ by rw [← hrs]; simp [transmission])
    rw [append_assoc] at hrd
    have hst := step_content hcn hen hdt hrd
    have hsm : stripEnds (stuff line) = stuff line := (stripEnds_eq_iff hfd).mpr hcr
    rw [hsm, if_neg hqt] at hst
    have hnx : ContentFed (smtpLine feed) (step (smtpLine feed) loop) message := by
      refine ih _ (by rw [hst]) ?_ (fun l hl => hln l (.tail _ hl))
        (fun l hl => hhr l (.tail _ hl)) ?_
      · rw [hst]
        refine hcn.stays loop.session _ hdt ?_
        rw [← hsm]
        exact stripEnds_stuff_ne line
      · rw [hst]
        exact ⟨rest, hlf.symm⟩
    refine ⟨fun k hk => ?_, ?_⟩
    · cases k with
      | zero => exact ⟨hen, rfl⟩
      | succ k =>
        obtain ⟨hrun, hsc⟩ := hnx.1 k (by simpa using hk)
        exact ⟨hrun, by rw [passes, hsc, hst]⟩
    · rw [length_cons, passes, hnx.2, hst]
      simp

theorem harmless_of_contentFed (hcn : Conforms feed inData) :
    ∀ (message : List (List UInt8)) (loop : Loop σ), loop.ended = none → inData loop.session →
      (∀ line ∈ message, 10 ∉ line) → loop.buffer = [] →
      loop.chunks = oneByOne (transmission message) →
      ContentFed (smtpLine feed) loop message → ∀ line ∈ message, Harmless (stuff line) := by
  intro message
  induction message with
  | nil =>
    intro loop _ _ _ _ _ _ line hln
    cases hln
  | cons line message ih =>
    intro loop hen hdt hlns hbf hch hfed
    have hfd := stuff_no_feed (hlns line (.head _))
    have hrun := (hfed.1 1 (by simp)).1
    have hby : transmission (line :: message)
        = (stuff line ++ [13]) ++ 10 :: transmission message := by simp [transmission]
    have hrd : readLineCapped maxLine loop.buffer loop.chunks = readChunks maxLine []
        (oneByOne ((stuff line ++ [13]) ++ 10 :: transmission message)) := by
      rw [readLineCapped, if_pos hbf, hch, hby]
    rcases readChunks_oneByOne maxLine (transmission message) (stuff line ++ [13]) []
      (by simpa using hfd) (Nat.zero_le _) with ⟨hcap, hln⟩ | ⟨-, e, he⟩
    · rw [← hrd, nil_append, append_assoc] at hln
      have hst := step_content hcn hen hdt hln
      -- the connection goes on, so the line was not taken for QUIT
      have hqt : verbOf (decodeLossy (stripEnds (stuff line))) ≠ "QUIT".toList := by
        intro hqt
        rw [passes, passes, hst, if_pos hqt] at hrun
        cases hrun
      rw [if_neg hqt] at hst
      -- what was fed for the line is the line
      have hsm : stripEnds (stuff line) = stuff line := by
        have hpr := fed_passes (smtpLine feed) (message.length + 1)
          (step (smtpLine feed) loop)
        have hall := hfed.2
        rw [length_cons, passes] at hall
        rw [hall, hst, append_assoc, map_cons, cons_append, prefix_append_right_inj] at hpr
        obtain ⟨rest, hrs⟩ := hpr
        exact (cons.inj hrs).1
      rw [hsm] at hqt hst
      have hnx : ContentFed (smtpLine feed) (step (smtpLine feed) loop) message := by
        refine ⟨fun k hk => ?_, ?_⟩
        · obtain ⟨hen', hsc⟩ := hfed.1 (k + 1) (by simpa using hk)
          rw [passes] at hen' hsc
          exact ⟨hen', by rw [hsc, hst]⟩
        have hall := hfed.2
        rw [length_cons, passes] at hall
        rw [hall, hst]
        simp
      intro l hl
      rcases mem_cons.mp hl with rfl | hl
      · refine ⟨hqt, (stripEnds_eq_iff hfd).mp hsm, ?_⟩
        simpa [Nat.succ_le_iff] using hcap
      refine ih _ (by rw [hst]) ?_ (fun l hl => hlns l (.tail _ hl))
        (by rw [hst]) (by rw [hst]) hnx l hl
      rw [hst]
      refine hcn.stays loop.session _ hdt ?_
      rw [← hsm]
      exact stripEnds_stuff_ne line
    · rw [← hrd] at he
      exact absurd hrun (step_error hen he)

/-- **Message content never controls the session exactly if each of its lines is harmless.**
The session has answered 354; the message may be any lines, and its bytes may arrive cut in
any way. -/
theorem content_fed_iff {σ : Type} (feed : σ → List UInt8 → Str × σ) (inData : σ → Prop)
    (hconf : Conforms feed inData) (s : σ) (cmd : List UInt8)
    (h354 : (stripPrefix "354".toList (feed s cmd).1).isSome = true)
    (message : List (List UInt8)) (hlines : ∀ line ∈ message, 10 ∉ line) :
    (∀ loop : Loop σ, loop.session = (feed s cmd).2 → loop.ended = none →
        transmission message <+: loop.buffer ++ arrives loop.chunks →
        ContentFed (smtpLine feed) loop message) ↔
      ∀ line ∈ message, Harmless (stuff line) := by
  have hdt := hconf.enters s cmd h354
  constructor
  · intro h
    refine harmless_of_contentFed hconf message
      ⟨(feed s cmd).2, false, [], oneByOne (transmission message), none, [], [], none⟩ rfl hdt
      hlines rfl rfl (h _ rfl rfl ?_)
    rw [nil_append, arrives_oneByOne]
  · intro h loop hse hen hsn
    exact contentFed_of_harmless hconf message loop hen (hse ▸ hdt) hlines h hsn

end

/-! ## A session with content -/

def dataFeed (inData : Bool) (line : List UInt8) : Str × Bool :=
  if inData then if line = [46] then ("250 ok\r\n".toList, false) else ([], true)
  else if line = Utf8.encode "DATA".toList then ("354 go\r\n".toList, true)
  else ("250 ok\r\n".toList, false)

theorem dataFeed_conforms : Conforms dataFeed (· = true) where
  enters := by
    intro s line h
    rw [dataFeed] at h ⊢
    split at h
    · split at h <;> cases h
    split at h
    · rename_i hs hln
      rw [if_neg hs, if_pos hln]
    · cases h
  silent := by
    rintro s line rfl hln
    rw [dataFeed, if_pos rfl, if_neg hln]
  stays := by
    rintro s line rfl hln
    rw [dataFeed, if_pos rfl, if_neg hln]

def afterData (message : List (List UInt8)) : Loop Bool where
  session := true
  secured := false
  buffer := []
  chunks := [.data (transmission message)]
  tls := some []
  writes := []
  fed := []
  ended := none

def harmlessContent : List (List UInt8) :=
  ["hello".toList, ".".toList, "STARTTLS is a word".toList].map Utf8.encode

theorem harmlessContent_fed :
    ContentFed (smtpLine dataFeed) (afterData harmlessContent) harmlessContent := by
  refine (content_fed_iff dataFeed _ dataFeed_conforms false (encode "DATA".toList) (by decide) _
    (by decide)).mpr ?_ (afterData harmlessContent) (by decide) rfl (by decide)
  intro line hln
  have hall : ∀ line ∈ harmlessContent, verbOf (decodeLossy (stuff line)) ≠ "QUIT".toList ∧
      (stuff line).getLast? ≠ some 13 ∧ (stuff line).length < 100 := by decide
  obtain ⟨hqt, hcr, hsh⟩ := hall line hln
  exact ⟨hqt, hcr, hsh.trans (by decide)⟩

theorem quit_content_not_fed :
    ¬ ∀ loop : Loop Bool, loop.session = (dataFeed false (encode "DATA".toList)).2 →
        loop.ended = none →
        transmission [encode "quit smoking".toList] <+: loop.buffer ++ arrives loop.chunks →
        ContentFed (smtpLine dataFeed) loop [encode "quit smoking".toList] := by
  intro h
  have hfed := h (afterData [encode "quit smoking".toList]) (by decide) rfl
    (by decide)
  exact absurd (hfed.1 1 (by decide)).1 (by decide)

end VulosRelay.Gateway.LegacyNet
