/-
# Frames and messages

What `Message::decode` accepts, and what survives a frame. A frame is a
payload and one tag byte, with no length of its own, so the decoder can only
refuse what it can see: no tag, a tag of no message, a text that is not one,
a batch header that is cut short or outside the limits, an address list that
is too long. Everything it accepts is a message within the limits
(`within_of_decode`), and every such message survives its frame
(`decode_encode_of_within`).

The texts are RON's business. What is needed of them is `TextsSurvive`.
-/
import Rshyve.Migrate.Proofs.RamTransfer

namespace Rshyve.Migrate

variable {out : Outside}

/-- The two kinds of text a frame carries come back as they went in. -/
structure TextsSurvive (out : Outside) : Prop where
  error : out.error.Survives
  gpas : out.gpas.Survives

/-- The limits of the protocol. The base of a batch is a `u64`. -/
def Message.WithinLimits : Message → Prop
  | .pageBatch base count flags _ =>
    base < 2 ^ 64 ∧ 1 ≤ count ∧ count ≤ maxPagesPerBatch ∧ unknownFlags flags = false
  | .memFetch gpas => gpas.length ≤ maxSparseGpas
  | _ => True

instance : DecidablePred Message.WithinLimits
  | .pageBatch .. => inferInstanceAs (Decidable (_ ∧ _ ∧ _ ∧ _))
  | .memFetch _ => inferInstanceAs (Decidable (_ ≤ _))
  | .okay | .error _ | .serialized _ | .memEnd | .memDone | .pauseSignal =>
    isTrue trivial

-- ==== the accepted frames

/-- The page count and the flags of a batch header are within the limits. -/
def HeaderFits (payload : List UInt8) : Prop :=
  16 ≤ payload.length ∧ 1 ≤ Bytes.ofLe ((payload.drop 8).take 4) ∧
    Bytes.ofLe ((payload.drop 8).take 4) ≤ maxPagesPerBatch ∧
    unknownFlags (Bytes.ofLe ((payload.drop 12).take 4)) = false

/-- What the decoder asks of the payload before each tag. -/
def Readable (out : Outside) (payload : List UInt8) (tag : UInt8) : Prop :=
  match tag.toNat with
  | 0 | 2 | 9 | 10 | 12 => True
  | 1 => ∃ e, out.error.de payload = .ok e
  | 7 => ∃ gpas, out.gpas.de payload = .ok gpas ∧ gpas.length ≤ maxSparseGpas
  | 11 => HeaderFits payload
  | _ => False

variable {payload : List UInt8} {m : Message}

theorem decodePageBatch_iff : decodePageBatch payload = .ok m ↔ HeaderFits payload ∧
        m = .pageBatch (Bytes.ofLe (payload.take 8)) (Bytes.ofLe ((payload.drop 8).take 4))
          (Bytes.ofLe ((payload.drop 12).take 4)) (payload.drop 16) := by
  unfold decodePageBatch HeaderFits
  generalize Bytes.ofLe ((payload.drop 8).take 4) = count
  generalize Bytes.ofLe ((payload.drop 12).take 4) = flags
  by_cases hshort : payload.length < 16
  · rw [if_pos hshort]
    exact ⟨fun h => (nomatch h), fun h => absurd h.1.1 (by omega)⟩
  rw [if_neg hshort]
  by_cases hcount : count = 0 ∨ count > maxPagesPerBatch
  · rw [if_pos hcount]
    exact ⟨fun h => (nomatch h), fun h => absurd hcount (by omega)⟩
  rw [if_neg hcount]
  cases hflags : unknownFlags flags with
  | true => exact ⟨fun h => (nomatch h), fun h => (nomatch h.1.2.2.2)⟩
  | false =>
    constructor
    · intro h
      cases h
      exact ⟨⟨by omega, by omega, by omega, rfl⟩, rfl⟩
    · rintro ⟨-, rfl⟩
      rfl

theorem decodeMemFetch_iff : decodeMemFetch out payload = .ok m ↔
      ∃ gpas, out.gpas.de payload = .ok gpas ∧
        gpas.length ≤ maxSparseGpas ∧ m = .memFetch gpas := by
  unfold decodeMemFetch
  cases hde : out.gpas.de payload with
  | error e => exact ⟨fun h => (nomatch h), fun ⟨_, h, _⟩ => (nomatch h)⟩
  | ok gpas =>
    dsimp only
    by_cases hlen : gpas.length > maxSparseGpas
    · rw [if_pos hlen]
      refine ⟨fun h => (nomatch h), ?_⟩
      rintro ⟨_, heq, hle, -⟩
      cases heq
      omega
    · rw [if_neg hlen]
      constructor
      · intro h
        cases h
        exact ⟨gpas, rfl, by omega, rfl⟩
      · rintro ⟨_, heq, -, rfl⟩
        cases heq
        rfl

/-- A frame is accepted exactly when its payload is what its tag asks for. -/
theorem decode_snoc_isOk {tag : UInt8} :
    (∃ m, decode out (payload ++ [tag]) = .ok m) ↔ Readable out payload tag := by
  have hlast : (payload ++ [tag]).getLast? = some tag := by simp
  have hdrop : (payload ++ [tag]).dropLast = payload := by simp
  unfold decode Readable
  rw [hlast, hdrop]
  dsimp only
  generalize tag.toNat = t
  split
  case h_2 =>
    cases out.error.de payload with
    | error e => exact ⟨fun ⟨_, h⟩ => (nomatch h), fun ⟨_, h⟩ => (nomatch h)⟩
    | ok e => exact ⟨fun _ => ⟨e, rfl⟩, fun _ => ⟨_, rfl⟩⟩
  case h_4 =>
    simp only [decodeMemFetch_iff]
    exact ⟨fun ⟨_, g, hg, hle, _⟩ => ⟨g, hg, hle⟩, fun ⟨g, hg, hle⟩ => ⟨_, g, hg, hle, rfl⟩⟩
  case h_7 =>
    simp only [decodePageBatch_iff]
    exact ⟨fun ⟨_, h, _⟩ => h, fun h => ⟨_, h, rfl⟩⟩
  case h_9 =>
    refine ⟨fun ⟨_, h⟩ => (nomatch h), fun h => ?_⟩
    split at h <;> contradiction
  all_goals exact ⟨fun _ => trivial, fun _ => ⟨_, rfl⟩⟩

-- ==== the round trips

/-- Whatever is accepted is within the limits. -/
theorem within_of_decode {f : List UInt8} (h : decode out f = .ok m) : m.WithinLimits := by
  unfold decode at h
  split at h
  · cases h
  dsimp only at h
  split at h
  case h_2 =>
    split at h
    · cases h
    · cases h
      trivial
  case h_4 =>
    obtain ⟨gpas, -, hle, rfl⟩ := decodeMemFetch_iff.mp h
    exact hle
  case h_7 =>
    obtain ⟨⟨-, hlow, hhigh, hflags⟩, rfl⟩ := decodePageBatch_iff.mp h
    refine ⟨?_, hlow, hhigh, hflags⟩
    calc Bytes.ofLe (f.dropLast.take 8) < 256 ^ (f.dropLast.take 8).length := Bytes.ofLe_lt _
      _ ≤ 256 ^ 8 := Nat.pow_le_pow_right (by decide) (List.length_take_le _ _)
  case h_9 => cases h
  all_goals
    cases h
    trivial

/-- A message within the limits survives its frame. -/
theorem decode_encode_of_within (htext : TextsSurvive out) (hm : m.WithinLimits) :
    decode out (encode out m) = .ok m := by
  rw [decode_encode]
  cases m with
  | error e =>
    obtain ⟨d, hser, hde⟩ := htext.error e
    simp only [Message.payload, hser, hde]
  | memFetch gpas =>
    obtain ⟨d, hser, hde⟩ := htext.gpas gpas
    simp only [Message.payload, hser]
    exact decodeMemFetch_iff.mpr ⟨gpas, hde, hm, rfl⟩
  | pageBatch base count flags data =>
    obtain ⟨hbase, hlow, hhigh, hflags⟩ := hm
    have hsmall : flags < 2 := by
      simp only [unknownFlags, bne_eq_false_iff_eq] at hflags
      omega
    exact decodePageBatch_payload hbase hlow hhigh hsmall
  | okay => rfl
  | serialized d => rfl
  | memEnd => rfl
  | memDone => rfl
  | pauseSignal => rfl

/-- A tag is the tag of one kind of message. -/
theorem tag_eq_iff_name (m m' : Message) : m.tag = m'.tag ↔ m.name = m'.name := by
  cases m <;> cases m' <;> simp [Message.tag, Message.name]

/-- Decoding fails or gives a message that survives its own frame; so does
every message within the limits; tags and kinds correspond; and a frame is
accepted exactly when it has a tag and its payload is what that tag asks for.
-/
theorem frames_round_trip (htext : TextsSurvive out) :
    (∀ f m, decode out f = .ok m → decode out (encode out m) = .ok m) ∧
    (∀ m : Message, m.WithinLimits → decode out (encode out m) = .ok m) ∧
    (∀ f f' m m', decode out f = .ok m → decode out f' = .ok m' →
      (f.getLast? = f'.getLast? ↔ m.name = m'.name)) ∧
    (∀ f, (∃ m, decode out f = .ok m) ↔
      ∃ payload tag, f = payload ++ [tag] ∧ Readable out payload tag) := by
  refine ⟨?_, fun m => decode_encode_of_within htext, ?_, ?_⟩
  · intro f m h
    exact decode_encode_of_within htext (within_of_decode h)
  · intro f f' m m' h h'
    rw [getLast_of_decode h, getLast_of_decode h', Option.some_inj]
    exact tag_eq_iff_name m m'
  · intro f
    rcases List.eq_nil_or_concat f with rfl | ⟨payload, tag, rfl⟩
    · refine ⟨fun ⟨_, h⟩ => (nomatch h), ?_⟩
      rintro ⟨payload, tag, h, -⟩
      exact absurd h.symm (by simp)
    · rw [List.concat_eq_append, decode_snoc_isOk]
      constructor
      · intro h
        exact ⟨payload, tag, rfl, h⟩
      · rintro ⟨p, t, hsplit, h⟩
        obtain ⟨rfl, hlast⟩ := List.append_inj' hsplit rfl
        cases hlast
        exact h

-- ==== a codec that loses nothing

/-- The characters of a text as numbers, and back. -/
def codes (s : String) : List Nat := s.toList.map Char.toNat
def ofCodes (cs : List Nat) : String := String.ofList (cs.map Char.ofNat)

theorem ofCodes_codes (s : String) : ofCodes (codes s) = s := by
  simp [ofCodes, codes, List.map_map, Function.comp_def]

/-- An error as numbers: its variant, then its texts. -/
def errorCodes : MigrateError → List Nat
  | .protocolMismatch t => 0 :: codes t
  | .preambleMismatch t => 1 :: codes t
  | .unexpectedMessage e g => 2 :: (codes e).length :: (codes e ++ codes g)
  | .codec t => 3 :: codes t
  | .webSocket t => 4 :: codes t
  | .io t => 5 :: codes t
  | .vmmData t => 6 :: codes t
  | .state t => 7 :: codes t
  | .remoteError t => 8 :: codes t
  | .phase t => 9 :: codes t
  | .committed t => 10 :: codes t

def ofErrorCodes : List Nat → Except TextError MigrateError
  | 0 :: t => .ok (.protocolMismatch (ofCodes t))
  | 1 :: t => .ok (.preambleMismatch (ofCodes t))
  | 2 :: n :: t =>
    .ok (.unexpectedMessage (ofCodes (t.take n)) (ofCodes (t.drop n)))
  | 3 :: t => .ok (.codec (ofCodes t))
  | 4 :: t => .ok (.webSocket (ofCodes t))
  | 5 :: t => .ok (.io (ofCodes t))
  | 6 :: t => .ok (.vmmData (ofCodes t))
  | 7 :: t => .ok (.state (ofCodes t))
  | 8 :: t => .ok (.remoteError (ofCodes t))
  | 9 :: t => .ok (.phase (ofCodes t))
  | 10 :: t => .ok (.committed (ofCodes t))
  | _ => .error (.ron "")

theorem ofErrorCodes_errorCodes (e : MigrateError) : ofErrorCodes (errorCodes e) = .ok e := by
  cases e <;> simp [errorCodes, ofErrorCodes, ofCodes_codes]

/-- Texts in unary. -/
def unaryOutside : Outside :=
  { Session.bareOutside with
    gpas := Session.unaryGpas
    error :=
      ⟨fun e => .ok (Session.unary (errorCodes e)), fun d => ofErrorCodes (Session.ofUnary 0 d)⟩ }

theorem unaryOutside_survive : TextsSurvive unaryOutside where
  error e := by
    refine ⟨_, rfl, ?_⟩
    show ofErrorCodes (Session.ofUnary 0 (Session.unary (errorCodes e))) = _
    rw [Session.ofUnary_unary, ofErrorCodes_errorCodes]
  gpas := Session.unaryGpas_survives

/-- A sparse address list and a compressed batch through their frames. -/
theorem frames_round_trip_unary :
    decode unaryOutside (encode unaryOutside (.memFetch [3, 1])) =
      .ok (.memFetch [3, 1]) ∧
    decode unaryOutside (encode unaryOutside (.pageBatch 0x8000 2 1 [7])) =
      .ok (.pageBatch 0x8000 2 1 [7]) := by
  obtain ⟨-, hround, -, -⟩ := frames_round_trip unaryOutside_survive
  exact ⟨hround _ (by decide), hround _ (by decide)⟩

/-- An acknowledgement with a byte too many is an acknowledgement, and the
frame of a batch without its last byte is a frame of another kind: the byte
that is last now is taken for the tag. -/
theorem cut_and_stretched_accepted :
    decode Session.bareOutside (0x55 :: encode Session.bareOutside .okay) =
      .ok .okay ∧
    decode Session.bareOutside
        (encode Session.bareOutside (.pageBatch 0 1 0 [2])).dropLast =
      .ok (.serialized (Bytes.le 8 0 ++ Bytes.le 4 1 ++ Bytes.le 4 0)) := by
  decide

end Rshyve.Migrate
