import KvmRs.FramingProofs

/-! # `read_envelope` on whole streams

    A stream is the list of chunks in which its bytes arrive; where the list
    ends the peer has closed.  `readEnvelope` drives one `read_envelope` to
    its end over such a stream and `readTimes` calls it again and again, as
    every receive loop of the program does.

    The cut into chunks does not matter (`readEnvelope_ready`,
    `readEnvelope_pending`): one call does with the chunks what one poll does
    with all their bytes.  The round trip over lists of envelopes, the
    truncated streams and the hostile payloads then follow from what a poll
    does on the bytes of one frame. -/

namespace KvmFrameStream

open KvmEnvelope KvmFraming ByteCodec

/-- One `read_envelope(&mut stream)` driven to its end: its result, and the
    chunks still unread.  A stream that ends first is an I/O error. -/
def readEnvelope : ReadFuture → List (List UInt8) →
    Except ProtocolError Envelope × List (List UInt8)
  | _, [] => (.error .io, [])
  | f, chunk :: chunks =>
      match pollRead f chunk with
      | (.pending f', _) => readEnvelope f' chunks
      | (.ready r, left) => (r, left :: chunks)

/-- `n` calls in a row: their results, and the chunks still unread. -/
def readTimes : Nat → List (List UInt8) →
    List (Except ProtocolError Envelope) × List (List UInt8)
  | 0, chunks => ([], chunks)
  | n + 1, chunks =>
      let first := readEnvelope .fresh chunks
      let others := readTimes n first.2
      (first.1 :: others.1, others.2)

/-! ## Chunks do not matter -/

/-- A poll over two pieces is a poll over the first, and over the second if
    the future is still pending. -/
theorem pollRead_append :
    ∀ (a b : List UInt8) (f : ReadFuture),
      pollRead f (a ++ b)
        = match pollRead f a with
          | (.pending f', _) => pollRead f' b
          | (.ready r, left) => (.ready r, left ++ b) := by
  intro a b
  induction a with
  | nil => intro f; rfl
  | cons x a ih =>
      intro f
      rw [List.cons_append]
      cases hx : feedByte f x with
      | pending f' =>
          simp only [pollRead, hx]
          exact ih f'
      | ready r => simp only [pollRead, hx]

/-- A call whose bytes resolve the future returns its result and leaves the
    bytes the poll leaves. -/
theorem readEnvelope_ready {r : Except ProtocolError Envelope} :
    ∀ (chunks : List (List UInt8)) (f : ReadFuture) (behind : List UInt8),
      pollRead f chunks.flatten = (.ready r, behind) →
      ∃ left, readEnvelope f chunks = (r, left) ∧ left.flatten = behind := by
  intro chunks
  -- on the chunks: each poll consumes one of them or resolves inside it
  induction chunks with
  | nil => intro f behind h; cases h
  | cons chunk chunks ih =>
      intro f behind h
      rw [List.flatten_cons, pollRead_append] at h
      cases hc : pollRead f chunk with
      | mk fed unread =>
          cases fed with
          | pending f' =>
              simp only [readEnvelope, hc] at h ⊢
              exact ih f' behind h
          | ready r' =>
              simp only [hc, Prod.mk.injEq, Fed.ready.injEq] at h
              obtain ⟨rfl, hbehind⟩ := h
              simp only [readEnvelope, hc]
              exact ⟨unread :: chunks, rfl, hbehind⟩

/-- A call whose bytes run out before the future resolves is an I/O error. -/
theorem readEnvelope_pending :
    ∀ (chunks : List (List UInt8)) (f f' : ReadFuture) (behind : List UInt8),
      pollRead f chunks.flatten = (.pending f', behind) →
      readEnvelope f chunks = (.error .io, []) := by
  intro chunks
  induction chunks with
  | nil => intro f f' behind _; rfl
  | cons chunk chunks ih =>
      intro f f' behind h
      rw [List.flatten_cons, pollRead_append] at h
      cases hc : pollRead f chunk with
      | mk fed unread =>
          cases fed with
          | pending f₁ =>
              simp only [readEnvelope, hc] at h ⊢
              exact ih f₁ f' behind h
          | ready r' =>
              simp only [hc, Prod.mk.injEq, reduceCtorEq, false_and] at h

/-! ## One frame -/

/-- **ONE FRAME**: however a frame and the bytes behind it are cut, the call
    returns what the payload parses to and leaves the bytes behind. -/
theorem readEnvelope_payload {data behind : List UInt8}
    {chunks : List (List UInt8)} (hsize : data.length ≤ MAX_ENVELOPE_SIZE)
    (hflat : chunks.flatten = payloadFrame data ++ behind) :
    ∃ left, readEnvelope .fresh chunks = (deserializeEnvelope data, left) ∧
      left.flatten = behind := by
  have hne : payloadFrame data ≠ [] := by
    intro hnil
    have hlen := payloadFrame_length data
    rw [hnil, List.length_nil] at hlen
    omega
  have hpoll := pollRead_payload hsize (payloadFrame data) [] behind rfl hne
  rw [← hflat] at hpoll
  exact readEnvelope_ready chunks .fresh behind hpoll

/-- A stream that ends inside a frame is an I/O error, with nothing left. -/
theorem readEnvelope_torn {data rest : List UInt8}
    {chunks : List (List UInt8)} (hsize : data.length ≤ MAX_ENVELOPE_SIZE)
    (hcut : chunks.flatten ++ rest = payloadFrame data) (hne : rest ≠ []) :
    readEnvelope .fresh chunks = (.error .io, []) :=
  readEnvelope_pending chunks .fresh _ _
    (pollRead_payload_within hsize chunks.flatten [] rest hcut hne)

/-- A stream with no byte left is an I/O error. -/
theorem readEnvelope_closed {chunks : List (List UInt8)}
    (h : chunks.flatten = []) :
    readEnvelope .fresh chunks = (.error .io, []) := by
  refine readEnvelope_pending chunks .fresh .fresh [] ?_
  rw [h]
  rfl

/-- A length above the limit is refused before any byte of the payload is
    read. -/
theorem readEnvelope_oversized {header behind : List UInt8}
    {chunks : List (List UInt8)} (hlen : header.length = 4)
    (hbig : MAX_ENVELOPE_SIZE < fromBeBytes header)
    (hflat : chunks.flatten = header ++ behind) :
    ∃ left, readEnvelope .fresh chunks = (.error .invalidMessage, left) ∧
      left.flatten = behind := by
  match header, hlen with
  | [a, b, c, d], _ =>
      refine readEnvelope_ready chunks .fresh behind ?_
      rw [hflat]
      simp [pollRead, feedByte, ReadFuture.fresh, startData, hbig]

/-! ## Lists of frames -/

/-- Reading the frames of `done`, whatever comes behind them. -/
theorem readTimes_frames :
    ∀ (done : List Envelope) (n : Nat) (chunks : List (List UInt8))
      (behind : List UInt8),
      (∀ e ∈ done, (envelope.write e).length ≤ MAX_ENVELOPE_SIZE) →
      chunks.flatten = done.flatMap frame ++ behind →
      ∃ left, left.flatten = behind ∧
        readTimes (done.length + n) chunks
          = (done.map .ok ++ (readTimes n left).1, (readTimes n left).2) := by
  intro done n
  induction done with
  | nil =>
      intro chunks behind _ hflat
      refine ⟨chunks, hflat, ?_⟩
      rw [List.length_nil, Nat.zero_add]
      rfl
  | cons e done ih =>
      intro chunks behind hsize hflat
      have he : (envelope.write e).length ≤ MAX_ENVELOPE_SIZE :=
        hsize e List.mem_cons_self
      rw [List.flatMap_cons, List.append_assoc] at hflat
      obtain ⟨left₁, hread, hleft₁⟩ := readEnvelope_payload he hflat
      rw [deserialize_write e he] at hread
      obtain ⟨left, hleft, hothers⟩ :=
        ih left₁ behind (fun x hx => hsize x (List.mem_cons_of_mem e hx)) hleft₁
      refine ⟨left, hleft, ?_⟩
      rw [List.length_cons, Nat.add_right_comm]
      simp only [readTimes, hread, hothers, List.map_cons, List.cons_append]

/-- A cut through a list of frames falls inside one of them. -/
theorem cut_frames :
    ∀ (es : List Envelope) (pre missing : List UInt8),
      pre ++ missing = es.flatMap frame → missing ≠ [] →
      ∃ done e torn part rest, es = done ++ e :: torn ∧
        pre = done.flatMap frame ++ part ∧ part ++ rest = frame e ∧
        rest ≠ [] := by
  intro es
  -- on the frames: the cut is in the first one or shifted by its length
  induction es with
  | nil =>
      intro pre missing h hne
      exact absurd (List.append_eq_nil_iff.mp h).2 hne
  | cons e es ih =>
      intro pre missing h hne
      rw [List.flatMap_cons] at h
      by_cases hlt : pre.length < (frame e).length
      · -- inside the first frame
        rcases List.append_eq_append_iff.mp h with
          ⟨rest, hfr, -⟩ | ⟨behind, hpre, -⟩
        · refine ⟨[], e, es, pre, rest, rfl, rfl, hfr.symm, ?_⟩
          intro hnil
          rw [hfr, hnil, List.append_nil] at hlt
          omega
        · rw [hpre, List.length_append] at hlt
          omega
      · -- behind it
        have hbehind : ∃ behind, pre = frame e ++ behind ∧
            behind ++ missing = es.flatMap frame := by
          rcases List.append_eq_append_iff.mp h with
            ⟨rest, hfr, hmiss⟩ | ⟨behind, hpre, hrest⟩
          · have hnil : rest = [] := by
              rw [hfr, List.length_append] at hlt
              exact List.length_eq_zero_iff.mp (by omega)
            subst hnil
            rw [List.append_nil] at hfr
            exact ⟨[], by rw [hfr, List.append_nil], hmiss⟩
          · exact ⟨behind, hpre, hrest.symm⟩
        obtain ⟨behind, hpre, hmiss⟩ := hbehind
        obtain ⟨done, e', torn, part, rest, hes, hpart, hcut, hrest⟩ :=
          ih behind missing hmiss hne
        refine ⟨e :: done, e', torn, part, rest, ?_, ?_, hcut, hrest⟩
        · rw [hes, List.cons_append]
        · rw [hpre, hpart, List.flatMap_cons, List.append_assoc]

/-- `serialize_envelope` fails exactly on an oversized payload. -/
theorem serializeEnvelope_error_iff (e : Envelope) :
    (∃ err, serializeEnvelope e = .error err) ↔
      MAX_ENVELOPE_SIZE < (envelope.write e).length := by
  by_cases hl : MAX_ENVELOPE_SIZE < (envelope.write e).length
  · refine iff_of_true ⟨.invalidMessage, ?_⟩ hl
    simp only [serializeEnvelope, if_pos hl]
  · refine iff_of_false ?_ hl
    rintro ⟨err, herr⟩
    simp only [serializeEnvelope, if_neg hl, reduceCtorEq] at herr

/-- **FRAMING ROUND TRIP**: over any cut into chunks, reading gives back
    exactly the envelopes whose frames have arrived whole, and an error where
    the stream ends; only an oversized payload cannot be sent, and its length
    is refused on the other side too. -/
theorem framing_round_trip :
    (∀ (es : List Envelope) (stream : List UInt8) (chunks : List (List UInt8)),
      sendAll es = .ok stream → chunks.flatten = stream →
      ∃ left, readTimes es.length chunks = (es.map .ok, left) ∧
        left.flatten = [] ∧ readEnvelope .fresh left = (.error .io, [])) ∧
    (∀ (es : List Envelope) (stream missing : List UInt8)
      (chunks : List (List UInt8)),
      sendAll es = .ok stream → chunks.flatten ++ missing = stream →
      missing ≠ [] →
      ∃ done e torn part rest, es = done ++ e :: torn ∧
        chunks.flatten = done.flatMap frame ++ part ∧
        part ++ rest = frame e ∧ rest ≠ [] ∧
        readTimes (done.length + 1) chunks
          = (done.map .ok ++ [.error .io], [])) ∧
    (∀ e : Envelope, (∃ err, serializeEnvelope e = .error err) ↔
      MAX_ENVELOPE_SIZE < (envelope.write e).length) ∧
    (∀ (header behind : List UInt8) (chunks : List (List UInt8)),
      header.length = 4 → MAX_ENVELOPE_SIZE < fromBeBytes header →
      chunks.flatten = header ++ behind →
      ∃ left, readEnvelope .fresh chunks = (.error .invalidMessage, left) ∧
        left.flatten = behind) := by
  refine ⟨?_, ?_, serializeEnvelope_error_iff, ?_⟩
  · intro es stream chunks hsend hflat
    obtain ⟨hsize, hstream⟩ := sendAll_ok hsend
    have hcat : chunks.flatten = es.flatMap frame ++ [] := by
      rw [hflat, hstream, List.append_nil]
    obtain ⟨left, hleft, hread⟩ := readTimes_frames es 0 chunks [] hsize hcat
    refine ⟨left, ?_, hleft, readEnvelope_closed hleft⟩
    rw [show readTimes 0 left = ([], left) from rfl, List.append_nil] at hread
    exact hread
  · intro es stream missing chunks hsend hflat hne
    obtain ⟨hsize, hstream⟩ := sendAll_ok hsend
    obtain ⟨done, e, torn, part, rest, hes, hpre, hcut, hrest⟩ :=
      cut_frames es chunks.flatten missing (by rw [hflat, hstream]) hne
    have hdone : ∀ x ∈ done, (envelope.write x).length ≤ MAX_ENVELOPE_SIZE := by
      intro x hx
      refine hsize x ?_
      rw [hes]
      exact List.mem_append_left _ hx
    have he : (envelope.write e).length ≤ MAX_ENVELOPE_SIZE := by
      refine hsize e ?_
      rw [hes]
      exact List.mem_append_right _ List.mem_cons_self
    obtain ⟨left, hleft, hread⟩ := readTimes_frames done 1 chunks part hdone hpre
    have hcut' : left.flatten ++ rest = payloadFrame (envelope.write e) := by
      rw [hleft]
      exact hcut
    -- the read after the last whole frame finds only a part of the next
    have htorn := readEnvelope_torn he hcut' hrest
    refine ⟨done, e, torn, part, rest, hes, hpre, hcut, hrest, ?_⟩
    rw [hread]
    simp only [readTimes, htorn]
  · intro header behind chunks hlen hbig hflat
    exact readEnvelope_oversized hlen hbig hflat

/-- The round trip at two envelopes whose frames arrive in three pieces, and
    at the same stream without its last byte. -/
theorem framing_round_trip_two :
    (∃ left, readTimes 2 [[0, 0, 0], [5, 5, 0, 0, 0, 1, 0, 0, 0, 5, 5, 0],
        [0, 0, 0]]
      = ([.ok (.toggleForward true), .ok (.toggleForward false)], left) ∧
        left.flatten = [] ∧ readEnvelope .fresh left = (.error .io, [])) ∧
    (∃ done e torn part rest,
      [Envelope.toggleForward true, .toggleForward false] = done ++ e :: torn ∧
        [[0, 0, 0], [5, 5, 0, 0, 0, 1, 0, 0, 0, 5, 5, 0], [0, 0]].flatten
          = done.flatMap frame ++ part ∧
        part ++ rest = frame e ∧ rest ≠ [] ∧
        readTimes (done.length + 1)
          [[0, 0, 0], [5, 5, 0, 0, 0, 1, 0, 0, 0, 5, 5, 0], [0, 0]]
          = (done.map .ok ++ [.error .io], [])) :=
  ⟨framing_round_trip.1 [.toggleForward true, .toggleForward false] _ _
      rfl rfl,
    framing_round_trip.2.1 [.toggleForward true, .toggleForward false] _ [0] _
      rfl rfl (by decide)⟩

/-! ## Hostile payloads -/

/-- An accepted payload starts with the canonical writing of its envelope. -/
theorem deserialize_canonical {b : List UInt8} {e : Envelope}
    (h : deserializeEnvelope b = .ok e) :
    ∃ ignored, b = envelope.write e ++ ignored := by
  cases hp : envelope.parse b with
  | none => simp only [deserializeEnvelope, hp, reduceCtorEq] at h
  | some r =>
      obtain ⟨e', ignored⟩ := r
      simp only [deserializeEnvelope, hp, Except.ok.injEq] at h
      subst h
      exact ⟨ignored, envelope.write_parse b e' ignored hp⟩

/-- **CANONICAL FRAMES**: an accepted payload, however hostile, is the
    encoding of its envelope followed by ignored bytes, and one call consumes
    exactly the frame around a payload, accepted or not. -/
theorem accepted_payload_is_canonical (b : List UInt8)
    (hsize : b.length ≤ MAX_ENVELOPE_SIZE) :
    (∀ e, deserializeEnvelope b = .ok e →
      ∃ payload ignored,
        serializeEnvelope e = .ok (toBeBytes payload.length ++ payload) ∧
        b = payload ++ ignored) ∧
    (∀ (behind : List UInt8) (chunks : List (List UInt8)),
      chunks.flatten = toBeBytes b.length ++ b ++ behind →
      ∃ left, readEnvelope .fresh chunks = (deserializeEnvelope b, left) ∧
        left.flatten = behind ∧
        chunks.flatten.length = (4 + b.length) + left.flatten.length) := by
  refine ⟨?_, ?_⟩
  · intro e he
    obtain ⟨ignored, hb⟩ := deserialize_canonical he
    refine ⟨envelope.write e, ignored, ?_, hb⟩
    have hle : (envelope.write e).length ≤ b.length := by
      rw [hb, List.length_append]
      omega
    simp only [serializeEnvelope]
    rw [if_neg (by omega)]
  · intro behind chunks hflat
    obtain ⟨left, hread, hleft⟩ := readEnvelope_payload hsize hflat
    refine ⟨left, hread, hleft, ?_⟩
    rw [hflat, hleft, List.length_append, List.length_append, toBeBytes_length]

/-- A flag and two bytes behind it, then a flag byte that is neither. -/
theorem accepted_payload_is_canonical_toggle :
    (∃ payload ignored,
      serializeEnvelope (.toggleForward true)
        = .ok (toBeBytes payload.length ++ payload) ∧
      ([5, 0, 0, 0, 1, 9, 9] : List UInt8) = payload ++ ignored) ∧
    (∃ left, readEnvelope .fresh [[0, 0, 0, 5, 5], [0, 0, 0, 2, 7]]
        = (deserializeEnvelope [5, 0, 0, 0, 2], left) ∧
      left.flatten = [7] ∧
      [[0, 0, 0, 5, 5], [0, 0, 0, 2, 7]].flatten.length
        = (4 + 5) + left.flatten.length) :=
  ⟨(accepted_payload_is_canonical [5, 0, 0, 0, 1, 9, 9] (by decide)).1
      (.toggleForward true) rfl,
    (accepted_payload_is_canonical [5, 0, 0, 0, 2] (by decide)).2 [7] _ rfl⟩

end KvmFrameStream
