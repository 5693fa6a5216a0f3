import KvmRs.EnvelopeProofs

/-! # `read_envelope` as a resumable future

    `read_envelope` is two `read_exact` calls: four length bytes, then the
    payload.  Between polls it holds what those calls have consumed so far,
    and it never reads past the end of its frame.  `ReadFuture` is that state
    and `pollRead` one poll against the bytes that happen to be available.

    The state after some bytes of an unfinished frame is a function of those
    bytes alone (`after`), so the lemmas below say what a poll does on any
    cut of a frame: a cut short of the end leaves the future pending with
    those bytes inside it (`pollRead_within`), and the last byte of the frame
    resolves it (`pollRead_frame`). -/

namespace KvmFraming

open KvmEnvelope ByteCodec

/-- A `read_envelope` call that has not resolved yet. -/
inductive ReadFuture where
  /-- inside `read_exact(&mut len_buf)` -/
  | lenBuf (got : List UInt8)
  /-- inside `read_exact(&mut data)` for a payload of `len` bytes -/
  | dataBuf (len : Nat) (got : List UInt8)
  deriving DecidableEq

/-- The future of a fresh `read_envelope(&mut stream)`. -/
def ReadFuture.fresh : ReadFuture := .lenBuf []

/-- What a future does with one more byte: stay pending, or resolve. -/
inductive Fed where
  | pending (f : ReadFuture)
  | ready (r : Except ProtocolError Envelope)
  deriving DecidableEq

/-- All four length bytes are there: refuse an oversized frame, otherwise go
    on to the payload (an empty one needs no further byte). -/
def startData (len : Nat) : Fed :=
  if MAX_ENVELOPE_SIZE < len then .ready (.error .invalidMessage)
  else if len = 0 then .ready (deserializeEnvelope [])
  else .pending (.dataBuf len [])

def feedByte : ReadFuture → UInt8 → Fed
  | .lenBuf got, b =>
      if (got ++ [b]).length < 4 then .pending (.lenBuf (got ++ [b]))
      else startData (fromBeBytes (got ++ [b]))
  | .dataBuf len got, b =>
      if (got ++ [b]).length < len then .pending (.dataBuf len (got ++ [b]))
      else .ready (deserializeEnvelope (got ++ [b]))

/-- One poll: consume available bytes until the future resolves or they run
    out.  Returns what is left unread. -/
def pollRead : ReadFuture → List UInt8 → Fed × List UInt8
  | f, [] => (.pending f, [])
  | f, b :: bs =>
      match feedByte f b with
      | .pending f' => pollRead f' bs
      | .ready r => (.ready r, bs)

/-! ## Frames -/

/-- The frame of an envelope that is short enough to be sent. -/
def frame (e : Envelope) : List UInt8 :=
  toBeBytes (envelope.write e).length ++ envelope.write e

/-- The bytes a sender puts on the stream for a list of envelopes. -/
def sendAll : List Envelope → Except ProtocolError (List UInt8)
  | [] => .ok []
  | e :: es =>
      match serializeEnvelope e with
      | .error err => .error err
      | .ok bytes =>
          match sendAll es with
          | .error err => .error err
          | .ok rest => .ok (bytes ++ rest)

/-- A stream that could be sent is the concatenation of its frames. -/
theorem sendAll_ok {es : List Envelope} :
    ∀ {stream : List UInt8}, sendAll es = .ok stream →
      (∀ e ∈ es, (envelope.write e).length ≤ MAX_ENVELOPE_SIZE) ∧
        stream = es.flatMap frame := by
  induction es with
  | nil =>
      intro stream h
      refine ⟨fun e he => (nomatch he), ?_⟩
      exact (Except.ok.inj h).symm
  | cons e es ih =>
      intro stream h
      cases hs : serializeEnvelope e with
      | error err => simp only [sendAll, hs] at h; cases h
      | ok bytes =>
          cases hr : sendAll es with
          | error err => simp only [sendAll, hs, hr] at h; cases h
          | ok rest =>
              simp only [sendAll, hs, hr] at h
              obtain ⟨hle, hfr⟩ := serialize_ok hs
              obtain ⟨hall, hrest⟩ := ih hr
              refine ⟨?_, ?_⟩
              · intro x hx
                rcases List.mem_cons.mp hx with heq | hmem
                · exact heq ▸ hle
                · exact hall x hmem
              · rw [← Except.ok.inj h, List.flatMap_cons, hrest, hfr]
                rfl

theorem frame_length (e : Envelope) :
    (frame e).length = 4 + (envelope.write e).length := by
  simp [frame]

/-! ## The future on the bytes of one frame -/

/-- The future after the bytes `p` of an unfinished frame. -/
def after (p : List UInt8) : ReadFuture :=
  if p.length < 4 then .lenBuf p
  else .dataBuf (fromBeBytes (p.take 4)) (p.drop 4)

@[simp] theorem after_nil : after [] = ReadFuture.fresh := rfl

/-- Only a future that has consumed nothing is the fresh one. -/
theorem after_eq_fresh {p : List UInt8} (h : after p = ReadFuture.fresh) :
    p = [] := by
  by_cases hp : p.length < 4
  · simp only [after, if_pos hp, ReadFuture.fresh, ReadFuture.lenBuf.injEq] at h
    exact h
  · simp only [after, if_neg hp, ReadFuture.fresh, reduceCtorEq] at h

/-- The frame `send_envelope` would put around a payload. -/
def payloadFrame (data : List UInt8) : List UInt8 :=
  toBeBytes data.length ++ data

theorem payloadFrame_length (data : List UInt8) :
    (payloadFrame data).length = 4 + data.length := by
  simp [payloadFrame]

/-- The first four bytes of a frame are its length. -/
private theorem take_payloadFrame {data p q : List UInt8}
    (h : p ++ q = payloadFrame data) (hp : 4 ≤ p.length) :
    p.take 4 = toBeBytes data.length ∧ p.drop 4 ++ q = data := by
  have h4 : (toBeBytes data.length).length = 4 := toBeBytes_length _
  have ht : (p ++ q).take 4 = p.take 4 := List.take_append_of_le_length hp
  have hd : (p ++ q).drop 4 = p.drop 4 ++ q := List.drop_append_of_le_length hp
  have hft : (payloadFrame data).take 4 = toBeBytes data.length :=
    List.take_left' h4
  have hfd : (payloadFrame data).drop 4 = data := List.drop_left' h4
  rw [h, hft] at ht
  rw [h, hfd] at hd
  exact ⟨ht.symm, hd.symm⟩

/-- One more byte of a frame around any payload, well-formed or not. -/
theorem feedByte_payload {data p q : List UInt8} {b : UInt8}
    (hsize : data.length ≤ MAX_ENVELOPE_SIZE)
    (h : p ++ b :: q = payloadFrame data) :
    feedByte (after p) b
      = if q = [] then .ready (deserializeEnvelope data)
        else .pending (after (p ++ [b])) := by
  have hlen : p.length + (q.length + 1) = 4 + data.length := by
    rw [← payloadFrame_length data, ← h, List.length_append, List.length_cons]
  have hpb : (p ++ [b]).length = p.length + 1 := by simp
  have hmax : MAX_ENVELOPE_SIZE < 2 ^ 32 := by decide
  have hpbq : (p ++ [b]) ++ q = payloadFrame data := by
    rw [List.append_assoc, List.singleton_append]; exact h
  by_cases hp : p.length < 4
  · -- still inside the length bytes
    simp only [after, if_pos hp, feedByte]
    by_cases hp' : (p ++ [b]).length < 4
    · have hq : q ≠ [] := by
        intro hq
        rw [hq, List.length_nil] at hlen
        omega
      rw [if_pos hp', if_pos hp', if_neg hq]
    · rw [if_neg hp', if_neg hp']
      obtain ⟨ht, hd⟩ := take_payloadFrame hpbq (by omega)
      have hfull : (p ++ [b]).take 4 = p ++ [b] :=
        List.take_of_length_le (by omega)
      have hdrop : (p ++ [b]).drop 4 = [] :=
        List.drop_of_length_le (by omega)
      have hval : fromBeBytes (p ++ [b]) = data.length := by
        rw [← hfull, ht]
        exact fromBeBytes_toBeBytes (by omega)
      rw [hdrop, List.nil_append] at hd
      rw [hfull, hdrop, hval]
      simp only [startData]
      rw [if_neg (by omega)]
      by_cases hq : q = []
      · -- an empty payload: the fourth length byte is the frame's last
        have hnil : data = [] := by rw [← hd, hq]
        rw [if_pos hq, if_pos (by rw [hnil, List.length_nil]), hnil]
      · have hpos : 0 < q.length := List.length_pos_iff.mpr hq
        rw [if_neg hq, if_neg (by omega)]
  · -- inside the payload
    obtain ⟨ht, hd⟩ := take_payloadFrame h (by omega)
    have hval : fromBeBytes (p.take 4) = data.length := by
      rw [ht]
      exact fromBeBytes_toBeBytes (by omega)
    have hpb4 : ¬ (p ++ [b]).length < 4 := by omega
    have htake : (p ++ [b]).take 4 = p.take 4 :=
      List.take_append_of_le_length (by omega)
    have hdrop : (p ++ [b]).drop 4 = p.drop 4 ++ [b] :=
      List.drop_append_of_le_length (by omega)
    have hgot : (p.drop 4 ++ [b]).length = p.length - 4 + 1 := by simp
    simp only [after, if_neg hp, if_neg hpb4, feedByte, hval, htake, hdrop]
    by_cases hq : q = []
    · rw [if_pos hq]
      rw [hq, List.length_nil] at hlen
      rw [if_neg (by omega)]
      rw [hq] at hd
      rw [hd]
    · rw [if_neg hq]
      have hqpos : 0 < q.length := List.length_pos_iff.mpr hq
      rw [if_pos (by omega)]

/-- A cut short of the end of the frame leaves the future pending with the
    bytes inside it. -/
theorem pollRead_payload_within {data : List UInt8}
    (hsize : data.length ≤ MAX_ENVELOPE_SIZE) :
    ∀ (q p rest : List UInt8), p ++ q ++ rest = payloadFrame data →
      rest ≠ [] →
      pollRead (after p) q = (.pending (after (p ++ q)), []) := by
  intro q
  induction q with
  | nil =>
      intro p rest _ _
      rw [List.append_nil]
      rfl
  | cons b q ih =>
      intro p rest h hne
      have hb : p ++ b :: (q ++ rest) = payloadFrame data := by
        rw [← h]
        simp
      have hqr : q ++ rest ≠ [] := by
        intro hnil
        exact hne (List.append_eq_nil_iff.mp hnil).2
      have hfeed := feedByte_payload hsize hb
      rw [if_neg hqr] at hfeed
      have hih := ih (p ++ [b]) rest (by rw [← h]; simp) hne
      simp only [pollRead, hfeed]
      rw [hih]
      simp

/-- The rest of the frame resolves the future to what its payload parses to,
    and the bytes behind the frame stay unread. -/
theorem pollRead_payload {data : List UInt8}
    (hsize : data.length ≤ MAX_ENVELOPE_SIZE) :
    ∀ (q p rest : List UInt8), p ++ q = payloadFrame data → q ≠ [] →
      pollRead (after p) (q ++ rest)
        = (.ready (deserializeEnvelope data), rest) := by
  intro q
  induction q with
  | nil => intro p rest _ hne; exact absurd rfl hne
  | cons b q ih =>
      intro p rest h _
      have hfeed := feedByte_payload hsize h
      by_cases hq : q = []
      · rw [if_pos hq] at hfeed
        subst hq
        simp only [List.cons_append, List.nil_append, pollRead, hfeed]
      · rw [if_neg hq] at hfeed
        simp only [List.cons_append, pollRead, hfeed]
        exact ih (p ++ [b]) rest (by rw [← h]; simp) hq

/-! ## The frames of envelopes -/

/-- A cut short of the end of an envelope's frame. -/
theorem pollRead_within {e : Envelope}
    (hsize : (envelope.write e).length ≤ MAX_ENVELOPE_SIZE) :
    ∀ (q p rest : List UInt8), p ++ q ++ rest = frame e → rest ≠ [] →
      pollRead (after p) q = (.pending (after (p ++ q)), []) :=
  pollRead_payload_within hsize

/-- The rest of the frame resolves the future to its envelope, and the bytes
    behind the frame stay unread. -/
theorem pollRead_frame {e : Envelope}
    (hsize : (envelope.write e).length ≤ MAX_ENVELOPE_SIZE) :
    ∀ (q p rest : List UInt8), p ++ q = frame e → q ≠ [] →
      pollRead (after p) (q ++ rest) = (.ready (.ok e), rest) := by
  intro q p rest h hne
  have hpoll := pollRead_payload hsize q p rest h hne
  rw [deserialize_write e hsize] at hpoll
  exact hpoll

end KvmFraming
