import Cineyma.Foundations.Incremental
import Cineyma.Remote.Wire

/-!
# Envelopes on a byte stream

`EnvelopeCodec`: a frame is a length of four bytes, most significant first, and the encoded
envelope. The decoder works on a buffer that bytes are appended to as they arrive. How an envelope
is encoded is left open, as `toBytes` and `fromBytes`; a payload that cannot be decoded costs its
own frame and nothing else. The size of an envelope is checked nowhere, and a length of more than
four bytes is cut off.
-/

namespace Cineyma.Remote

open Incremental

/-- A `std::io::Error`. -/
structure IoError where
  kind : ErrorKind
  message : String
  deriving DecidableEq

/-- `u32::from_be_bytes`. -/
def fromBeBytes (bs : List UInt8) : ℕ := bs.foldl (fun n b ↦ 256 * n + b.toNat) 0

/-- `put_u32`. -/
def putU32 (n : ℕ) : List UInt8 :=
  [UInt8.ofNat (n / 256 ^ 3), UInt8.ofNat (n / 256 ^ 2), UInt8.ofNat (n / 256), UInt8.ofNat n]

theorem fromBeBytes_putU32 {n : ℕ} (hn : n < 2 ^ 32) : fromBeBytes (putU32 n) = n := by
  simp only [fromBeBytes, putU32, List.foldl_cons, List.foldl_nil, UInt8.toNat_ofNat']
  omega

@[simp] theorem length_putU32 (n : ℕ) : (putU32 n).length = 4 := rfl

namespace EnvelopeCodec

variable (toBytes : Envelope → List UInt8) (fromBytes : List UInt8 → Except String Envelope)

/-- The result and the buffer that is left. `4 + len` does not overflow a 64-bit `usize`. -/
def decode (src : List UInt8) : Except IoError (Option Envelope) × List UInt8 :=
  if src.length < 4 then (.ok none, src)
  else
    let len := fromBeBytes (src.take 4)
    if src.length < 4 + len then (.ok none, src)
    else
      let src := src.drop 4
      let payload := src.take len
      let src := src.drop len
      match fromBytes payload with
      | .ok envelope => (.ok (some envelope), src)
      | .error e => (.error ⟨.invalidData, e⟩, src)

/-- The length is cast to `u32`. -/
def encode (item : Envelope) (dst : List UInt8) : List UInt8 :=
  let payload := toBytes item
  let len := payload.length % 2 ^ 32
  dst ++ putU32 len ++ payload

/-- A length prefix and as many bytes as it says. -/
def IsFrame (frame payload : List UInt8) : Prop :=
  ∃ len, len.length = 4 ∧ fromBeBytes len = payload.length ∧ frame = len ++ payload

/-- What a whole frame is decoded to. -/
def parse (payload : List UInt8) : Except IoError Envelope :=
  match fromBytes payload with
  | .ok envelope => .ok envelope
  | .error e => .error ⟨.invalidData, e⟩

variable {toBytes fromBytes} {src rest frame payload : List UInt8}

theorem IsFrame.length (h : IsFrame frame payload) : frame.length = 4 + payload.length := by
  obtain ⟨len, hlen, -, rfl⟩ := h
  rw [List.length_append, hlen]

theorem decode_frame (h : IsFrame frame payload) (rest : List UInt8) :
    decode fromBytes (frame ++ rest) = ((parse fromBytes payload).map some, rest) := by
  obtain ⟨len, hlen, hvalue, rfl⟩ := h
  have htake : (len ++ payload ++ rest).take 4 = len := by simp [hlen]
  have hdrop : (len ++ payload ++ rest).drop 4 = payload ++ rest := by simp [hlen]
  have hlength : (len ++ payload ++ rest).length = 4 + payload.length + rest.length := by
    simp [hlen, Nat.add_assoc]
  simp only [decode, htake, hdrop, hvalue, hlength, parse]
  rw [if_neg (by omega), if_neg (by omega), List.take_left, List.drop_left]
  cases fromBytes payload <;> rfl

theorem decode_of_no_frame (h : ∀ frame payload rest, IsFrame frame payload → src ≠ frame ++ rest) :
    decode fromBytes src = (.ok none, src) := by
  simp only [decode]
  split
  · rfl
  · rename_i hlen
    split
    · rfl
    · rename_i hpayload
      refine absurd ?_ (h (src.take (4 + fromBeBytes (src.take 4)))
        ((src.drop 4).take (fromBeBytes (src.take 4))) (src.drop (4 + fromBeBytes (src.take 4))) ?_)
      · exact (List.take_append_drop ..).symm
      · exact ⟨src.take 4, by simp; omega, by simp; omega, List.take_add⟩

/-- A call takes one frame off the buffer, or leaves a buffer without a whole frame as it is. -/
theorem decode_cases (fromBytes : List UInt8 → Except String Envelope) (src : List UInt8) :
    (∃ frame payload rest, IsFrame frame payload ∧ src = frame ++ rest ∧
        decode fromBytes src = ((parse fromBytes payload).map some, rest)) ∨
      (∀ frame payload rest, IsFrame frame payload → src ≠ frame ++ rest) ∧
        decode fromBytes src = (.ok none, src) := by
  by_cases h : ∃ frame payload rest, IsFrame frame payload ∧ src = frame ++ rest
  · obtain ⟨frame, payload, rest, hframe, rfl⟩ := h
    exact .inl ⟨frame, payload, rest, hframe, rfl, decode_frame hframe rest⟩
  · have hnone : ∀ frame payload rest, IsFrame frame payload → src ≠ frame ++ rest :=
      fun frame payload rest hframe hsrc ↦ h ⟨frame, payload, rest, hframe, hsrc⟩
    exact .inr ⟨hnone, decode_of_no_frame hnone⟩

theorem map_some_ne_ok_none (r : Except IoError Envelope) : r.map some ≠ .ok none := by
  cases r <;> simp [Except.map]

/-! ## The decode loop -/

/-- The result of a call that did not return `Ok(None)`. -/
def output : Except IoError (Option Envelope) → Option (Except IoError Envelope)
  | .ok none => none
  | .ok (some envelope) => some (.ok envelope)
  | .error e => some (.error e)

theorem output_map_some (r : Except IoError Envelope) : output (r.map some) = some r := by
  cases r <;> rfl

variable (fromBytes)

def next (src : List UInt8) : Option (Except IoError Envelope × List UInt8) :=
  (output (decode fromBytes src).1).map fun r ↦ (r, (decode fromBytes src).2)

variable {fromBytes}

theorem next_eq_some {r : Except IoError Envelope} :
    next fromBytes src = some (r, rest) ↔
      ∃ frame payload, IsFrame frame payload ∧ src = frame ++ rest ∧
        r = parse fromBytes payload := by
  constructor
  · intro h
    unfold next at h
    obtain ⟨frame, payload, rest', hframe, rfl, hdecode⟩ | ⟨-, hdecode⟩ :=
      decode_cases fromBytes src
    · rw [hdecode, output_map_some] at h
      cases h
      exact ⟨frame, payload, hframe, rfl, rfl⟩
    · rw [hdecode] at h
      cases h
  · rintro ⟨frame, payload, hframe, rfl, rfl⟩
    rw [next, decode_frame hframe, output_map_some]
    rfl

theorem next_eq_none : next fromBytes src = none ↔ (decode fromBytes src).1 = .ok none := by
  unfold next
  cases (decode fromBytes src).1 with
  | error e => simp [output]
  | ok envelope => cases envelope <;> simp [output]

/-- Calling `decode` until it returns `Ok(None)`. -/
def parser (fromBytes : List UInt8 → Except String Envelope) :
    Parser UInt8 (Except IoError Envelope) where
  next := next fromBytes
  shrinks h := by
    obtain ⟨frame, payload, hframe, rfl, -⟩ := next_eq_some.mp h
    rw [List.length_append, hframe.length]
    omega
  stable u h := by
    obtain ⟨frame, payload, hframe, rfl, rfl⟩ := next_eq_some.mp h
    exact next_eq_some.mpr ⟨frame, payload, hframe, List.append_assoc .., rfl⟩

/-- The loop on the whole input does what it does on the input in pieces; a call that returns an
envelope or an error takes one whole frame, and `Ok(None)` is for a buffer without a whole frame,
which stays as it is. The loop ends on every buffer. -/
theorem decode_is_incremental (fromBytes : List UInt8 → Except String Envelope) :
    (∀ chunks, (parser fromBytes).feed [] chunks = (parser fromBytes).drain chunks.flatten) ∧
      (∀ src r rest, decode fromBytes src = (r, rest) → r ≠ .ok none →
        ∃ frame payload, IsFrame frame payload ∧ src = frame ++ rest ∧
          r = (parse fromBytes payload).map some) ∧
      (∀ src, (decode fromBytes src).1 = .ok none ↔
        ∀ frame payload rest, IsFrame frame payload → src ≠ frame ++ rest) ∧
      (∀ src, (decode fromBytes src).1 = .ok none → (decode fromBytes src).2 = src) ∧
      ∀ src, ∃ n, (decode fromBytes ((fun s ↦ (decode fromBytes s).2)^[n] src)).1 = .ok none := by
  refine ⟨Parser.feed_nil, ?_, ?_, ?_, ?_⟩
  · intro src r rest hdecode hr
    obtain ⟨frame, payload, rest', hframe, hsrc, h⟩ | ⟨-, h⟩ := decode_cases fromBytes src
    · cases hdecode.symm.trans h
      exact ⟨frame, payload, hframe, hsrc, rfl⟩
    · cases hdecode.symm.trans h
      exact absurd rfl hr
  · intro src
    obtain ⟨frame, payload, rest, hframe, hsrc, h⟩ | ⟨hnone, h⟩ := decode_cases fromBytes src
    · rw [h]
      exact iff_of_false (map_some_ne_ok_none _) fun hnone ↦ hnone frame payload rest hframe hsrc
    · rw [h]
      exact iff_of_true rfl hnone
  · intro src hnone
    obtain ⟨frame, payload, rest, -, -, h⟩ | ⟨-, h⟩ := decode_cases fromBytes src
    · rw [h] at hnone
      exact absurd hnone (map_some_ne_ok_none _)
    · rw [h]
  · intro src
    induction src using (parser fromBytes).drain_induction with
    | hnone src h =>
        exact ⟨0, by simpa using next_eq_none.mp h⟩
    | hsome src r rest h ih =>
        obtain ⟨n, hn⟩ := ih
        obtain ⟨frame, payload, hframe, rfl, -⟩ := next_eq_some.mp h
        refine ⟨n + 1, ?_⟩
        rwa [Function.iterate_succ_apply, decode_frame hframe]

/-! ## What was encoded is decoded -/

theorem isFrame_encode {e : Envelope} (hlength : (toBytes e).length < 2 ^ 32) :
    IsFrame (encode toBytes e []) (toBytes e) := by
  refine ⟨putU32 (toBytes e).length, length_putU32 _, fromBeBytes_putU32 hlength, ?_⟩
  rw [encode, Nat.mod_eq_of_lt hlength, List.nil_append]

/-- The receiver of any number of envelopes, in whatever pieces their bytes arrive, has them all in
order in the end, and nothing is left in its buffer. -/
theorem receive_encoded {es : List Envelope} {chunks : List (List UInt8)}
    (hdecode : ∀ e, fromBytes (toBytes e) = .ok e)
    (hlength : ∀ e ∈ es, (toBytes e).length < 2 ^ 32)
    (hchunks : chunks.flatten = es.flatMap fun e ↦ encode toBytes e []) :
    (parser fromBytes).feed [] chunks = (es.map .ok, []) := by
  rw [Parser.feed_nil, hchunks]
  refine Parser.drain_flatMap fun e he ↦ next_eq_some.mpr ?_
  refine ⟨_, toBytes e, isFrame_encode (hlength e he), (List.append_nil _).symm, ?_⟩
  rw [parse, hdecode]

def fromProtobuf (bs : List UInt8) : Except String Envelope :=
  (envelopeMessage.decode bs).elim (.error "invalid") .ok

theorem fromProtobuf_encode (e : Envelope) : fromProtobuf (envelopeMessage.encode e) = .ok e := by
  rw [fromProtobuf, Protobuf.Message.decode_encode]
  rfl

def twoEnvelopes : List Envelope := [⟨"", [1, 2, 3], 7, "", "", true⟩, ⟨"", [], 8, "", "", false⟩]

/-- Two envelopes, byte by byte. -/
theorem receive_bytewise :
    (parser fromProtobuf).feed []
        ((twoEnvelopes.flatMap fun e ↦ encode envelopeMessage.encode e []).map fun b ↦ [b]) =
      (twoEnvelopes.map .ok, []) := by
  have hlength : ∀ e ∈ twoEnvelopes, (envelopeMessage.encode e).length < 2 ^ 32 := by
    decide +kernel
  exact receive_encoded fromProtobuf_encode hlength
    (by rw [← List.flatMap_def, List.flatMap_singleton'])

/-! ## Envelopes of any size -/

variable (toBytes) in
/-- `encode` with the value that it returns: there is no check that could fail. -/
def encodeResult (item : Envelope) (dst : List UInt8) : Except IoError Unit × List UInt8 :=
  (.ok (), encode toBytes item dst)

variable (toBytes fromBytes) in
/-- Either an error that leaves the buffer alone, or one more frame in it, with the length of its
payload in front, from which `decode` gets the envelope and leaves what follows. -/
def Faithful (e : Envelope) (dst rest : List UInt8) : Prop :=
  (∃ err, encodeResult toBytes e dst = (.error err, dst)) ∨
    ∃ frame, encodeResult toBytes e dst = (.ok (), dst ++ frame) ∧
      fromBeBytes (frame.take 4) = (frame.drop 4).length ∧
      decode fromBytes (frame ++ rest) = (.ok (some e), rest)

theorem encode_eq_append (e : Envelope) (dst : List UInt8) :
    encode toBytes e dst = dst ++ encode toBytes e [] := by
  simp only [encode, List.nil_append, List.append_assoc]

theorem fromBeBytes_take_encode (e : Envelope) :
    fromBeBytes ((encode toBytes e []).take 4) = (toBytes e).length % 2 ^ 32 := by
  have htake : (encode toBytes e []).take 4 = putU32 ((toBytes e).length % 2 ^ 32) := rfl
  rw [htake, fromBeBytes_putU32 (Nat.mod_lt _ (by decide))]

theorem drop_encode (e : Envelope) : (encode toBytes e []).drop 4 = toBytes e := rfl

/-- The decoder reads as many bytes as the prefix says, whatever the size of the envelope. -/
theorem decode_encode (e : Envelope) (rest : List UInt8) :
    decode fromBytes (encode toBytes e [] ++ rest) =
      ((parse fromBytes ((toBytes e).take ((toBytes e).length % 2 ^ 32))).map some,
        (toBytes e).drop ((toBytes e).length % 2 ^ 32) ++ rest) := by
  set len := (toBytes e).length % 2 ^ 32 with hlen
  have hle : len ≤ (toBytes e).length := Nat.mod_le _ _
  have hframe : IsFrame (putU32 len ++ (toBytes e).take len) ((toBytes e).take len) := by
    refine ⟨putU32 len, length_putU32 len, ?_, rfl⟩
    rw [fromBeBytes_putU32 (Nat.mod_lt _ (by decide)), List.length_take, Nat.min_eq_left hle]
  have hsplit : encode toBytes e [] ++ rest =
      (putU32 len ++ (toBytes e).take len) ++ ((toBytes e).drop len ++ rest) := by
    rw [encode, ← hlen, List.nil_append]
    simp only [List.append_assoc]
    rw [← List.append_assoc ((toBytes e).take len), List.take_append_drop]
  rw [hsplit, decode_frame hframe]

/-- Past `2 ^ 32` bytes a part of the envelope stays in the buffer, where the next length prefix is
expected. -/
theorem decode_encode_ne {e : Envelope} (hlong : 2 ^ 32 ≤ (toBytes e).length) (rest : List UInt8) :
    (decode fromBytes (encode toBytes e [] ++ rest)).2 ≠ rest := by
  intro h
  rw [decode_encode] at h
  have hlength := congrArg List.length h
  rw [List.length_append, List.length_drop] at hlength
  have hmod : (toBytes e).length % 2 ^ 32 < 2 ^ 32 := Nat.mod_lt _ (by decide)
  omega

theorem faithful_of_lt {e : Envelope} (hdecode : fromBytes (toBytes e) = .ok e)
    (hlength : (toBytes e).length < 2 ^ 32) (dst rest : List UInt8) :
    Faithful toBytes fromBytes e dst rest := by
  refine .inr ⟨encode toBytes e [], ?_, ?_, ?_⟩
  · rw [encodeResult, encode_eq_append]
  · rw [fromBeBytes_take_encode, drop_encode, Nat.mod_eq_of_lt hlength]
  · rw [decode_frame (isFrame_encode hlength), parse, hdecode]
    rfl

/-- Encoding an envelope keeps its promise if and only if the length of its bytes fits in the four
bytes of the prefix. -/
theorem faithful_iff (hdecode : ∀ e, fromBytes (toBytes e) = .ok e) (e : Envelope)
    (dst rest : List UInt8) :
    Faithful toBytes fromBytes e dst rest ↔ (toBytes e).length < 2 ^ 32 := by
  refine ⟨?_, fun hlength ↦ faithful_of_lt (hdecode e) hlength dst rest⟩
  rintro (⟨err, herr⟩ | ⟨frame, hframe, -, hread⟩)
  · cases congrArg Prod.fst herr
  · by_contra hlong
    have hbuffer : dst ++ encode toBytes e [] = dst ++ frame := by
      rw [← encode_eq_append]
      exact congrArg Prod.snd hframe
    rw [← List.append_cancel_left hbuffer] at hread
    exact decode_encode_ne (Nat.le_of_not_lt hlong) rest (congrArg Prod.snd hread)

theorem small_envelope_faithful :
    Faithful envelopeMessage.encode fromProtobuf ⟨"", [1, 2, 3], 7, "", "", true⟩ [9] [4, 5] :=
  (faithful_iff fromProtobuf_encode _ _ _).mpr (by decide +kernel)

theorem length_payload_le (e : Envelope) :
    e.payload.length ≤ (envelopeMessage.encode e).length := by
  have hfield : e.payload.length ≤
      ((Protobuf.singular (e.payload = []) 2 (.bytes e.payload)).flatMap
        Protobuf.encodeField).length := by
    unfold Protobuf.singular
    split
    · simp [*]
    · simp only [List.flatMap_singleton, Protobuf.encodeField, List.length_append]
      omega
  simp only [Protobuf.Message.encode, envelopeMessage, List.flatMap_append, List.length_append]
  omega

/-- An envelope with this many bytes of payload. -/
def bulky (n : ℕ) : Envelope := ⟨"", List.replicate n 0, 0, "", "", false⟩

/-- With `2 ^ 32` bytes of payload the call succeeds, the prefix is wrong, and a part of the
envelope is left in front of whatever follows. -/
theorem bulky_envelope_truncated :
    ∃ frame, encodeResult envelopeMessage.encode (bulky (2 ^ 32)) [] = (.ok (), frame) ∧
      fromBeBytes (frame.take 4) ≠ (frame.drop 4).length ∧
      ∀ rest, (decode fromProtobuf (frame ++ rest)).2 ≠ rest := by
  have hlong : 2 ^ 32 ≤ (envelopeMessage.encode (bulky (2 ^ 32))).length := by
    have hpayload := length_payload_le (bulky (2 ^ 32))
    rwa [bulky, List.length_replicate] at hpayload
  refine ⟨encode envelopeMessage.encode (bulky (2 ^ 32)) [], rfl, ?_, decode_encode_ne hlong⟩
  rw [fromBeBytes_take_encode, drop_encode]
  have hmod := Nat.mod_lt (envelopeMessage.encode (bulky (2 ^ 32))).length (y := 2 ^ 32) (by decide)
  omega

end EnvelopeCodec

end Cineyma.Remote
