import Cineyma.Cluster.Provenance
import Cineyma.Remote.Codec
import Cineyma.Remote.Link

/-!
# Gossip over byte streams

What `send_gossip_to` and `start_server` do with gossip, down to the bytes.  A call creates a
message, opens a connection, writes one frame and waits for one; the server of the other node merges
what it decodes and answers with a message of its own.  The bytes arrive in pieces of any size, any
number of calls overlap, and a connection may be lost at any time.  How messages are encoded is left
open, as long as decoding undoes it.  As long as no message is too large for a frame, the nodes do
not tell the difference from a cluster in which whole messages are merged at some time after they
were created.
-/

namespace Cineyma.Remote

open Std StepSystem
open Cluster (ClusterNode GossipMessage Paced)

/-- What gossip relies on of the generated protobuf code. -/
structure WireCodec where
  cluster : ClusterCodec
  toBytes : Envelope → List UInt8
  fromBytes : List UInt8 → Except String Envelope
  fromBytes_toBytes : ∀ e, fromBytes (toBytes e) = .ok e

/-- The bytes on their way, and those in the buffer of the receiver. -/
structure Pipe where
  wire : List UInt8
  buffer : List UInt8

namespace Pipe

def empty : Pipe := ⟨[], []⟩

/-- `TcpConnection::send`, on a connection that is up. -/
def send (codec : WireCodec) (pipe : Pipe) (e : Envelope) : Pipe :=
  { pipe with wire := EnvelopeCodec.encode codec.toBytes e pipe.wire }

def arrive (pipe : Pipe) (n : ℕ) : Pipe := ⟨pipe.wire.drop n, pipe.buffer ++ pipe.wire.take n⟩

/-- What is on its way is lost. -/
def cut (pipe : Pipe) : Pipe := { pipe with wire := [] }

/-- `TcpConnection::recv`, which waits as long as the result is `Ok(None)`. -/
def recv (codec : WireCodec) (pipe : Pipe) : Except IoError (Option Envelope) × Pipe :=
  let (result, rest) := EnvelopeCodec.decode codec.fromBytes pipe.buffer
  (result, { pipe with buffer := rest })

end Pipe

/-- The loop of `start_server` for one connection. -/
inductive Serving where
  | reading
  /-- A message was merged and is to be answered. -/
  | replying
  | closed
  deriving DecidableEq

structure Channel where
  peer : String
  up : Bool
  request : Pipe
  reply : Pipe
  serving : Serving

inductive GossipStage where
  | created (e : Envelope)
  | sending
  | awaiting
  | returned (result : Except TransportError Unit)

/-- A call of `send_gossip_to`. -/
structure GossipCall where
  caller : String
  stage : GossipStage
  channel : Option Channel

/-- The envelope that `send_gossip_to` builds. -/
def gossipEnvelope (codec : ClusterCodec) (node : ClusterNode) (g : GossipMessage) :
    Envelope where
  messageType := "cluster"
  payload := codec.encode ⟨some (.gossip g)⟩
  correlationId := 0
  senderNode := node.localNode.id
  targetActor := ""
  isResponse := false

/-- The nodes of a cluster, and the calls of `send_gossip_to` between them. -/
structure WiredCluster where
  cluster : Paced
  calls : List GossipCall

namespace WiredCluster

inductive Action where
  /-- What the nodes do besides gossip. -/
  | own (a : Paced.Action)
  | create (k : String) (g : GossipMessage)
  /-- `connect`, with the node that listens at the address. -/
  | connect (i : ℕ) (result : Except TransportError String)
  | sent (i : ℕ)
  | sendErr (i : ℕ) (err : TransportError)
  | arriveRequest (i n : ℕ)
  | arriveReply (i n : ℕ)
  | cut (i : ℕ)
  | serve (i : ℕ)
  | respond (i : ℕ) (g : GossipMessage)
  | receive (i : ℕ)
  | recvErr (i : ℕ)

/-- The step creates a message or merges one. -/
def gossips : Paced.Action → Bool
  | .net (.create _ _) => true
  | .net (.act _ _ (.mergeGossip _ _)) => true
  | _ => false

def init : WiredCluster := ⟨.init, []⟩

def setCall (w : WiredCluster) (i : ℕ) (call : GossipCall) : WiredCluster :=
  { w with calls := w.calls.set i call }

def merge (w : WiredCluster) (c : ClusterNode) (g : GossipMessage) (sender : String) :
    WiredCluster :=
  { w with cluster := { w.cluster with
      net := w.cluster.net.put (c.mergeGossip g sender w.cluster.net.now) } }

section

variable (codec : WireCodec)

def connect (w : WiredCluster) (i : ℕ) (call : GossipCall) :
    Except TransportError String → Option WiredCluster
  | .ok peer =>
      match call.stage with
      | .created e =>
          if peer ∈ w.cluster.net.nodes then
            some (w.setCall i { call with
              stage := .sending
              channel := some ⟨peer, true, Pipe.empty.send codec e, .empty, .reading⟩ })
          else none
      | _ => none
  | .error err =>
      match call.stage with
      | .created _ => some (w.setCall i { call with stage := .returned (.error err) })
      | _ => none

variable (handler : Option (Envelope → Option Envelope))

/-- The server loop takes a frame from its buffer. -/
def serve (w : WiredCluster) (i : ℕ) (call : GossipCall) (ch : Channel) : Option WiredCluster :=
  match ch.request.recv codec with
  | (.ok none, _) => none
  | (.error _, pipe) =>
      some (w.setCall i
        { call with channel := some { ch with request := pipe, serving := .closed } })
  | (.ok (some e), pipe) => w.cluster.net.nodes[ch.peer]?.map fun c ↦
      match codec.cluster.decode e.payload with
      | some ⟨some (.gossip g)⟩ =>
          (w.merge c g e.senderNode).setCall i { call with
            channel := some { ch with request := pipe, serving := .replying } }
      | some ⟨some (.envelope a)⟩ =>
          match handler.bind fun h ↦ h a with
          | some r => w.setCall i { call with channel := some { ch with
              request := pipe
              reply :=
                if ch.up then ch.reply.send codec (clusterReply codec.cluster c (.envelope r))
                else ch.reply } }
          | none => w.setCall i { call with channel := some { ch with request := pipe } }
      | some ⟨none⟩ | none => w.setCall i { call with channel := some { ch with request := pipe } }

/-- The server creates its own message and sends it. -/
def respond (w : WiredCluster) (i : ℕ) (call : GossipCall) (ch : Channel) (g : GossipMessage) :
    Option WiredCluster :=
  w.cluster.net.nodes[ch.peer]?.bind fun c ↦
    if c.IsGossipOf g then
      some (w.setCall i { call with channel := some { ch with
        reply := if ch.up then ch.reply.send codec (clusterReply codec.cluster c (.gossip g))
          else ch.reply
        serving := .reading } })
    else none

/-- The caller takes the reply from its buffer; whatever it is, the call returns `Ok(())`. -/
def receive (w : WiredCluster) (i : ℕ) (call : GossipCall) (ch : Channel) : Option WiredCluster :=
  match ch.reply.recv codec with
  | (.ok none, _) => none
  | (.error _, pipe) => some (w.setCall i { call with
      stage := .returned (.ok ())
      channel := some { ch with reply := pipe } })
  | (.ok (some e), pipe) => w.cluster.net.nodes[call.caller]?.map fun c ↦
      match codec.cluster.decode e.payload with
      | some ⟨some (.gossip g)⟩ => (w.merge c g e.senderNode).setCall i { call with
          stage := .returned (.ok ())
          channel := some { ch with reply := pipe } }
      | _ => w.setCall i { call with
          stage := .returned (.ok ())
          channel := some { ch with reply := pipe } }

def step (w : WiredCluster) : Action → Option WiredCluster
  | .own a =>
      if gossips a then none else (w.cluster.step a).map fun p ↦ { w with cluster := p }
  | .create k g => w.cluster.net.nodes[k]?.bind fun c ↦
      if c.IsGossipOf g then
        some { w with calls := w.calls ++ [⟨k, .created (gossipEnvelope codec.cluster c g), none⟩] }
      else none
  | .connect i result => w.calls[i]?.bind fun call ↦ w.connect codec i call result
  | .sent i => w.calls[i]?.bind fun call ↦
      match call.stage with
      | .sending => some (w.setCall i { call with stage := .awaiting })
      | _ => none
  | .sendErr i err => w.calls[i]?.bind fun call ↦
      match call.stage with
      | .sending => some (w.setCall i { call with
          stage := .returned (.error err)
          channel := call.channel.map fun ch ↦
            { ch with up := false, request := ch.request.cut, reply := ch.reply.cut } })
      | _ => none
  | .arriveRequest i n => w.calls[i]?.map fun call ↦ w.setCall i { call with
      channel := call.channel.map fun ch ↦ { ch with request := ch.request.arrive n } }
  | .arriveReply i n => w.calls[i]?.map fun call ↦ w.setCall i { call with
      channel := call.channel.map fun ch ↦ { ch with reply := ch.reply.arrive n } }
  | .cut i => w.calls[i]?.map fun call ↦ w.setCall i { call with
      channel := call.channel.map fun ch ↦
        { ch with up := false, request := ch.request.cut, reply := ch.reply.cut } }
  | .serve i => w.calls[i]?.bind fun call ↦ call.channel.bind fun ch ↦
      if ch.serving = .reading then w.serve codec handler i call ch else none
  | .respond i g => w.calls[i]?.bind fun call ↦ call.channel.bind fun ch ↦
      if ch.serving = .replying then w.respond codec i call ch g else none
  | .receive i => w.calls[i]?.bind fun call ↦ call.channel.bind fun ch ↦
      match call.stage with
      | .awaiting => w.receive codec i call ch
      | _ => none
  | .recvErr i => w.calls[i]?.bind fun call ↦ call.channel.bind fun ch ↦
      match call.stage with
      | .awaiting =>
          if ch.up then none else some (w.setCall i { call with stage := .returned (.ok ()) })
      | _ => none

/-- The message that the step creates fits in a frame. -/
def Fits (w : WiredCluster) : Action → Prop
  | .create k g => ∀ c ∈ w.cluster.net.nodes[k]?,
      (codec.toBytes (gossipEnvelope codec.cluster c g)).length < 2 ^ 32
  | .respond i g => ∀ call ∈ w.calls[i]?, ∀ ch ∈ call.channel,
      ∀ c ∈ w.cluster.net.nodes[ch.peer]?,
        (codec.toBytes (clusterReply codec.cluster c (.gossip g))).length < 2 ^ 32
  | _ => True

instance (w : WiredCluster) : DecidablePred (w.Fits codec) := fun a ↦ by
  unfold Fits
  split <;> infer_instance

/-! ## What is on the wires -/

def frame (e : Envelope) : List UInt8 := EnvelopeCodec.encode codec.toBytes e []

/-- The envelope holds a message that was created, and its creator as the sender. -/
def Carried (sent : List (String × GossipMessage)) (e : Envelope) : Prop :=
  (codec.toBytes e).length < 2 ^ 32 ∧ ∃ g, (e.senderNode, g) ∈ sent ∧
    e.payload = codec.cluster.encode ⟨some (.gossip g)⟩

/-- The bytes that the receiver will see are frames with such envelopes. Only a connection that is
down may have lost some at the end. -/
def Streamed (sent : List (String × GossipMessage)) (up : Bool) (pipe : Pipe) : Prop :=
  ∃ (es : List Envelope) (lost : List UInt8), (∀ e ∈ es, Carried codec sent e) ∧
    pipe.buffer ++ (pipe.wire ++ lost) = es.flatMap (frame codec) ∧ (up = true → lost = [])

end

variable {codec : WireCodec} {sent sent' : List (String × GossipMessage)} {up : Bool}
  {pipe : Pipe} {e : Envelope}

theorem Carried.mono (h : Carried codec sent e) (hsent : sent ⊆ sent') : Carried codec sent' e := by
  obtain ⟨hlength, g, hg, hpayload⟩ := h
  exact ⟨hlength, g, hsent hg, hpayload⟩

theorem Streamed.mono (h : Streamed codec sent up pipe) (hsent : sent ⊆ sent') :
    Streamed codec sent' up pipe := by
  obtain ⟨es, lost, hes, hstream, hlost⟩ := h
  exact ⟨es, lost, fun e he ↦ (hes e he).mono hsent, hstream, hlost⟩

theorem streamed_empty : Streamed codec sent up .empty :=
  ⟨[], [], by simp, rfl, fun _ ↦ rfl⟩

theorem Streamed.send (h : Streamed codec sent true pipe) (he : Carried codec sent e) :
    Streamed codec sent true (pipe.send codec e) := by
  obtain ⟨es, lost, hes, hstream, hlost⟩ := h
  refine ⟨es ++ [e], [], ?_, ?_, fun _ ↦ rfl⟩
  · intro e' he'
    rcases List.mem_append.mp he' with he' | he'
    · exact hes e' he'
    · rwa [List.mem_singleton.mp he']
  · rw [hlost rfl, List.append_nil] at hstream
    rw [List.flatMap_append, ← hstream, List.flatMap_singleton, List.append_nil, Pipe.send,
      EnvelopeCodec.encode_eq_append, frame, List.append_assoc]

theorem Streamed.arrive (h : Streamed codec sent up pipe) (n : ℕ) :
    Streamed codec sent up (pipe.arrive n) := by
  obtain ⟨es, lost, hes, hstream, hlost⟩ := h
  refine ⟨es, lost, hes, ?_, hlost⟩
  rw [← hstream, Pipe.arrive, List.append_assoc, ← List.append_assoc (pipe.wire.take n),
    List.take_append_drop]

theorem Streamed.cut (h : Streamed codec sent up pipe) : Streamed codec sent false pipe.cut := by
  obtain ⟨es, lost, hes, hstream, -⟩ := h
  exact ⟨es, pipe.wire ++ lost, hes, hstream, by simp⟩

theorem next_frame (h : Carried codec sent e) :
    (EnvelopeCodec.parser codec.fromBytes).next (frame codec e) = some (.ok e, []) := by
  refine EnvelopeCodec.next_eq_some.mpr ⟨frame codec e, codec.toBytes e,
    EnvelopeCodec.isFrame_encode h.1, (List.append_nil _).symm, ?_⟩
  rw [EnvelopeCodec.parse, codec.fromBytes_toBytes]

/-- The receiver waits, or gets the next envelope; it does not fail. -/
theorem Streamed.recv (h : Streamed codec sent up pipe) :
    (pipe.recv codec).1 = .ok none ∨
      ∃ e pipe', pipe.recv codec = (.ok (some e), pipe') ∧ Carried codec sent e ∧
        Streamed codec sent up pipe' := by
  obtain ⟨es, lost, hes, hstream, hlost⟩ := h
  cases hnext : (EnvelopeCodec.parser codec.fromBytes).next pipe.buffer with
  | none => exact .inl (EnvelopeCodec.next_eq_none.mp hnext)
  | some item =>
      obtain ⟨r, rest⟩ := item
      obtain ⟨e, ys, rfl, rfl, hrest⟩ :=
        Incremental.Parser.next_of_append (fun e he ↦ next_frame (hes e he)) hstream hnext
      obtain ⟨fr, payload, hframe, hbuffer, hparse⟩ := EnvelopeCodec.next_eq_some.mp hnext
      refine .inr ⟨e, ⟨pipe.wire, rest⟩, ?_, hes e (List.mem_cons_self ..), ys, lost,
        fun e' he' ↦ hes e' (List.mem_cons_of_mem _ he'), hrest, hlost⟩
      rw [Pipe.recv, hbuffer, EnvelopeCodec.decode_frame hframe, ← hparse]
      rfl

/-- What is known of a connection. -/
structure Tidy (codec : WireCodec) (sent : List (String × GossipMessage)) (ch : Channel) :
    Prop where
  request : Streamed codec sent ch.up ch.request
  reply : Streamed codec sent ch.up ch.reply
  serving : ch.serving ≠ .closed

structure Sound (codec : WireCodec) (sent : List (String × GossipMessage)) (call : GossipCall) :
    Prop where
  created : ∀ {e : Envelope}, call.stage = .created e → Carried codec sent e
  channel : ∀ ch ∈ call.channel, Tidy codec sent ch

variable {w w' : WiredCluster} {call call' : GossipCall} {ch : Channel} {i : ℕ}

theorem Tidy.mono (h : Tidy codec sent ch) (hsent : sent ⊆ sent') : Tidy codec sent' ch :=
  ⟨h.request.mono hsent, h.reply.mono hsent, h.serving⟩

theorem Sound.mono (h : Sound codec sent call) (hsent : sent ⊆ sent') : Sound codec sent' call :=
  ⟨fun hstage ↦ (h.created hstage).mono hsent, fun ch hch ↦ (h.channel ch hch).mono hsent⟩

theorem Tidy.cut (h : Tidy codec sent ch) :
    Tidy codec sent { ch with up := false, request := ch.request.cut, reply := ch.reply.cut } :=
  ⟨h.request.cut, h.reply.cut, h.serving⟩

theorem Sound.map (h : Sound codec sent call) {f : Channel → Channel}
    (hf : ∀ ch, Tidy codec sent ch → Tidy codec sent (f ch)) :
    Sound codec sent { call with channel := call.channel.map f } := by
  refine ⟨h.created, fun ch hch ↦ ?_⟩
  obtain ⟨ch', hch', rfl⟩ := Option.map_eq_some_iff.mp hch
  exact hf ch' (h.channel ch' hch')

theorem Sound.setChannel (h : Sound codec sent call) (hch : Tidy codec sent ch) :
    Sound codec sent { call with channel := some ch } :=
  ⟨h.created, fun _ hch' ↦ Option.some_inj.mp hch' ▸ hch⟩

theorem Sound.of_channel {caller : String} {stage : GossipStage}
    (hstage : ∀ e, stage ≠ .created e) (hch : Tidy codec sent ch) :
    Sound codec sent ⟨caller, stage, some ch⟩ :=
  ⟨fun hcreated ↦ absurd hcreated (hstage _), fun _ hch' ↦ Option.some_inj.mp hch' ▸ hch⟩

theorem Sound.setStage (h : Sound codec sent call) {stage : GossipStage}
    (hstage : ∀ e, stage ≠ .created e) : Sound codec sent { call with stage := stage } :=
  ⟨fun hcreated ↦ absurd hcreated (hstage _), h.channel⟩

/-! ## The cluster of whole messages -/

/-- The same nodes, with the messages created so far. -/
def withSent (p : Paced) (sent : List (String × GossipMessage)) : Paced :=
  { p with net := { p.net with sent := sent } }

/-- The cluster of whole messages that the byte streams stand for. -/
def Abstracts (codec : WireCodec) (w : WiredCluster) (p : Paced) : Prop :=
  ∃ sent, p = withSent w.cluster sent ∧ ∀ call ∈ w.calls, Sound codec sent call

/-- What is the same in the two: the steps that are not gossip. -/
def Action.label : Action → List Paced.Action
  | .own a => [a]
  | _ => []

def ownLabel (a : Paced.Action) : List Paced.Action := if gossips a then [] else [a]

theorem step_withSent {p q : Paced} {a : Paced.Action} (ha : gossips a = false)
    (hstep : p.step a = some q) : (withSent p sent).step a = some (withSent q sent) := by
  cases a with
  | net a =>
      obtain ⟨net', hnet, rfl⟩ := Option.map_eq_some_iff.mp hstep
      refine Option.map_eq_some_iff.mpr ⟨{ net' with sent := sent }, ?_, rfl⟩
      cases a with
      | start id addr =>
          obtain ⟨hfresh, rfl⟩ := Cluster.Network.step_start_eq_some.mp hnet
          exact Cluster.Network.step_start_eq_some.mpr ⟨hfresh, rfl⟩
      | tick elapsed =>
          cases hnet
          rfl
      | create k g => cases ha
      | act k T op =>
          obtain ⟨c, hc, -, rfl⟩ := Cluster.Network.step_act_eq_some.mp hnet
          refine Cluster.Network.step_act_eq_some.mpr ⟨c, hc, ?_, rfl⟩
          cases op with
          | mergeGossip g sender => cases ha
          | _ => trivial
  | mark k T now =>
      simp only [Paced.step] at hstep ⊢
      split at hstep
      · rename_i hnow
        obtain ⟨c, hc, rfl⟩ := Option.map_eq_some_iff.mp hstep
        rw [if_pos (show now ≤ (withSent p sent).net.now from hnow)]
        exact Option.map_eq_some_iff.mpr ⟨c, hc, rfl⟩
      · cases hstep
  | cleanUp k down =>
      simp only [Paced.step] at hstep ⊢
      split at hstep
      · rename_i hdown
        obtain ⟨c, hc, rfl⟩ := Option.map_eq_some_iff.mp hstep
        rw [if_pos (show (k, down) ∈ (withSent p sent).passes from hdown)]
        exact Option.map_eq_some_iff.mpr ⟨c, hc, rfl⟩
      · cases hstep

theorem step_merge {p : Paced} {k : String} {c : ClusterNode} {g : GossipMessage}
    {sender : String} (hc : p.net.nodes[k]? = some c) (hg : (sender, g) ∈ sent) :
    (withSent p sent).step (.net (.act k 0 (.mergeGossip g sender))) =
      some (withSent { p with net := p.net.put (c.mergeGossip g sender p.net.now) } sent) :=
  Option.map_eq_some_iff.mpr
    ⟨_, Cluster.Network.step_act_eq_some.mpr ⟨c, hc, hg, rfl⟩, rfl⟩

theorem step_create {p : Paced} {k : String} {c : ClusterNode} {g : GossipMessage}
    (hc : p.net.nodes[k]? = some c) (hg : c.IsGossipOf g) :
    (withSent p sent).step (.net (.create k g)) = some (withSent p (sent ++ [(k, g)])) :=
  Option.map_eq_some_iff.mpr ⟨_, Cluster.Network.step_create_eq_some.mpr ⟨c, hc, hg, rfl⟩, rfl⟩

theorem sound_set (h : ∀ call ∈ w.calls, Sound codec sent call) (hnew : Sound codec sent call') :
    ∀ call ∈ (w.setCall i call').calls, Sound codec sent call := by
  intro call hcall
  rcases List.mem_or_eq_of_mem_set hcall with hcall | rfl
  · exact h call hcall
  · exact hnew

/-! ## Steps -/

/-- The step of the byte streams is matched in the cluster of whole messages. -/
def Matched (codec : WireCodec) (p : Paced) (labels : List Paced.Action) (w' : WiredCluster) :
    Prop :=
  ∃ bs q, run Paced.step p bs = some q ∧ Abstracts codec w' q ∧ bs.flatMap ownLabel = labels

/-- A step that nobody sees in the cluster of whole messages. -/
theorem matched_quiet (h : ∀ call ∈ w.calls, Sound codec sent call)
    (hnew : Sound codec sent call') :
    Matched codec (withSent w.cluster sent) [] (w.setCall i call') :=
  ⟨[], _, rfl, ⟨sent, rfl, sound_set h hnew⟩, rfl⟩

theorem matched_merge (h : ∀ call ∈ w.calls, Sound codec sent call) {k : String} {c : ClusterNode}
    {g : GossipMessage} {sender : String} (hc : w.cluster.net.nodes[k]? = some c)
    (hg : (sender, g) ∈ sent) (hnew : Sound codec sent call') :
    Matched codec (withSent w.cluster sent) [] ((w.merge c g sender).setCall i call') :=
  ⟨[.net (.act k 0 (.mergeGossip g sender))], _, run_cons_eq_some.mpr ⟨_, step_merge hc hg, rfl⟩,
    ⟨sent, rfl, sound_set h hnew⟩, rfl⟩

theorem matched_serve {handler : Option (Envelope → Option Envelope)}
    (h : ∀ call ∈ w.calls, Sound codec sent call) (hcall : Sound codec sent call)
    (hch : Tidy codec sent ch)
    (hserve : w.serve codec handler i call ch = some w') :
    Matched codec (withSent w.cluster sent) [] w' := by
  unfold serve at hserve
  obtain hwait | ⟨e, pipe, hrecv, ⟨-, g, hg, hpayload⟩, hpipe⟩ := hch.request.recv
  · have hrecv : ch.request.recv codec = (.ok none, (ch.request.recv codec).2) :=
      Prod.ext hwait rfl
    rw [hrecv] at hserve
    cases hserve
  · rw [hrecv] at hserve
    obtain ⟨c, hc, rfl⟩ := Option.map_eq_some_iff.mp hserve
    rw [hpayload, codec.cluster.decode_encode]
    exact matched_merge h hc hg (hcall.setChannel ⟨hpipe, hch.reply, by simp⟩)

theorem matched_receive (h : ∀ call ∈ w.calls, Sound codec sent call)
    (hch : Tidy codec sent ch) (hreceive : w.receive codec i call ch = some w') :
    Matched codec (withSent w.cluster sent) [] w' := by
  unfold receive at hreceive
  obtain hwait | ⟨e, pipe, hrecv, ⟨-, g, hg, hpayload⟩, hpipe⟩ := hch.reply.recv
  · have hrecv : ch.reply.recv codec = (.ok none, (ch.reply.recv codec).2) := Prod.ext hwait rfl
    rw [hrecv] at hreceive
    cases hreceive
  · rw [hrecv] at hreceive
    obtain ⟨c, hc, rfl⟩ := Option.map_eq_some_iff.mp hreceive
    rw [hpayload, codec.cluster.decode_encode]
    exact matched_merge h hc hg (.of_channel (by simp) ⟨hch.request, hpipe, hch.serving⟩)

/-- A message that is created is among those that were created. -/
theorem matched_create (h : ∀ call ∈ w.calls, Sound codec sent call) {k : String} {c : ClusterNode}
    {g : GossipMessage} (hc : w.cluster.net.nodes[k]? = some c) (hg : c.IsGossipOf g)
    (hw : w'.cluster = w.cluster)
    (hnew : ∀ call ∈ w'.calls, call ∈ w.calls ∨ Sound codec (sent ++ [(k, g)]) call) :
    Matched codec (withSent w.cluster sent) [] w' := by
  refine ⟨[.net (.create k g)], _, run_cons_eq_some.mpr ⟨_, step_create hc hg, rfl⟩,
    ⟨sent ++ [(k, g)], by rw [hw], fun call hcall ↦ ?_⟩, rfl⟩
  rcases hnew call hcall with hold | hsound
  · exact (h call hold).mono (List.subset_append_left ..)
  · exact hsound

theorem matched_respond {g : GossipMessage} (h : ∀ call ∈ w.calls, Sound codec sent call)
    (hcall : Sound codec sent call) (hch : Tidy codec sent ch)
    (hfits : ∀ c ∈ w.cluster.net.nodes[ch.peer]?,
      (codec.toBytes (clusterReply codec.cluster c (.gossip g))).length < 2 ^ 32)
    (hrespond : w.respond codec i call ch g = some w') :
    Matched codec (withSent w.cluster sent) [] w' := by
  obtain ⟨c, hc, hrespond⟩ := Option.bind_eq_some_iff.mp hrespond
  split at hrespond
  · rename_i hg
    cases hrespond
    have hsubset : sent ⊆ sent ++ [(ch.peer, g)] := List.subset_append_left ..
    have hcarried : Carried codec (sent ++ [(ch.peer, g)])
        (clusterReply codec.cluster c (.gossip g)) := by
      refine ⟨hfits c hc, g, ?_, rfl⟩
      simp [clusterReply, w.cluster.net.keyed _ c hc]
    have hreply : Streamed codec (sent ++ [(ch.peer, g)]) ch.up
        (if ch.up then ch.reply.send codec (clusterReply codec.cluster c (.gossip g))
          else ch.reply) := by
      have hold := hch.reply.mono hsubset
      cases hup : ch.up with
      | false => simpa [hup] using hold
      | true =>
          rw [hup] at hold
          exact hold.send hcarried
    refine matched_create h hc hg rfl fun call hmem ↦ ?_
    rcases List.mem_or_eq_of_mem_set hmem with hmem | rfl
    · exact .inl hmem
    · exact .inr ((hcall.mono hsubset).setChannel ⟨hch.request.mono hsubset, hreply, by simp⟩)
  · cases hrespond

theorem matched_connect {result : Except TransportError String}
    (h : ∀ call ∈ w.calls, Sound codec sent call) (hcall : Sound codec sent call)
    (hconnect : w.connect codec i call result = some w') :
    Matched codec (withSent w.cluster sent) [] w' := by
  cases result with
  | ok peer =>
      simp only [connect] at hconnect
      split at hconnect
      · rename_i e hstage
        split at hconnect
        · cases hconnect
          have hrequest := streamed_empty.send (hcall.created hstage)
          exact matched_quiet h (.of_channel (by simp) ⟨hrequest, streamed_empty, by simp⟩)
        · cases hconnect
      · cases hconnect
  | error err =>
      simp only [connect] at hconnect
      split at hconnect
      · cases hconnect
        exact matched_quiet h (hcall.setStage (by simp))
      · cases hconnect

theorem matched_step {handler : Option (Envelope → Option Envelope)} {a : Action}
    (h : ∀ call ∈ w.calls, Sound codec sent call) (hfits : Fits codec w a)
    (hstep : w.step codec handler a = some w') :
    Matched codec (withSent w.cluster sent) a.label w' := by
  have hsound : ∀ {i : ℕ} {call : GossipCall}, w.calls[i]? = some call → Sound codec sent call :=
    fun hcall ↦ h _ (List.mem_of_getElem? hcall)
  cases a with
  | own a =>
      simp only [step] at hstep
      split at hstep
      · cases hstep
      · rename_i hown
        obtain ⟨p, hp, rfl⟩ := Option.map_eq_some_iff.mp hstep
        refine ⟨[a], _, run_cons_eq_some.mpr ⟨_, step_withSent (by simpa using hown) hp, rfl⟩,
          ⟨sent, rfl, h⟩, ?_⟩
        simp [ownLabel, hown, Action.label]
  | create k g =>
      obtain ⟨c, hc, hstep⟩ := Option.bind_eq_some_iff.mp hstep
      split at hstep
      · rename_i hg
        cases hstep
        refine matched_create h hc hg rfl fun call hmem ↦ ?_
        rcases List.mem_append.mp hmem with hmem | hmem
        · exact .inl hmem
        · cases List.mem_singleton.mp hmem
          refine .inr ⟨?_, by simp⟩
          rintro e ⟨⟩
          refine ⟨hfits c hc, g, ?_, rfl⟩
          simp [gossipEnvelope, w.cluster.net.keyed _ c hc]
      · cases hstep
  | connect i result =>
      obtain ⟨call, hcall, hconnect⟩ := Option.bind_eq_some_iff.mp hstep
      exact matched_connect h (hsound hcall) hconnect
  | sent i =>
      obtain ⟨call, hcall, hstep⟩ := Option.bind_eq_some_iff.mp hstep
      split at hstep
      · cases hstep
        exact matched_quiet h ((hsound hcall).setStage (by simp))
      · cases hstep
  | sendErr i err =>
      obtain ⟨call, hcall, hstep⟩ := Option.bind_eq_some_iff.mp hstep
      split at hstep
      · cases hstep
        have hreturned : Sound codec sent { call with stage := .returned (.error err) } :=
          (hsound hcall).setStage (by simp)
        exact matched_quiet h (hreturned.map fun _ hch ↦ hch.cut)
      · cases hstep
  | arriveRequest i n =>
      obtain ⟨call, hcall, rfl⟩ := Option.map_eq_some_iff.mp hstep
      exact matched_quiet h ((hsound hcall).map fun ch hch ↦
        ⟨hch.request.arrive n, hch.reply, hch.serving⟩)
  | arriveReply i n =>
      obtain ⟨call, hcall, rfl⟩ := Option.map_eq_some_iff.mp hstep
      exact matched_quiet h ((hsound hcall).map fun ch hch ↦
        ⟨hch.request, hch.reply.arrive n, hch.serving⟩)
  | cut i =>
      obtain ⟨call, hcall, rfl⟩ := Option.map_eq_some_iff.mp hstep
      exact matched_quiet h ((hsound hcall).map fun _ hch ↦ hch.cut)
  | serve i =>
      obtain ⟨call, hcall, hstep⟩ := Option.bind_eq_some_iff.mp hstep
      obtain ⟨ch, hch, hstep⟩ := Option.bind_eq_some_iff.mp hstep
      split at hstep
      · exact matched_serve h (hsound hcall) ((hsound hcall).channel ch hch) hstep
      · cases hstep
  | respond i g =>
      obtain ⟨call, hcall, hstep⟩ := Option.bind_eq_some_iff.mp hstep
      obtain ⟨ch, hch, hstep⟩ := Option.bind_eq_some_iff.mp hstep
      split at hstep
      · exact matched_respond h (hsound hcall) ((hsound hcall).channel ch hch)
          (hfits call hcall ch hch) hstep
      · cases hstep
  | receive i =>
      obtain ⟨call, hcall, hstep⟩ := Option.bind_eq_some_iff.mp hstep
      obtain ⟨ch, hch, hstep⟩ := Option.bind_eq_some_iff.mp hstep
      split at hstep
      · exact matched_receive h ((hsound hcall).channel ch hch) hstep
      · cases hstep
  | recvErr i =>
      obtain ⟨call, hcall, hstep⟩ := Option.bind_eq_some_iff.mp hstep
      obtain ⟨ch, hch, hstep⟩ := Option.bind_eq_some_iff.mp hstep
      split at hstep
      · split at hstep
        · cases hstep
        · cases hstep
          exact matched_quiet h ((hsound hcall).setStage (by simp))
      · cases hstep

/-- If every message fits in a frame, then for every run of the byte streams there is a run of the
cluster of whole messages in which the nodes take the same steps besides gossip and end in the same
states.  No server loop ends for bytes that it cannot decode. -/
theorem wire_refines_messages {handler : Option (Envelope → Option Envelope)} {ws : List Action}
    (hrun : run (step codec handler) init ws = some w)
    (hfits : Along (step codec handler) (Fits codec) init ws) :
    (∃ as p, run Paced.step .init as = some p ∧ p.net.nodes = w.cluster.net.nodes ∧
      p.net.now = w.cluster.net.now ∧ p.passes = w.cluster.passes ∧
      as.flatMap ownLabel = ws.flatMap Action.label) ∧
    ∀ call ∈ w.calls, ∀ ch ∈ call.channel, ch.serving ≠ .closed := by
  have hmatched : ∀ w a w' p, Abstracts codec w p → Fits codec w a →
      step codec handler w a = some w' → Matched codec p a.label w' := by
    rintro w a w' p ⟨sent, rfl, hcalls⟩ hfits hstep
    exact matched_step hcalls hfits hstep
  have hinit : Abstracts codec init .init := ⟨[], rfl, by simp [init]⟩
  obtain ⟨as, p, has, ⟨sent, rfl, hcalls⟩, hlabels⟩ := hfits.simulates hmatched hinit hrun
  exact ⟨⟨as, _, has, rfl, rfl, rfl, hlabels⟩,
    fun call hcall ch hch ↦ ((hcalls call hcall).channel ch hch).serving⟩

/-- The encoding of `protobuf`. -/
def protobufWire : WireCodec :=
  ⟨protobuf, envelopeMessage.encode, EnvelopeCodec.fromProtobuf, EnvelopeCodec.fromProtobuf_encode⟩

/-- Node `m` gossips to `n`, whose answer it merges; the request arrives in two pieces. -/
def exchangeActions : List Action :=
  [.own (.net (.start "m" "h:1")), .own (.net (.start "n" "h:2")),
    .create "m" ⟨[⟨"m", "h:1", 0⟩], []⟩, .connect 0 (.ok "n"), .arriveRequest 0 3, .sent 0,
    .arriveRequest 0 100, .serve 0, .respond 0 ⟨[⟨"m", "h:1", 0⟩, ⟨"n", "h:2", 0⟩], []⟩,
    .arriveReply 0 100, .receive 0]

theorem exchange_refines_messages :
    ∃ w as p, run (step protobufWire none) init exchangeActions = some w ∧
      run Paced.step .init as = some p ∧
      p.net.nodes = w.cluster.net.nodes ∧
      ∃ c : ClusterNode, p.net.nodes["m"]? = some c ∧ c.statusOf "n" = some .up := by
  have hstatus : ((run (step protobufWire none) init exchangeActions).bind fun w ↦
      w.cluster.net.nodes["m"]?.bind fun c ↦ c.statusOf "n") = some .up := by decide +kernel
  have hcheck : checkAlong (step protobufWire none) (fun w a ↦ decide (Fits protobufWire w a)) init
      exchangeActions = true := by decide +kernel
  obtain ⟨w, hw, hstatus⟩ := Option.bind_eq_some_iff.mp hstatus
  obtain ⟨c, hc, hup⟩ := Option.bind_eq_some_iff.mp hstatus
  have hfits : Along (step protobufWire none) (Fits protobufWire) init exchangeActions :=
    .of_check (fun _ _ ↦ of_decide_eq_true) hcheck
  obtain ⟨⟨as, p, has, hnodes, -⟩, -⟩ := wire_refines_messages hw hfits
  exact ⟨w, as, p, hw, has, hnodes, c, by rw [hnodes, hc], hup⟩

end WiredCluster

end Cineyma.Remote
