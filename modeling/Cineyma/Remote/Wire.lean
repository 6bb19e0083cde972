import Cineyma.Foundations.Protobuf
import Cineyma.Remote.Envelope

/-!
# The messages of the cluster protocol on the wire

`ClusterCodec` is what the remote layer relies on of the generated protobuf code: decoding undoes
encoding. `protobuf` encodes as `proto/` describes; it shows that there is such a codec, and serves
the examples, while the theorems are about any codec.
-/

namespace Cineyma.Remote

open Cluster (GossipMessage NodeInfo ActorLocation)
open Protobuf

structure ClusterCodec where
  encode : ClusterMessage → List UInt8
  decode : List UInt8 → Option ClusterMessage
  decode_encode : ∀ m, decode (encode m) = some m

/-! ## Scalar fields -/

def stringField (k : ℕ) (s : String) : List (ℕ × Value) := singular (s = "") k (.bytes (utf8 s))

theorem foldlM_stringField {M : Type} {merge : M → ℕ × Value → Option M} {k : ℕ} {s : String}
    {a b : M} (hdefault : s = "" → a = b) (hmerge : merge a (k, .bytes (utf8 s)) = some b) :
    (stringField k s).foldlM merge a = some b :=
  foldlM_singular hdefault hmerge

/-- An enumeration is an `int32`, sign-extended to 64 bits. -/
def ofInt32 (x : Int32) : ℕ := x.toInt64.toUInt64.toNat

def toInt32 (n : ℕ) : Int32 := (UInt64.ofNat n).toInt64.toInt32

theorem toInt32_ofInt32 (x : Int32) : toInt32 (ofInt32 x) = x := by
  simp [toInt32, ofInt32]

/-! ## Messages -/

/-- A known field with another wire type is an error, an unknown field is skipped. -/
def otherField {M : Type} (known : ℕ) (m : M) (k : ℕ) : Option M :=
  if 1 ≤ k ∧ k ≤ known then none else some m

def Envelope.mergeField (e : Envelope) : ℕ × Value → Option Envelope
  | (1, .bytes b) => (ofUtf8? b).map fun s ↦ { e with messageType := s }
  | (2, .bytes b) => some { e with payload := b }
  | (3, .varint n) => some { e with correlationId := UInt64.ofNat n }
  | (4, .bytes b) => (ofUtf8? b).map fun s ↦ { e with senderNode := s }
  | (5, .bytes b) => (ofUtf8? b).map fun s ↦ { e with targetActor := s }
  | (6, .varint n) => some { e with isResponse := n ≠ 0 }
  | (k, _) => otherField 6 e k

def envelopeMessage : Message Envelope where
  default := ⟨"", [], 0, "", "", false⟩
  fields e :=
    stringField 1 e.messageType ++
    (singular (e.payload = []) 2 (.bytes e.payload) ++
    (singular (e.correlationId = 0) 3 (.varint e.correlationId.toNat) ++
    (stringField 4 e.senderNode ++
    (stringField 5 e.targetActor ++
    singular (e.isResponse = false) 6 (.varint e.isResponse.toNat)))))
  merge := Envelope.mergeField
  foldlM_fields e := by
    obtain ⟨messageType, payload, correlationId, senderNode, targetActor, isResponse⟩ := e
    refine foldlM_append_some (b := ⟨messageType, [], 0, "", "", false⟩)
      (foldlM_stringField (by simp [eq_comm]) (by simp [Envelope.mergeField, ofUtf8?_utf8])) ?_
    refine foldlM_append_some (b := ⟨messageType, payload, 0, "", "", false⟩)
      (foldlM_singular (by simp [eq_comm]) rfl) ?_
    refine foldlM_append_some (b := ⟨messageType, payload, correlationId, "", "", false⟩)
      (foldlM_singular (by simp [eq_comm]) (by simp [Envelope.mergeField])) ?_
    refine foldlM_append_some (b := ⟨messageType, payload, correlationId, senderNode, "", false⟩)
      (foldlM_stringField (by simp [eq_comm]) (by simp [Envelope.mergeField, ofUtf8?_utf8])) ?_
    refine foldlM_append_some
      (b := ⟨messageType, payload, correlationId, senderNode, targetActor, false⟩)
      (foldlM_stringField (by simp [eq_comm]) (by simp [Envelope.mergeField, ofUtf8?_utf8])) ?_
    exact foldlM_singular (by simp [eq_comm]) (by cases isResponse <;> simp [Envelope.mergeField])

def mergeNodeInfo (info : NodeInfo) : ℕ × Value → Option NodeInfo
  | (1, .bytes b) => (ofUtf8? b).map fun s ↦ { info with id := s }
  | (2, .bytes b) => (ofUtf8? b).map fun s ↦ { info with addr := s }
  | (3, .varint n) => some { info with status := toInt32 n }
  | (k, _) => otherField 3 info k

def nodeInfoMessage : Message NodeInfo where
  default := ⟨"", "", 0⟩
  fields info :=
    stringField 1 info.id ++ (stringField 2 info.addr ++
    singular (info.status = 0) 3 (.varint (ofInt32 info.status)))
  merge := mergeNodeInfo
  foldlM_fields info := by
    obtain ⟨id, addr, status⟩ := info
    refine foldlM_append_some (b := ⟨id, "", 0⟩)
      (foldlM_stringField (by simp [eq_comm]) (by simp [mergeNodeInfo, ofUtf8?_utf8])) ?_
    refine foldlM_append_some (b := ⟨id, addr, 0⟩)
      (foldlM_stringField (by simp [eq_comm]) (by simp [mergeNodeInfo, ofUtf8?_utf8])) ?_
    exact foldlM_singular (by simp [eq_comm]) (by simp [mergeNodeInfo, toInt32_ofInt32])

def mergeActorLocation (loc : ActorLocation) : ℕ × Value → Option ActorLocation
  | (1, .bytes b) => (ofUtf8? b).map fun s ↦ { loc with actorId := s }
  | (2, .bytes b) => (ofUtf8? b).map fun s ↦ { loc with nodeId := s }
  | (3, .bytes b) => (ofUtf8? b).map fun s ↦ { loc with actorType := s }
  | (k, _) => otherField 3 loc k

def actorLocationMessage : Message ActorLocation where
  default := ⟨"", "", ""⟩
  fields loc :=
    stringField 1 loc.actorId ++ (stringField 2 loc.nodeId ++ stringField 3 loc.actorType)
  merge := mergeActorLocation
  foldlM_fields loc := by
    obtain ⟨actorId, nodeId, actorType⟩ := loc
    refine foldlM_append_some (b := ⟨actorId, "", ""⟩)
      (foldlM_stringField (by simp [eq_comm]) (by simp [mergeActorLocation, ofUtf8?_utf8])) ?_
    refine foldlM_append_some (b := ⟨actorId, nodeId, ""⟩)
      (foldlM_stringField (by simp [eq_comm]) (by simp [mergeActorLocation, ofUtf8?_utf8])) ?_
    exact foldlM_stringField (by simp [eq_comm]) (by simp [mergeActorLocation, ofUtf8?_utf8])

def mergeGossipMessage (g : GossipMessage) : ℕ × Value → Option GossipMessage
  | (1, .bytes b) => (nodeInfoMessage.decode b).map fun x ↦ { g with members := g.members ++ [x] }
  | (2, .bytes b) =>
      (actorLocationMessage.decode b).map fun x ↦ { g with actors := g.actors ++ [x] }
  | (k, _) => otherField 2 g k

def gossipMessage : Message GossipMessage where
  default := ⟨[], []⟩
  fields g :=
    g.members.map (fun x ↦ (1, .bytes (nodeInfoMessage.encode x))) ++
    g.actors.map (fun x ↦ (2, .bytes (actorLocationMessage.encode x)))
  merge := mergeGossipMessage
  foldlM_fields g := by
    refine foldlM_append_some (b := ⟨g.members, []⟩) ?_ ?_
    · refine foldlM_map_some (f := fun (m : GossipMessage) xs ↦
        (⟨m.members ++ xs, m.actors⟩ : GossipMessage)) (by simp) ?_ _ _
      simp [mergeGossipMessage, nodeInfoMessage.decode_encode]
    · refine foldlM_map_some (f := fun (m : GossipMessage) xs ↦
        (⟨m.members, m.actors ++ xs⟩ : GossipMessage)) (by simp) ?_ _ _
      simp [mergeGossipMessage, actorLocationMessage.decode_encode]

def mergeClusterMessage (m : ClusterMessage) : ℕ × Value → Option ClusterMessage
  | (1, .bytes b) =>
      let e := match m.payload with
        | some (.envelope e) => e
        | _ => envelopeMessage.default
      (envelopeMessage.mergeBytes e b).map fun e ↦ ⟨some (.envelope e)⟩
  | (2, .bytes b) =>
      let g := match m.payload with
        | some (.gossip g) => g
        | _ => gossipMessage.default
      (gossipMessage.mergeBytes g b).map fun g ↦ ⟨some (.gossip g)⟩
  | (k, _) => otherField 2 m k

def clusterMessage : Message ClusterMessage where
  default := ⟨none⟩
  fields m := match m.payload with
    | some (.envelope e) => [(1, .bytes (envelopeMessage.encode e))]
    | some (.gossip g) => [(2, .bytes (gossipMessage.encode g))]
    | none => []
  merge := mergeClusterMessage
  foldlM_fields m := by
    obtain ⟨_ | e | g⟩ := m
    · rfl
    · have hdecode := envelopeMessage.decode_encode e
      rw [Message.decode] at hdecode
      simp [mergeClusterMessage, hdecode]
    · have hdecode := gossipMessage.decode_encode g
      rw [Message.decode] at hdecode
      simp [mergeClusterMessage, hdecode]

def protobuf : ClusterCodec where
  encode := clusterMessage.encode
  decode := clusterMessage.decode
  decode_encode := clusterMessage.decode_encode

end Cineyma.Remote
