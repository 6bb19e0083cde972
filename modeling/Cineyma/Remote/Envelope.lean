import Mathlib
import Cineyma.Cluster.Node

/-!
# Envelopes, cluster messages and transport errors

The wire types of the remote layer. A message of a user type enters an envelope by its type id and
its encoding, both of which belong to the user's `RemoteMessage` type.
-/

namespace Cineyma.Remote

open Cluster (GossipMessage)

structure Envelope where
  messageType : String
  payload : List UInt8
  correlationId : UInt64
  senderNode : String
  targetActor : String
  isResponse : Bool
  deriving DecidableEq

def Envelope.fromMessage (typeId : String) (encoded : List UInt8) (correlationId : UInt64)
    (senderNode targetActor : String) : Envelope where
  messageType := typeId
  payload := encoded
  correlationId := correlationId
  senderNode := senderNode
  targetActor := targetActor
  isResponse := false

/-- The variants of the payload of a `ClusterMessage`. -/
inductive ClusterPayload where
  | envelope (e : Envelope)
  | gossip (g : GossipMessage)
  deriving DecidableEq

structure ClusterMessage where
  payload : Option ClusterPayload
  deriving DecidableEq

/-- The kinds of `std::io::Error` that the remote layer builds itself; `os` is any error of the
operating system, by its code. -/
inductive ErrorKind where
  | notFound
  | invalidData
  | os (code : ℕ)
  deriving DecidableEq

inductive TransportError where
  | io (kind : ErrorKind) (message : String)
  | decode (message : String)
  | disconnected
  | timeout
  deriving DecidableEq

end Cineyma.Remote
