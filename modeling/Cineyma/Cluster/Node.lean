import Mathlib

/-!
# Cluster nodes

The data model of `remote/cluster.rs` and the operations of `ClusterNode`.
Every lock-protected section of the source is one function here; a time is a
number of nanoseconds, and `Instant::duration_since` saturates at zero just as
subtraction on `ℕ` does.

The maps of the source are `HashMap`s, whose iteration order is unspecified.
`createGossipMessage` lists them in key order, and `IsGossipOf` admits every
other order a `HashMap` might produce.
-/

namespace Cineyma.Cluster

open Std

inductive NodeStatus where
  | up
  | suspect
  | down
  deriving DecidableEq, Repr

structure Node where
  id : String
  addr : String
  status : NodeStatus
  deriving DecidableEq, Repr

/-! ## Wire records -/

/-- The protobuf record of a node.  The status is an open protobuf enumeration,
so any 32-bit value can arrive. -/
structure NodeInfo where
  id : String
  addr : String
  status : Int32
  deriving DecidableEq, Repr

structure ActorLocation where
  actorId : String
  nodeId : String
  actorType : String
  deriving DecidableEq, Repr

structure GossipMessage where
  members : List NodeInfo
  actors : List ActorLocation
  deriving DecidableEq, Repr

/-- `impl From<&Node> for NodeInfo`. -/
def NodeInfo.ofNode (node : Node) : NodeInfo where
  id := node.id
  addr := node.addr
  status := match node.status with
    | .up => 0
    | .suspect => 1
    | .down => 2

/-- `impl From<NodeInfo> for Node`. -/
def Node.ofInfo (info : NodeInfo) : Node where
  id := info.id
  addr := info.addr
  status :=
    if info.status = 0 then .up
    else if info.status = 1 then .suspect
    else if info.status = 2 then .down
    else .down -- default to Down for unknown

@[simp] theorem Node.ofInfo_ofNode (node : Node) :
    Node.ofInfo (NodeInfo.ofNode node) = node := by
  obtain ⟨id, addr, status⟩ := node
  cases status <;> rfl

@[simp] theorem NodeInfo.ofNode_id (node : Node) : (NodeInfo.ofNode node).id = node.id := rfl

/-! ## The member table -/

/-- The `members` map.  It is private to `ClusterNode`, and every writer files a
record under the record's own id. -/
structure Members where
  table : ExtTreeMap String Node
  keyed : ∀ (k : String) (node : Node), table[k]? = some node → node.id = k

namespace Members

instance : Membership String Members := ⟨fun ms k ↦ k ∈ ms.table⟩

/-- The record stored under an id. -/
def get? (ms : Members) (k : String) : Option Node := ms.table[k]?

theorem mem_iff {ms : Members} {k : String} : k ∈ ms ↔ ∃ node, ms.get? k = some node := by
  change k ∈ ms.table ↔ _
  rw [ExtTreeMap.mem_iff_isSome_getElem?, Option.isSome_iff_exists]
  rfl

theorem id_of_get? {ms : Members} {k : String} {node : Node} (h : ms.get? k = some node) :
    node.id = k :=
  ms.keyed k node h

@[ext] theorem ext_get? {ms ms' : Members} (h : ∀ k, ms.get? k = ms'.get? k) : ms = ms' := by
  obtain ⟨table, keyed⟩ := ms
  obtain ⟨table', keyed'⟩ := ms'
  have htable : table = table' := ExtTreeMap.ext_getElem? h
  subst htable
  rfl

/-- `HashMap::insert` of a record under its own id. -/
def insert (ms : Members) (node : Node) : Members where
  table := ms.table.insert node.id node
  keyed := by
    intro k other h
    rw [ExtTreeMap.getElem?_insert] at h
    split at h
    · next hk =>
        cases h
        exact LawfulEqCmp.compare_eq_iff_eq.mp hk
    · exact ms.keyed k other h

@[simp] theorem get?_insert (ms : Members) (node : Node) (k : String) :
    (ms.insert node).get? k = if node.id = k then some node else ms.get? k := by
  simp only [get?, insert, ExtTreeMap.getElem?_insert, LawfulEqCmp.compare_eq_iff_eq]

/-- `HashMap::new`. -/
def empty : Members := ⟨∅, by simp⟩

@[simp] theorem get?_empty (k : String) : empty.get? k = none := by
  simp [get?, empty]

/-- What one record of a gossip message does to the entry of its id: an unknown
node is added, a known one replaced only when the status differs. -/
def mergeEntry (node : Node) : Option Node → Option Node
  | some existing => some (if existing.status ≠ node.status then node else existing)
  | none => some node

/-- The body of the first loop of `merge_gossip`. -/
def mergeNode (ms : Members) (node : Node) : Members where
  table := ms.table.alter node.id (mergeEntry node)
  keyed := by
    intro k other h
    rw [ExtTreeMap.getElem?_alter] at h
    split at h
    · next hk =>
        rw [LawfulEqCmp.compare_eq_iff_eq] at hk
        subst hk
        cases hget : ms.table[node.id]? with
        | none =>
            rw [hget] at h
            cases h
            rfl
        | some existing =>
            rw [hget] at h
            simp only [mergeEntry] at h
            split at h
            · cases h
              rfl
            · cases h
              exact ms.keyed _ _ hget
    · exact ms.keyed k other h

@[simp] theorem get?_mergeNode (ms : Members) (node : Node) (k : String) :
    (ms.mergeNode node).get? k =
      if node.id = k then mergeEntry node (ms.get? k) else ms.get? k := by
  simp only [get?, mergeNode, ExtTreeMap.getElem?_alter, LawfulEqCmp.compare_eq_iff_eq]
  by_cases hk : node.id = k
  · subst hk
    simp
  · simp [hk]

/-- Rewrite the status of every record, leaving ids and addresses alone. -/
def mapStatus (ms : Members) (f : String → Node → NodeStatus) : Members where
  table := ms.table.map fun k node ↦ { node with status := f k node }
  keyed := by
    intro k other h
    rw [ExtTreeMap.getElem?_map, Option.map_eq_some_iff] at h
    obtain ⟨node, hnode, rfl⟩ := h
    exact ms.keyed k node hnode

@[simp] theorem get?_mapStatus (ms : Members) (f : String → Node → NodeStatus) (k : String) :
    (ms.mapStatus f).get? k =
      (ms.get? k).map fun node ↦ { node with status := f k node } := by
  simp only [get?, mapStatus, ExtTreeMap.getElem?_map]

/-- The records, in key order. -/
def values (ms : Members) : List Node := ms.table.toList.map Prod.snd

theorem mem_values {ms : Members} {node : Node} :
    node ∈ ms.values ↔ ms.get? node.id = some node := by
  simp only [values, List.mem_map, Prod.exists, exists_eq_right,
    ExtTreeMap.mem_toList_iff_getElem?_eq_some]
  constructor
  · rintro ⟨k, hk⟩
    obtain rfl := ms.keyed k node hk
    exact hk
  · intro h
    exact ⟨node.id, h⟩

theorem nodup_ids_values (ms : Members) : (ms.values.map Node.id).Nodup := by
  have hkeys : ms.values.map Node.id = ms.table.toList.map Prod.fst := by
    rw [values, List.map_map]
    apply List.map_congr_left
    rintro ⟨k, node⟩ hmem
    exact ms.keyed k node (ExtTreeMap.mem_toList_iff_getElem?_eq_some.mp hmem)
  rw [hkeys, List.nodup_iff_pairwise_ne, List.pairwise_map]
  exact ms.table.distinct_keys_toList.imp fun h heq ↦
    h (LawfulEqCmp.compare_eq_iff_eq.mpr heq)

end Members

/-! ## The node -/

/-- Where an actor runs: the id of its node and the type of the actor. -/
abbrev Location := String × String

structure ClusterNode where
  localNode : Node
  members : Members
  lastHeartbeat : ExtTreeMap String ℕ
  actorRegistry : ExtTreeMap String Location

namespace ClusterNode

def new (id addr : String) (now : ℕ) : ClusterNode where
  localNode := ⟨id, addr, .up⟩
  members := Members.empty.insert ⟨id, addr, .up⟩
  lastHeartbeat := (∅ : ExtTreeMap String ℕ).insert id now
  actorRegistry := ∅

def addMember (c : ClusterNode) (node : Node) (now : ℕ) : ClusterNode :=
  { c with
    members := c.members.insert node
    lastHeartbeat := c.lastHeartbeat.insert node.id now }

def getMembers (c : ClusterNode) : List Node := c.members.values

def registerActor (c : ClusterNode) (actorId actorType : String) : ClusterNode :=
  { c with actorRegistry := c.actorRegistry.insert actorId (c.localNode.id, actorType) }

def lookupActor (c : ClusterNode) (actorId : String) : Option Location :=
  c.actorRegistry[actorId]?

/-! ### Gossip -/

/-- The registry entry of one actor as it goes on the wire. -/
def locationOf (entry : String × Location) : ActorLocation :=
  ⟨entry.1, entry.2.1, entry.2.2⟩

def createGossipMessage (c : ClusterNode) : GossipMessage where
  members := c.members.values.map NodeInfo.ofNode
  actors := c.actorRegistry.toList.map locationOf

/-- `g` is a message `create_gossip_message` may return on `c`, for some
iteration order of the two hash maps. -/
def IsGossipOf (c : ClusterNode) (g : GossipMessage) : Prop :=
  g.members.Perm c.createGossipMessage.members ∧ g.actors.Perm c.createGossipMessage.actors

theorem isGossipOf_createGossipMessage (c : ClusterNode) :
    c.IsGossipOf c.createGossipMessage :=
  ⟨List.Perm.refl _, List.Perm.refl _⟩

/-- First loop of `merge_gossip`. -/
def mergeMembers (ms : Members) (infos : List NodeInfo) : Members :=
  infos.foldl (fun ms info ↦ ms.mergeNode (Node.ofInfo info)) ms

/-- Second loop of `merge_gossip`. -/
def mergeActors (registry : ExtTreeMap String Location) (actors : List ActorLocation) :
    ExtTreeMap String Location :=
  actors.foldl (fun registry loc ↦ registry.insert loc.actorId (loc.nodeId, loc.actorType))
    registry

def mergeGossip (c : ClusterNode) (gossip : GossipMessage) (senderNodeId : String)
    (now : ℕ) : ClusterNode :=
  { c with
    members := mergeMembers c.members gossip.members
    lastHeartbeat := c.lastHeartbeat.insert senderNodeId now
    actorRegistry := mergeActors c.actorRegistry gossip.actors }

/-! ### Failure detection -/

/-- The two threshold tests of the failure detector. -/
def judge (suspectTimeout elapsed : ℕ) (status : NodeStatus) : NodeStatus :=
  if suspectTimeout * 2 < elapsed ∧ status ≠ .down then .down
  else if suspectTimeout < elapsed ∧ status = .up then .suspect
  else status

/-- The status a member has after the detector looked at it: the local node and
members without a heartbeat are passed over. -/
def detect (c : ClusterNode) (suspectTimeout : ℕ) (now : ℕ)
    (nodeId : String) (node : Node) : NodeStatus :=
  if nodeId = c.localNode.id then node.status
  else match c.lastHeartbeat[nodeId]? with
    | some lastSeen => judge suspectTimeout (now - lastSeen) node.status
    | none => node.status

/-- First critical section of a pass: the new statuses. -/
def markFailed (c : ClusterNode) (suspectTimeout : ℕ) (now : ℕ) : ClusterNode :=
  { c with members := c.members.mapStatus (c.detect suspectTimeout now) }

/-- The ids the first critical section pushes on `down_nodes`. -/
def downNodes (c : ClusterNode) (suspectTimeout : ℕ) (now : ℕ) : List String :=
  (c.members.values.filter fun node ↦
    decide (node.status ≠ .down ∧ c.detect suspectTimeout now node.id node = .down)).map Node.id

/-- Second critical section of a pass: one `retain` for each node that went down. -/
def cleanUpActors (c : ClusterNode) (down : List String) : ClusterNode :=
  if down.isEmpty then c
  else { c with
    actorRegistry := down.foldl
      (fun registry downNodeId ↦ registry.filter fun _ loc ↦ loc.1 ≠ downNodeId)
      c.actorRegistry }

/-- One tick of `start_periodic_gossip` up to the choice of a peer. -/
def failureDetection (c : ClusterNode) (suspectTimeout : ℕ) (now : ℕ) :
    ClusterNode :=
  (c.markFailed suspectTimeout now).cleanUpActors (c.downNodes suspectTimeout now)

end ClusterNode

end Cineyma.Cluster
