import Cineyma.Foundations.TwoPhase
import Cineyma.Cluster.Node

/-!
# The locks of a cluster node

`ClusterNode` keeps its three maps behind a `tokio::sync::RwLock` each.  Every method is written out
here with the locks that it takes and the accesses it makes under them.  All take `members` before
`last_heartbeat` before `actor_registry` and drop their guards at the end of a block.  So they never
block each other for good, and each lock-protected section is one step of the node.
-/

namespace Cineyma.Cluster

open Std StepSystem Linearizability Locking

/-- The fields behind locks. -/
inductive Cell where
  | members
  | lastHeartbeat
  | actorRegistry
  deriving DecidableEq

namespace Cell

abbrev Content : Cell → Type
  | .members => Members
  | .lastHeartbeat => ExtTreeMap String ℕ
  | .actorRegistry => ExtTreeMap String Location

def rank : Cell → ℕ
  | .members => 0
  | .lastHeartbeat => 1
  | .actorRegistry => 2

instance : Preorder Cell := Preorder.lift rank

instance : DecidableLT Cell := fun j k ↦ inferInstanceAs (Decidable (j.rank < k.rank))

instance : Fintype Cell where
  elems := {Cell.members, Cell.lastHeartbeat, Cell.actorRegistry}
  complete := by
    intro k
    cases k <;> decide

end Cell

/-- The lock-protected sections, with the readings of the clock as parameters.  A failure-detection
pass has the two sections `markFailed` and `cleanUpActors`, and the choice of a peer reads the
members as `getMembers` does. -/
inductive Section where
  | addMember (node : Node) (now : ℕ)
  | getMembers
  | registerActor (actorId actorType : String)
  | lookupActor (actorId : String)
  | createGossipMessage
  | mergeGossip (gossip : GossipMessage) (senderNodeId : String) (now : ℕ)
  | markFailed (suspectTimeout now : ℕ)
  | cleanUpActors (down : List String)
  deriving DecidableEq

inductive Reply where
  | unit
  | members (nodes : List Node)
  | location (loc : Option Location)
  | gossip (g : GossipMessage)
  | downNodes (down : List String)
  deriving DecidableEq

namespace ClusterNode

/-- The contents of the three fields. -/
def fields (c : ClusterNode) : ∀ k : Cell, k.Content
  | .members => c.members
  | .lastHeartbeat => c.lastHeartbeat
  | .actorRegistry => c.actorRegistry

theorem fields_update_members (c : ClusterNode) (ms : Members) :
    Function.update c.fields .members ms = fields { c with members := ms } := by
  funext k
  cases k <;> rfl

theorem fields_update_lastHeartbeat (c : ClusterNode) (heartbeats : ExtTreeMap String ℕ) :
    Function.update c.fields .lastHeartbeat heartbeats =
      fields { c with lastHeartbeat := heartbeats } := by
  funext k
  cases k <;> rfl

theorem fields_update_actorRegistry (c : ClusterNode) (registry : ExtTreeMap String Location) :
    Function.update c.fields .actorRegistry registry =
      fields { c with actorRegistry := registry } := by
  funext k
  cases k <;> rfl

end ClusterNode

namespace Section

/-- The accesses of a section on a node with this `local_node`. -/
def body (localNode : Node) : Section → Prog Cell.Content Reply
  | .addMember node now =>
      .lock .members .write <|
      .modify .members (fun members ↦ members.insert node) <|
      .lock .lastHeartbeat .write <|
      .modify .lastHeartbeat (fun heartbeats ↦ heartbeats.insert node.id now) <|
      .unlock .lastHeartbeat <| .unlock .members <| .ret .unit
  | .getMembers =>
      .lock .members .read <| .read .members fun members ↦
      .unlock .members <| .ret (.members members.values)
  | .registerActor actorId actorType =>
      .lock .actorRegistry .write <|
      .modify .actorRegistry (fun registry ↦ registry.insert actorId (localNode.id, actorType)) <|
      .unlock .actorRegistry <| .ret .unit
  | .lookupActor actorId =>
      .lock .actorRegistry .read <| .read .actorRegistry fun registry ↦
      .unlock .actorRegistry <| .ret (.location registry[actorId]?)
  | .createGossipMessage =>
      .lock .members .read <| .read .members fun members ↦
      .lock .actorRegistry .read <| .read .actorRegistry fun registry ↦
      .unlock .actorRegistry <| .unlock .members <|
      .ret (.gossip ⟨members.values.map NodeInfo.ofNode,
        registry.toList.map ClusterNode.locationOf⟩)
  | .mergeGossip gossip senderNodeId now =>
      .lock .members .write <| .lock .lastHeartbeat .write <|
      .each .members (fun members info ↦ members.mergeNode (Node.ofInfo info)) gossip.members <|
      .modify .lastHeartbeat (fun heartbeats ↦ heartbeats.insert senderNodeId now) <|
      .lock .actorRegistry .write <|
      .each .actorRegistry (fun registry loc ↦
        registry.insert loc.actorId (loc.nodeId, loc.actorType)) gossip.actors <|
      .unlock .actorRegistry <| .unlock .lastHeartbeat <| .unlock .members <| .ret .unit
  | .markFailed suspectTimeout now =>
      .lock .members .write <| .lock .lastHeartbeat .read <|
      .read .members fun members ↦ .read .lastHeartbeat fun heartbeats ↦
      -- the loop over the members touches nothing but these two
      .write .members (ClusterNode.markFailed ⟨localNode, members, heartbeats, ∅⟩
        suspectTimeout now).members <|
      .unlock .lastHeartbeat <| .unlock .members <|
      .ret (.downNodes (ClusterNode.downNodes ⟨localNode, members, heartbeats, ∅⟩
        suspectTimeout now))
  | .cleanUpActors down =>
      if down.isEmpty then .ret .unit
      else
        .lock .actorRegistry .write <|
        .each .actorRegistry (fun registry downNodeId ↦
          registry.filter fun _ loc ↦ loc.1 ≠ downNodeId) down <|
        .unlock .actorRegistry <| .ret .unit

/-- What a section does as one step of the node. -/
def apply (c : ClusterNode) : Section → Reply × ClusterNode
  | .addMember node now => (.unit, c.addMember node now)
  | .getMembers => (.members c.getMembers, c)
  | .registerActor actorId actorType => (.unit, c.registerActor actorId actorType)
  | .lookupActor actorId => (.location (c.lookupActor actorId), c)
  | .createGossipMessage => (.gossip c.createGossipMessage, c)
  | .mergeGossip gossip senderNodeId now => (.unit, c.mergeGossip gossip senderNodeId now)
  | .markFailed suspectTimeout now =>
      (.downNodes (c.downNodes suspectTimeout now), c.markFailed suspectTimeout now)
  | .cleanUpActors down => (.unit, c.cleanUpActors down)

def spec (c : ClusterNode) (o : Section) (r : Reply) (d : ClusterNode) : Prop :=
  o.apply c = (r, d)

theorem twoPhase_body (localNode : Node) (o : Section) :
    TwoPhase (fun _ ↦ none) (o.body localNode) := by
  cases o with
  | addMember node now =>
      refine ⟨by decide, by decide, fun _ ↦ ⟨by decide, by decide, by decide, fun _ ↦
        ⟨by decide, fun k ↦ ?_⟩⟩⟩
      cases k <;> rfl
  | getMembers =>
      refine ⟨by decide, by decide, fun _ k ↦ ?_⟩
      cases k <;> rfl
  | registerActor actorId actorType =>
      refine ⟨by decide, by decide, fun _ ↦ ⟨by decide, fun k ↦ ?_⟩⟩
      cases k <;> rfl
  | lookupActor actorId =>
      refine ⟨by decide, by decide, fun _ k ↦ ?_⟩
      cases k <;> rfl
  | createGossipMessage =>
      refine ⟨by decide, by decide, fun _ ↦ ⟨by decide, by decide, fun _ k ↦ ?_⟩⟩
      cases k <;> rfl
  | mergeGossip gossip senderNodeId now =>
      refine ⟨by decide, by decide, twoPhase_each rfl ⟨by decide, fun _ ↦
        ⟨by decide, by decide, twoPhase_each rfl fun k ↦ ?_⟩⟩⟩
      cases k <;> rfl
  | markFailed suspectTimeout now =>
      refine ⟨by decide, by decide, by decide, fun _ ↦ ⟨by decide, fun _ ↦ ⟨by decide, fun k ↦ ?_⟩⟩⟩
      cases k <;> rfl
  | cleanUpActors down =>
      simp only [body]
      split
      · exact fun _ ↦ rfl
      · refine ⟨by decide, twoPhase_each rfl fun k ↦ ?_⟩
        cases k <;> rfl

theorem exec_body (c : ClusterNode) (o : Section) :
    (o.body c.localNode).exec c.fields = ((o.apply c).1, (o.apply c).2.fields) := by
  cases o with
  | getMembers | lookupActor | createGossipMessage => rfl
  | addMember node now =>
      simp only [body, Prog.modify, Prog.exec, ClusterNode.fields_update_members,
        ClusterNode.fields_update_lastHeartbeat]
      rfl
  | registerActor actorId actorType =>
      simp only [body, Prog.modify, Prog.exec, ClusterNode.fields_update_actorRegistry]
      rfl
  | mergeGossip gossip senderNodeId now =>
      simp only [body, Prog.modify, Prog.exec, exec_each, ClusterNode.fields_update_members,
        ClusterNode.fields_update_lastHeartbeat, ClusterNode.fields_update_actorRegistry]
      rfl
  | markFailed suspectTimeout now =>
      simp only [body, Prog.exec, ClusterNode.fields_update_members]
      rfl
  | cleanUpActors down =>
      simp only [body, apply, ClusterNode.cleanUpActors]
      split
      · rfl
      · simp only [Prog.exec, exec_each, ClusterNode.fields_update_actorRegistry]
        rfl

theorem localNode_apply (c : ClusterNode) (o : Section) :
    (o.apply c).2.localNode = c.localNode := by
  cases o with
  | cleanUpActors down =>
      simp only [apply, ClusterNode.cleanUpActors]
      split <;> rfl
  | _ => rfl

end Section

namespace ClusterNode

/-- The calls of any number of tasks on one node. -/
abbrev Sharing := Machine Cell.Content ℕ Section Reply

variable {c : ClusterNode} {as : List (Act ℕ Section)} {s : Sharing}
  {w : List (Moment ℕ Section Reply)}

theorem spec_of_spec (v : ∀ k : Cell, k.Content) (d : ClusterNode) (o : Section) (r : Reply)
    (v' : ∀ k : Cell, k.Content) (h : v = d.fields ∧ d.localNode = c.localNode)
    (hspec : Machine.spec (Section.body c.localNode) v o r v') :
    ∃ d', Section.spec d o r d' ∧ v' = d'.fields ∧ d'.localNode = c.localNode := by
  obtain ⟨rfl, hlocal⟩ := h
  rw [Machine.spec, ← hlocal, Section.exec_body, Prod.mk.injEq] at hspec
  obtain ⟨rfl, rfl⟩ := hspec
  exact ⟨_, rfl, rfl, (Section.localNode_apply d o).trans hlocal⟩

/-- The methods of a node are linearizable section by section, whatever locks their tasks wait for
in between: every section returns what it would if it were one step of the node, in an order in
which no section comes before one that had returned when it was called.  When no section is under
way, the fields are what these steps lead to. -/
theorem sections_linearizable
    (hrun : run (traced (Machine.step (Section.body c.localNode))) (Machine.init c.fields, []) as =
      some (s, w)) :
    Linearizes Section.spec c (history w) (log w) ∧
      ((∀ i t, s.tasks i ≠ .running t) →
        ∃ d, Legal Section.spec c ((log w).map Prod.snd) d ∧ s.store = d.fields) := by
  have hbody := Section.twoPhase_body c.localNode
  have hsim := spec_of_spec (c := c)
  constructor
  · exact (Machine.linearizes_of_run hbody hrun).simulate hsim ⟨rfl, rfl⟩
  · intro hidle
    obtain ⟨d, hlegal, hstore, -⟩ :=
      (Machine.legal_of_run hbody hrun hidle).simulate hsim ⟨rfl, rfl⟩
    exact ⟨d, hlegal, hstore⟩

/-- The pass of task 0 waits for the guard of task 1, which waits for the registry: it reads the
members after the merge of task 1, although it was called before. -/
def contended : List (Act ℕ Section) :=
  [.call 2 (.registerActor "a" "worker"), .advance 2, .advance 2, .call 0 (.markFailed 5 20),
    .call 1 (.mergeGossip ⟨[⟨"x", "h:1", 0⟩], []⟩ "x" 20), .advance 1, .advance 1, .advance 0,
    .advance 1, .advance 1, .advance 1, .advance 1, .advance 1, .advance 1, .advance 1, .advance 2,
    .advance 2, .advance 2, .advance 2, .advance 1, .advance 1, .advance 1, .advance 1, .advance 1,
    .advance 0, .advance 0, .advance 0, .advance 0, .advance 0, .advance 0, .advance 0, .advance 0,
    .advance 0]

theorem contended_linearized :
    ∃ s w,
      run (traced (Machine.step (Section.body (new "b" "h:2" 0).localNode)))
        (Machine.init (new "b" "h:2" 0).fields, []) contended = some (s, w) ∧
      (log w).filterMap Prod.fst = [2, 1, 0] ∧
      Linearizes Section.spec (new "b" "h:2" 0) (history w) (log w) := by
  have hend : (run (traced (Machine.step (Section.body (new "b" "h:2" 0).localNode)))
      (Machine.init (new "b" "h:2" 0).fields, []) contended).map
        (fun s ↦ (log s.2).filterMap Prod.fst) = some [2, 1, 0] := by decide +kernel
  obtain ⟨⟨s, w⟩, hrun, horder⟩ := Option.map_eq_some_iff.mp hend
  exact ⟨s, w, hrun, horder, (sections_linearizable hrun).1⟩

/-- The methods of a node never block each other for good. -/
theorem sections_never_deadlock
    (hrun : run (traced (Machine.step (Section.body c.localNode))) (Machine.init c.fields, []) as =
      some (s, w)) {i : ℕ} {t : Task Cell.Content Section Reply} (htask : s.tasks i = .running t) :
    ∃ j, (Machine.step (Section.body c.localNode) s (.advance j)).isSome :=
  (Machine.orderly_of_run (Section.twoPhase_body c.localNode) hrun).exists_advance htask

theorem contended_can_go_on :
    ∃ s w t,
      run (traced (Machine.step (Section.body (new "b" "h:2" 0).localNode)))
        (Machine.init (new "b" "h:2" 0).fields, []) (contended.take 15) = some (s, w) ∧
      s.tasks 0 = .running t ∧
      ∃ j, (Machine.step (Section.body (new "b" "h:2" 0).localNode) s (.advance j)).isSome := by
  have hend : (run (traced (Machine.step (Section.body (new "b" "h:2" 0).localNode)))
      (Machine.init (new "b" "h:2" 0).fields, []) (contended.take 15)).map
        (fun s ↦ (s.1.tasks 0).isRunning) = some true := by decide +kernel
  obtain ⟨⟨s, w⟩, hrun, htask⟩ := Option.map_eq_some_iff.mp hend
  cases ht : s.tasks 0 with
  | running t => exact ⟨s, w, t, hrun, ht, sections_never_deadlock hrun ht⟩
  | idle | returned => simp [ht, Status.isRunning] at htask

end ClusterNode

end Cineyma.Cluster
