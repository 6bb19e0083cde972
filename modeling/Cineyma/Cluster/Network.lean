import Cineyma.Foundations.Run
import Cineyma.Cluster.FailureDetection

/-!
# A cluster of nodes exchanging gossip

The nodes run asynchronously.  A created message stays in `sent` for ever, so a
delivery may be late, lost, repeated or out of order.  Each operation of a node
is one step; a merge needs a message that some node created.
-/

namespace Cineyma.Cluster

open Std StepSystem

/-- The running nodes, each filed under its own id, and every message created so
far with the id of its creator. -/
structure Network where
  nodes : ExtTreeMap String ClusterNode
  sent : List (String × GossipMessage)
  now : ℕ
  keyed : ∀ (k : String) (c : ClusterNode), nodes[k]? = some c → c.localNode.id = k

namespace Network

inductive Action where
  | start (id addr : String)
  | tick (elapsed : ℕ)
  | act (k : String) (suspectTimeout : ℕ) (op : Op)
  | create (k : String) (gossip : GossipMessage)
  deriving DecidableEq

def init : Network := ⟨∅, [], 0, by simp⟩

def put (net : Network) (c : ClusterNode) : Network where
  nodes := net.nodes.insert c.localNode.id c
  sent := net.sent
  now := net.now
  keyed := by
    intro k d h
    rw [ExtTreeMap.getElem?_insert] at h
    split at h
    · next hk =>
        cases h
        exact LawfulEqCmp.compare_eq_iff_eq.mp hk
    · exact net.keyed k d h

@[simp] theorem nodes_put (net : Network) (c : ClusterNode) (k : String) :
    (net.put c).nodes[k]? = if c.localNode.id = k then some c else net.nodes[k]? := by
  simp only [put, ExtTreeMap.getElem?_insert, LawfulEqCmp.compare_eq_iff_eq]

/-- Only messages that were created can be merged. -/
def Deliverable (net : Network) : Op → Prop
  | .mergeGossip g sender => (sender, g) ∈ net.sent
  | _ => True

instance (net : Network) : DecidablePred net.Deliverable := fun op ↦
  match op with
  | .mergeGossip g sender => inferInstanceAs (Decidable ((sender, g) ∈ net.sent))
  | .addMember _ => inferInstanceAs (Decidable True)
  | .registerActor _ _ => inferInstanceAs (Decidable True)
  | .failureDetection => inferInstanceAs (Decidable True)

instance (c : ClusterNode) (g : GossipMessage) : Decidable (c.IsGossipOf g) :=
  inferInstanceAs (Decidable (_ ∧ _))

def step (net : Network) : Action → Option Network
  | .start id addr =>
      if id ∈ net.nodes then none else some (net.put (.new id addr net.now))
  | .tick elapsed => some { net with now := net.now + elapsed }
  | .act k T op => net.nodes[k]?.bind fun c ↦
      if net.Deliverable op then some (net.put (c.apply T ⟨net.now, op⟩)) else none
  | .create k g => net.nodes[k]?.bind fun c ↦
      if c.IsGossipOf g then some { net with sent := net.sent ++ [(k, g)] } else none

theorem step_act_eq_some {net net' : Network} {k : String} {T : ℕ} {op : Op} :
    net.step (.act k T op) = some net' ↔ ∃ c, net.nodes[k]? = some c ∧ net.Deliverable op ∧
      net' = net.put (c.apply T ⟨net.now, op⟩) := by
  simp only [step, Option.bind_eq_some_iff]
  constructor
  · rintro ⟨c, hc, h⟩
    split at h
    · next hop => exact ⟨c, hc, hop, (Option.some.inj h).symm⟩
    · cases h
  · rintro ⟨c, hc, hop, rfl⟩
    exact ⟨c, hc, if_pos hop⟩

theorem step_create_eq_some {net net' : Network} {k : String} {g : GossipMessage} :
    net.step (.create k g) = some net' ↔ ∃ c, net.nodes[k]? = some c ∧ c.IsGossipOf g ∧
      net' = { net with sent := net.sent ++ [(k, g)] } := by
  simp only [step, Option.bind_eq_some_iff]
  constructor
  · rintro ⟨c, hc, h⟩
    split at h
    · next hg => exact ⟨c, hc, hg, (Option.some.inj h).symm⟩
    · cases h
  · rintro ⟨c, hc, hg, rfl⟩
    exact ⟨c, hc, if_pos hg⟩

theorem step_start_eq_some {net net' : Network} {id addr : String} :
    net.step (.start id addr) = some net' ↔
      id ∉ net.nodes ∧ net' = net.put (.new id addr net.now) := by
  simp only [step]
  by_cases h : id ∈ net.nodes
  · simp [h]
  · simp [h, eq_comm]

/-! ## A node's view of itself -/

/-- Every running node lists itself as it is: up, at its own address. -/
def SelfUp (net : Network) : Prop :=
  ∀ (k : String) (c : ClusterNode), net.nodes[k]? = some c →
    c.localNode.status = .up ∧ c.members.get? k = some c.localNode

/-- Every message advertises its creator once, up and at its own address. -/
def AdvertisesSelf (net : Network) : Prop :=
  ∀ k g, (k, g) ∈ net.sent → ∃ c, net.nodes[k]? = some c ∧ c.localNode.status = .up ∧
    g.members.filter (fun info ↦ info.id = k) = [NodeInfo.ofNode c.localNode]

/-- The step does not tell a node that it is anything but up. -/
def SparesReceiver : Action → Prop
  | .act k _ (.mergeGossip g _) => g.reported k = none ∨ g.reported k = some .up
  | _ => True

/-- Nobody adds a node to its own members by hand. -/
def AddsOthers : Action → Prop
  | .act k _ (.addMember node) => node.id ≠ k
  | _ => True

/-- Every message in flight was created by some node. -/
def AllCreated (net : Network) : Prop :=
  ∀ k g, (k, g) ∈ net.sent → ∃ c : ClusterNode, c.IsGossipOf g

theorem allCreated_step {net net' : Network} {a : Action} (h : net.AllCreated)
    (hstep : net.step a = some net') : net'.AllCreated := by
  intro k g hg
  cases a with
  | start id addr =>
      obtain ⟨_, rfl⟩ := step_start_eq_some.mp hstep
      exact h k g hg
  | tick elapsed =>
      cases hstep
      exact h k g hg
  | act l T op =>
      obtain ⟨c, _, _, rfl⟩ := step_act_eq_some.mp hstep
      exact h k g hg
  | create l g' =>
      obtain ⟨c, _, hcreated, rfl⟩ := step_create_eq_some.mp hstep
      rcases List.mem_append.mp hg with hg | hg
      · exact h k g hg
      · simp only [List.mem_singleton, Prod.mk.injEq] at hg
        exact ⟨c, hg.2 ▸ hcreated⟩

/-- Whatever a node does, its own record stays, as long as nobody reports it as
suspect or down. -/
theorem self_get?_apply {c : ClusterNode} {T now : ℕ} {op : Op}
    (hself : c.members.get? c.localNode.id = some c.localNode)
    (hup : c.localNode.status = .up)
    (hadd : ∀ node, op = .addMember node → node.id ≠ c.localNode.id)
    (hmerge : ∀ g sender, op = .mergeGossip g sender → ∃ creator : ClusterNode,
      creator.IsGossipOf g ∧ (g.reported c.localNode.id = none ∨
        g.reported c.localNode.id = some .up)) :
    (c.apply T ⟨now, op⟩).members.get? c.localNode.id = some c.localNode := by
  cases op with
  | addMember node =>
      change (c.members.insert node).get? _ = _
      rw [Members.get?_insert, if_neg (hadd node rfl), hself]
  | registerActor a t => exact hself
  | mergeGossip g sender =>
      obtain ⟨creator, hcreated, hspare⟩ := hmerge g sender rfl
      change (ClusterNode.mergeMembers c.members g.members).get? _ = _
      rw [hcreated.get?_mergeMembers, hself]
      rw [hcreated.reported_eq, ClusterNode.statusOf] at hspare
      cases hget : creator.members.get? c.localNode.id with
      | none => rfl
      | some node =>
          have hnode : node.status = .up := by simpa [hget] using hspare
          exact Members.mergeEntry_eq_self (hup.trans hnode.symm)
  | failureDetection =>
      change (c.failureDetection T now).members.get? _ = _
      rw [ClusterNode.get?_failureDetection, hself]
      simp [ClusterNode.detect]

theorem selfUp_step {net net' : Network} {a : Action} (h : net.SelfUp)
    (hcreated : net.AllCreated) (hadds : AddsOthers a) (hspares : SparesReceiver a)
    (hstep : net.step a = some net') : net'.SelfUp := by
  intro k c hc
  cases a with
  | start id addr =>
      obtain ⟨_, rfl⟩ := step_start_eq_some.mp hstep
      rw [nodes_put] at hc
      split at hc
      · next hid =>
          cases hc
          change id = k at hid
          subst hid
          exact ⟨rfl, by simp [ClusterNode.new]⟩
      · exact h k c hc
  | tick elapsed =>
      cases hstep
      exact h k c hc
  | act l T op =>
      obtain ⟨d, hd, hdeliver, rfl⟩ := step_act_eq_some.mp hstep
      rw [nodes_put] at hc
      split at hc
      · next hid =>
          cases hc
          rw [ClusterNode.localNode_apply] at hid ⊢
          have hl := net.keyed l d hd
          subst hl
          subst hid
          obtain ⟨hup, hself⟩ := h _ d hd
          refine ⟨hup, self_get?_apply hself hup ?_ ?_⟩
          · rintro node rfl
            exact hadds
          · rintro g sender rfl
            obtain ⟨creator, hg⟩ := hcreated sender g hdeliver
            exact ⟨creator, hg, hspares⟩
      · exact h k c hc
  | create l g =>
      obtain ⟨_, _, _, rfl⟩ := step_create_eq_some.mp hstep
      exact h k c hc

/-- A running node keeps running, with the record it was started with. -/
theorem nodes_step {net net' : Network} {a : Action} (hstep : net.step a = some net')
    {k : String} {c : ClusterNode} (hc : net.nodes[k]? = some c) :
    ∃ c', net'.nodes[k]? = some c' ∧ c'.localNode = c.localNode := by
  cases a with
  | start id addr =>
      obtain ⟨hfresh, rfl⟩ := step_start_eq_some.mp hstep
      refine ⟨c, ?_, rfl⟩
      have hne : id ≠ k := by
        rintro rfl
        exact hfresh (ExtTreeMap.mem_iff_isSome_getElem?.mpr (by simp [hc]))
      rw [nodes_put, if_neg (by simpa [ClusterNode.new] using hne), hc]
  | tick elapsed =>
      cases hstep
      exact ⟨c, hc, rfl⟩
  | act l T op =>
      obtain ⟨d, hd, _, rfl⟩ := step_act_eq_some.mp hstep
      rw [nodes_put, ClusterNode.localNode_apply, net.keyed l d hd]
      by_cases hl : l = k
      · subst hl
        rw [hc, Option.some.injEq] at hd
        subst hd
        exact ⟨_, if_pos rfl, ClusterNode.localNode_apply T c _⟩
      · exact ⟨c, by rw [if_neg hl, hc], rfl⟩
  | create l g =>
      obtain ⟨_, _, _, rfl⟩ := step_create_eq_some.mp hstep
      exact ⟨c, hc, rfl⟩

theorem advertisesSelf_step {net net' : Network} {a : Action} (h : net.AdvertisesSelf)
    (hself : net.SelfUp) (hstep : net.step a = some net') : net'.AdvertisesSelf := by
  -- an old message is judged by the record of its creator, which never changes
  have hold : ∀ k g, (k, g) ∈ net.sent → ∃ c, net'.nodes[k]? = some c ∧
      c.localNode.status = .up ∧
      g.members.filter (fun info ↦ info.id = k) = [NodeInfo.ofNode c.localNode] := by
    intro k g hg
    obtain ⟨c, hc, hup, hfilter⟩ := h k g hg
    obtain ⟨c', hc', hlocal⟩ := nodes_step hstep hc
    exact ⟨c', hc', hlocal ▸ hup, hlocal ▸ hfilter⟩
  intro k g hg
  cases a with
  | start id addr =>
      obtain ⟨_, rfl⟩ := step_start_eq_some.mp hstep
      exact hold k g hg
  | tick elapsed =>
      cases hstep
      exact hold k g hg
  | act l T op =>
      obtain ⟨d, _, _, rfl⟩ := step_act_eq_some.mp hstep
      exact hold k g hg
  | create l g' =>
      obtain ⟨c, hc, hcreated, rfl⟩ := step_create_eq_some.mp hstep
      rcases List.mem_append.mp hg with hg | hg
      · exact hold k g hg
      · simp only [List.mem_singleton, Prod.mk.injEq] at hg
        obtain ⟨rfl, rfl⟩ := hg
        obtain ⟨hup, hget⟩ := hself k c hc
        have hid := net.keyed k c hc
        have hmem : NodeInfo.ofNode c.localNode ∈ g.members :=
          hcreated.mem_members.mpr ⟨c.localNode, hid ▸ hget, rfl⟩
        have hfilter := KeyedFold.filter_key_eq_singleton hcreated.nodup_ids hmem
        rw [NodeInfo.ofNode_id, hid] at hfilter
        exact ⟨c, hc, hup, hfilter⟩

theorem spares_of_selfUp {net net' : Network} {k sender : String} {T : ℕ} {g : GossipMessage}
    (hstep : net.step (.act k T (.mergeGossip g sender)) = some net') (hself : net'.SelfUp) :
    SparesReceiver (.act k T (.mergeGossip g sender)) := by
  obtain ⟨c, hc, _, rfl⟩ := step_act_eq_some.mp hstep
  have hid := net.keyed k c hc
  obtain ⟨hup, hget⟩ := hself k (c.apply T ⟨net.now, .mergeGossip g sender⟩) (by
    rw [nodes_put, ClusterNode.localNode_apply, if_pos hid])
  change c.localNode.status = .up at hup
  change (c.mergeGossip g sender net.now).members.get? k = some c.localNode at hget
  have hstatus := ClusterNode.statusOf_mergeGossip c g sender net.now k
  rw [ClusterNode.statusOf, hget, Option.map_some, hup] at hstatus
  change g.reported k = none ∨ g.reported k = some .up
  cases hg : g.reported k with
  | none => exact Or.inl rfl
  | some status =>
      rw [hg, Option.some_or] at hstatus
      exact Or.inr hstatus.symm

/-- In a run every node lists and advertises itself as up at its own address, in
every state, if and only if no merge ever tells a node otherwise. -/
theorem selfUp_run_iff {as : List Action} {net : Network} (hrun : run step init as = some net)
    (hadds : ∀ a ∈ as, AddsOthers a) :
    (∀ pre net', pre <+: as → run step init pre = some net' →
      net'.SelfUp ∧ net'.AdvertisesSelf) ↔
    ∀ a ∈ as, SparesReceiver a := by
  constructor
  · intro h a ha
    obtain ⟨pre, post, rfl⟩ := List.append_of_mem ha
    rw [List.append_cons] at h hrun
    obtain ⟨u, hu, _⟩ := run_append_eq_some.mp hrun
    obtain ⟨t, _, hstep⟩ := run_concat_eq_some.mp hu
    obtain ⟨hself, -⟩ := h (pre ++ [a]) u (List.prefix_append _ post) hu
    match a with
    | .act k T (.mergeGossip g sender) => exact spares_of_selfUp hstep hself
    | .act k T (.addMember node) => trivial
    | .act k T (.registerActor a t) => trivial
    | .act k T .failureDetection => trivial
    | .start id addr => trivial
    | .tick elapsed => trivial
    | .create k g => trivial
  · intro h pre net' hpre hrun'
    have hinv : net'.SelfUp ∧ net'.AdvertisesSelf ∧ net'.AllCreated := by
      have hgood : Along step (fun _ a ↦ SparesReceiver a ∧ AddsOthers a) init pre := by
        intro pre' a t ha _
        have hmem : a ∈ as := (ha.trans hpre).subset (by simp)
        exact ⟨h a hmem, hadds a hmem⟩
      refine hgood.invariant (P := fun net ↦ net.SelfUp ∧ net.AdvertisesSelf ∧ net.AllCreated)
        ?_ ?_ hrun'
      · rintro t a u ⟨hself, hadv, hcreated⟩ ⟨hspares, ha⟩ hstep
        exact ⟨selfUp_step hself hcreated ha hspares hstep,
          advertisesSelf_step hadv hself hstep, allCreated_step hcreated hstep⟩
      · simp [SelfUp, AdvertisesSelf, AllCreated, init]
    exact ⟨hinv.1, hinv.2.1⟩

theorem two_nodes_stay_selfUp :
    ∃ net, run step init [.start "a" "h:1", .start "b" "h:2",
      .create "a" ⟨[⟨"a", "h:1", 0⟩], []⟩,
      .act "b" 5 (.mergeGossip ⟨[⟨"a", "h:1", 0⟩], []⟩ "a")] = some net ∧
      net.SelfUp ∧ net.AdvertisesSelf := by
  obtain ⟨net, hnet⟩ := Option.isSome_iff_exists.mp (show (run step init
    [.start "a" "h:1", .start "b" "h:2", .create "a" ⟨[⟨"a", "h:1", 0⟩], []⟩,
      .act "b" 5 (.mergeGossip ⟨[⟨"a", "h:1", 0⟩], []⟩ "a")]).isSome by decide)
  refine ⟨net, hnet, (selfUp_run_iff hnet ?_).mpr ?_ _ net List.prefix_rfl hnet⟩
  · simp [AddsOthers]
  · simp only [List.forall_mem_cons, SparesReceiver]
    exact ⟨trivial, trivial, trivial, by decide, by simp⟩

/-- Node `b` loses touch with `a`, marks it down and gossips; `a` merges the
message and then lists itself as down. -/
theorem merge_overwrites_own_record :
    ∃ net, run step init [.start "a" "h:1", .start "b" "h:2",
      .act "b" 5 (.addMember ⟨"a", "h:1", .up⟩), .tick 20, .act "b" 5 .failureDetection,
      .create "b" ⟨[⟨"a", "h:1", 2⟩, ⟨"b", "h:2", 0⟩], []⟩,
      .act "a" 5 (.mergeGossip ⟨[⟨"a", "h:1", 2⟩, ⟨"b", "h:2", 0⟩], []⟩ "b")] = some net ∧
      ¬ net.SelfUp := by
  refine ⟨_, rfl, ?_⟩
  intro h
  have hself := h "a" _ rfl
  exact absurd hself.2 (by decide)

end Network

end Cineyma.Cluster
