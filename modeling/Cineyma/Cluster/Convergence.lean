import Cineyma.Foundations.ChainExchange
import Cineyma.Cluster.Gossip

/-!
# Convergence along a chain

`send_gossip_to` is a two-way exchange: the peer merges our gossip and answers with
its own, which we merge.  What two nodes agree on after an exchange is their view,
that is the known ids with their statuses and the actor registry.  The initiator's
view has the last word, so views form a left regular band, and one pass up and one
pass down a chain make all views equal.
-/

namespace Cineyma.Cluster

open Std ChainExchange

/-- What a node believes about the cluster, addresses and heartbeats apart. -/
@[ext] structure View where
  status : String → Option NodeStatus
  location : String → Option Location

/-- The first view where it has an opinion, the second elsewhere. -/
def View.over (x y : View) : View where
  status k := (x.status k).or (y.status k)
  location a := (x.location a).or (y.location a)

theorem View.leftRegular_over : LeftRegular View.over where
  assoc x y z := by
    apply View.ext
    · funext k
      exact Option.or_assoc
    · funext a
      exact Option.or_assoc
  idem x := by
    apply View.ext
    · funext k
      exact Option.or_self
    · funext a
      exact Option.or_self
  absorb x y := by
    apply View.ext
    · funext k
      change ((x.status k).or (y.status k)).or (x.status k) = _
      cases hx : x.status k <;> cases hy : y.status k <;> simp [View.over, hx, hy]
    · funext a
      change ((x.location a).or (y.location a)).or (x.location a) = _
      cases hx : x.location a <;> cases hy : y.location a <;> simp [View.over, hx, hy]

namespace ClusterNode

def view (c : ClusterNode) : View := ⟨c.statusOf, c.lookupActor⟩

theorem view_mergeGossip {a : ClusterNode} {g : GossipMessage} (h : a.IsGossipOf g)
    (b : ClusterNode) (sender : String) (now : ℕ) :
    (b.mergeGossip g sender now).view = a.view.over b.view := by
  apply View.ext
  · funext k
    change (b.mergeGossip g sender now).statusOf k = _
    rw [statusOf_mergeGossip, h.reported_eq]
    rfl
  · funext actor
    exact h.lookupActor_mergeGossip b sender now actor

/-! ## Exchanges -/

/-- `a.send_gossip_to(b)`, with the hash maps listed in key order: the new state of
`a` and that of `b`. -/
def sendGossipTo (a b : ClusterNode) (now now' : ℕ) : ClusterNode × ClusterNode :=
  let b' := b.mergeGossip a.createGossipMessage a.localNode.id now
  (a.mergeGossip b'.createGossipMessage b'.localNode.id now', b')

/-- `a.send_gossip_to(b)` may turn `a` and `b` into `a'` and `b'`, for some iteration
orders of the hash maps and some times of the two merges. -/
def Exchange (a b a' b' : ClusterNode) : Prop :=
  ∃ g g' now now', a.IsGossipOf g ∧ b' = b.mergeGossip g a.localNode.id now ∧
    b'.IsGossipOf g' ∧ a' = a.mergeGossip g' b'.localNode.id now'

theorem exchange_sendGossipTo (a b : ClusterNode) (now now' : ℕ) :
    Exchange a b (a.sendGossipTo b now now').1 (a.sendGossipTo b now now').2 :=
  ⟨_, _, now, now', a.isGossipOf_createGossipMessage, rfl,
    isGossipOf_createGossipMessage _, rfl⟩

theorem Exchange.view_eq {a b a' b' : ClusterNode} (h : Exchange a b a' b') :
    a'.view = a.view.over b.view ∧ b'.view = a.view.over b.view := by
  obtain ⟨g, g', now, now', hg, rfl, hg', rfl⟩ := h
  have hb := view_mergeGossip hg b a.localNode.id now
  refine ⟨?_, hb⟩
  rw [view_mergeGossip hg' a, hb, View.leftRegular_over.absorb]

/-- Node `a` exchanges with the first of the list, that one with the second, and so on. -/
inductive Forward : ClusterNode → List ClusterNode → List ClusterNode → Prop
  | last (a : ClusterNode) : Forward a [] [a]
  | next {a b a' b' : ClusterNode} {rest out : List ClusterNode} :
      Exchange a b a' b' → Forward b' rest out → Forward a (b :: rest) (a' :: out)

/-- The last node exchanges with the one before it, and so on down to the first. -/
inductive Backward : List ClusterNode → List ClusterNode → Prop
  | last (a : ClusterNode) : Backward [a] [a]
  | next {a b a' b' b'' : ClusterNode} {rest out : List ClusterNode} :
      Backward (b :: rest) (b' :: out) → Exchange b' a b'' a' →
        Backward (a :: b :: rest) (a' :: b'' :: out)

theorem Forward.view_eq {a : ClusterNode} {rest out : List ClusterNode}
    (h : Forward a rest out) : out.map view = forward View.over a.view (rest.map view) := by
  induction h with
  | last a => rfl
  | next hex _ ih =>
      obtain ⟨ha, hb⟩ := hex.view_eq
      rw [List.map_cons, List.map_cons, forward, ih, ha, hb]

theorem Backward.view_eq {nodes out : List ClusterNode} (h : Backward nodes out) :
    out.map view = backward View.over (nodes.map view) := by
  induction h with
  | last a => rfl
  | next hback hex ih =>
      obtain ⟨hb, ha⟩ := hex.view_eq
      rw [List.map_cons] at ih
      refine Eq.trans ?_ (backward_cons_of_eq_cons _ ih.symm).symm
      rw [List.map_cons, List.map_cons, ha, hb]

theorem Exchange.localNode_eq {a b a' b' : ClusterNode} (h : Exchange a b a' b') :
    a'.localNode = a.localNode ∧ b'.localNode = b.localNode := by
  obtain ⟨g, g', now, now', _, rfl, _, rfl⟩ := h
  exact ⟨rfl, rfl⟩

theorem Forward.localNode_eq {a : ClusterNode} {rest out : List ClusterNode}
    (h : Forward a rest out) : out.map localNode = (a :: rest).map localNode := by
  induction h with
  | last a => rfl
  | next hex _ ih =>
      obtain ⟨ha, hb⟩ := hex.localNode_eq
      rw [List.map_cons, ih, List.map_cons, ha, hb]
      rfl

theorem Backward.localNode_eq {nodes out : List ClusterNode} (h : Backward nodes out) :
    out.map localNode = nodes.map localNode := by
  induction h with
  | last a => rfl
  | next _ hex ih =>
      obtain ⟨hb, ha⟩ := hex.localNode_eq
      rw [List.map_cons, List.map_cons, ha, hb, ← List.map_cons, ih]
      rfl

/-- All views agree after both passes. -/
theorem view_eq_of_chain {a : ClusterNode} {rest mid out : List ClusterNode}
    (hf : Forward a rest mid) (hb : Backward mid out) :
    ∀ c ∈ out, c.view = (rest.map view).foldl View.over a.view := by
  intro c hc
  have hviews : out.map view =
      List.replicate (forward View.over a.view (rest.map view)).length
        ((rest.map view).foldl View.over a.view) := by
    rw [hb.view_eq, hf.view_eq]
    exact backward_forward View.leftRegular_over a.view (rest.map view)
  have hmem : c.view ∈ out.map view := List.mem_map_of_mem hc
  rw [hviews] at hmem
  exact List.eq_of_mem_replicate hmem

/-! ## Addresses -/

/-- Every record of the node carries the address that `addr` gives to its id. -/
def AddrBy (addr : String → String) (c : ClusterNode) : Prop :=
  ∀ k node, c.members.get? k = some node → node.addr = addr k

theorem AddrBy.mergeGossip {addr : String → String} {a b : ClusterNode} {g : GossipMessage}
    (ha : AddrBy addr a) (hb : AddrBy addr b) (hg : a.IsGossipOf g) (sender : String)
    (now : ℕ) : AddrBy addr (b.mergeGossip g sender now) := by
  intro k node hnode
  change (mergeMembers b.members g.members).get? k = some node at hnode
  rw [hg.get?_mergeMembers] at hnode
  cases hka : a.members.get? k with
  | none =>
      rw [hka] at hnode
      exact hb k node hnode
  | some theirs =>
      rw [hka] at hnode
      cases hkb : b.members.get? k with
      | none =>
          rw [hkb] at hnode
          cases hnode
          exact ha k node hka
      | some ours =>
          rw [hkb] at hnode
          have haddr : ours.addr = theirs.addr := (hb k ours hkb).trans (ha k theirs hka).symm
          rw [Members.mergeEntry_addr haddr hnode, ha k theirs hka]

theorem Exchange.addrBy {addr : String → String} {a b a' b' : ClusterNode}
    (h : Exchange a b a' b') (ha : AddrBy addr a) (hb : AddrBy addr b) :
    AddrBy addr a' ∧ AddrBy addr b' := by
  obtain ⟨g, g', now, now', hg, rfl, hg', rfl⟩ := h
  have hb' := ha.mergeGossip hb hg a.localNode.id now
  exact ⟨hb'.mergeGossip ha hg' _ now', hb'⟩

theorem Forward.addrBy {addr : String → String} {a : ClusterNode}
    {rest out : List ClusterNode} (h : Forward a rest out) (ha : AddrBy addr a)
    (hrest : ∀ c ∈ rest, AddrBy addr c) : ∀ c ∈ out, AddrBy addr c := by
  induction h with
  | last a => simpa using ha
  | next hex _ ih =>
      obtain ⟨ha', hb'⟩ := hex.addrBy ha (hrest _ List.mem_cons_self)
      intro c hc
      rcases List.mem_cons.mp hc with rfl | hc
      · exact ha'
      · exact ih hb' (fun d hd ↦ hrest d (List.mem_cons_of_mem _ hd)) c hc

theorem Backward.addrBy {addr : String → String} {nodes out : List ClusterNode}
    (h : Backward nodes out) (hnodes : ∀ c ∈ nodes, AddrBy addr c) :
    ∀ c ∈ out, AddrBy addr c := by
  induction h with
  | last a => exact hnodes
  | next _ hex ih =>
      have hrest := ih fun d hd ↦ hnodes d (List.mem_cons_of_mem _ hd)
      obtain ⟨hb'', ha'⟩ := hex.addrBy (hrest _ List.mem_cons_self)
        (hnodes _ List.mem_cons_self)
      intro c hc
      rcases List.mem_cons.mp hc with rfl | hc
      · exact ha'
      rcases List.mem_cons.mp hc with rfl | hc
      · exact hb''
      · exact hrest c (List.mem_cons_of_mem _ hc)

/-- States that never disagree on an address have a common address book. -/
theorem exists_addrBy {nodes : List ClusterNode}
    (h : ∀ c ∈ nodes, ∀ d ∈ nodes, ∀ k m n, c.members.get? k = some m →
      d.members.get? k = some n → m.addr = n.addr) :
    ∃ addr, ∀ c ∈ nodes, AddrBy addr c := by
  have hbook : ∀ k, ∃ addr, ∀ c ∈ nodes, ∀ node, c.members.get? k = some node →
      node.addr = addr := by
    intro k
    by_cases hk : ∃ d ∈ nodes, ∃ n, d.members.get? k = some n
    · obtain ⟨d, hd, n, hn⟩ := hk
      exact ⟨n.addr, fun c hc node hnode ↦ h c hc d hd k node n hnode hn⟩
    · exact ⟨"", fun c hc node hnode ↦ absurd ⟨c, hc, node, hnode⟩ hk⟩
  choose addr haddr using hbook
  exact ⟨addr, fun c hc k node hnode ↦ haddr k c hc node hnode⟩

theorem members_eq_of_view_eq {addr : String → String} {c d : ClusterNode}
    (hview : c.view = d.view) (hc : AddrBy addr c) (hd : AddrBy addr d) :
    c.members = d.members := by
  apply Members.ext_get?
  intro k
  have hstatus : c.statusOf k = d.statusOf k := congrFun (congrArg View.status hview) k
  rw [statusOf, statusOf] at hstatus
  cases hck : c.members.get? k with
  | none =>
      rw [hck, Option.map_none, eq_comm, Option.map_eq_none_iff] at hstatus
      exact hstatus.symm
  | some m =>
      rw [hck, Option.map_some, eq_comm, Option.map_eq_some_iff] at hstatus
      obtain ⟨n, hn, hmn⟩ := hstatus
      have hid : m.id = n.id := (Members.id_of_get? hck).trans (Members.id_of_get? hn).symm
      have haddr : m.addr = n.addr := (hc k m hck).trans (hd k n hn).symm
      rw [hn, Option.some.injEq]
      obtain ⟨mid, maddr, mstatus⟩ := m
      obtain ⟨nid, naddr, nstatus⟩ := n
      simp only at hid haddr hmn
      rw [hid, haddr, hmn]

/-! ## Agreement -/

/-- One pass up and one pass down a chain of at least two nodes leave all nodes with
the same known ids, statuses and registry, and with the same members maps if no two
initial states disagreed on an address. -/
theorem chain_exchange_agrees {a b : ClusterNode} {rest mid out : List ClusterNode}
    (hf : Forward a (b :: rest) mid) (hb : Backward mid out) :
    out.map localNode = (a :: b :: rest).map localNode ∧
    (∀ c ∈ out, ∀ d ∈ out, (∀ k, k ∈ c.members ↔ k ∈ d.members) ∧
      (∀ k, c.statusOf k = d.statusOf k) ∧ c.actorRegistry = d.actorRegistry) ∧
    ((∀ c ∈ a :: b :: rest, ∀ d ∈ a :: b :: rest, ∀ k m n, c.members.get? k = some m →
        d.members.get? k = some n → m.addr = n.addr) →
      ∀ c ∈ out, ∀ d ∈ out, c.members = d.members) := by
  have hview : ∀ c ∈ out, ∀ d ∈ out, c.view = d.view := by
    intro c hc d hd
    rw [view_eq_of_chain hf hb c hc, view_eq_of_chain hf hb d hd]
  refine ⟨hb.localNode_eq.trans hf.localNode_eq, ?_, ?_⟩
  · intro c hc d hd
    have hstatus : ∀ k, c.statusOf k = d.statusOf k :=
      fun k ↦ congrFun (congrArg View.status (hview c hc d hd)) k
    refine ⟨fun k ↦ ?_, hstatus, ?_⟩
    · rw [mem_members_iff_statusOf, mem_members_iff_statusOf, hstatus]
    · apply ExtTreeMap.ext_getElem?
      intro actor
      exact congrFun (congrArg View.location (hview c hc d hd)) actor
  · intro haddr c hc d hd
    obtain ⟨addr, hall⟩ := exists_addrBy haddr
    have hmid := hf.addrBy (hall a List.mem_cons_self)
      fun e he ↦ hall e (List.mem_cons_of_mem a he)
    have hout := hb.addrBy hmid
    exact members_eq_of_view_eq (hview c hc d hd) (hout c hc) (hout d hd)

/-- Two nodes, of which the first knows the second as suspect and the second runs an
actor. -/
theorem two_node_chain_agrees :
    let a := (new "a" "h:1" 0).addMember ⟨"b", "h:2", .suspect⟩ 0
    let b := (new "b" "h:2" 0).registerActor "y" "Cache"
    let up := a.sendGossipTo b 1 1
    let down := up.2.sendGossipTo up.1 2 2
    Forward a [b] [up.1, up.2] ∧ Backward [up.1, up.2] [down.2, down.1] ∧
      down.2.members = down.1.members ∧ down.2.actorRegistry = down.1.actorRegistry := by
  intro a b up down
  have hf : Forward a [b] [up.1, up.2] := .next (exchange_sendGossipTo a b 1 1) (.last _)
  have hb : Backward [up.1, up.2] [down.2, down.1] :=
    .next (.last _) (exchange_sendGossipTo up.2 up.1 2 2)
  obtain ⟨_, hview, hmembers⟩ := chain_exchange_agrees hf hb
  have hbook : ∀ c ∈ [a, b], AddrBy (fun k ↦ if k = "a" then "h:1" else "h:2") c := by
    intro c hc k node hnode
    rcases List.mem_pair.mp hc with rfl | rfl
    · simp only [a, addMember, new, Members.get?_insert, Members.get?_empty] at hnode
      grind
    · simp only [b, registerActor, new, Members.get?_insert, Members.get?_empty] at hnode
      grind
  refine ⟨hf, hb, hmembers ?_ _ (by simp) _ (by simp), (hview _ (by simp) _ (by simp)).2.2⟩
  intro c hc d hd k m n hm hn
  rw [hbook c hc k m hm, hbook d hd k n hn]

end ClusterNode

end Cineyma.Cluster
