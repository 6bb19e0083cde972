import Cineyma.Cluster.Knowledge
import Cineyma.Cluster.Suspicion

/-!
# Finding an actor in the cluster

An actor location never names a node that is not a member.  An actor that only one node registers is
found by the nodes to which there is a causal path from the registration, and by nobody else, as
long as no pass drops that node, and no pass does that before its silence has lasted for twice the
timeout.
-/

namespace Cineyma.Cluster

open Std StepSystem

namespace Paced

variable {p q : Paced} {a : Action} {as : List Action} {k n b : String} {c c' : ClusterNode}
  {src : ℕ → Option ℕ} {i : ℕ}

/-! ## Locations name members -/

/-- Every location, on a node or in a message, names a member that is listed with it. -/
structure Resolved (p : Paced) : Prop where
  nodes : ∀ (k : String) (c : ClusterNode), p.net.nodes[k]? = some c →
    ∀ b loc, c.lookupActor b = some loc → loc.1 ∈ c.members
  sent : ∀ k g, (k, g) ∈ p.net.sent →
    ∀ loc ∈ g.actors, (g.reported loc.nodeId).isSome = true

theorem resolved_of_change (h : Resolved p) (hself : k ∈ c.members)
    (hc : p.net.nodes[k]? = some c) (hchange : Change p k c a c') {loc : Location}
    (hloc : c'.lookupActor b = some loc) : loc.1 ∈ c'.members := by
  have hold := h.nodes k c hc
  -- a clean-up only takes locations away
  have hclean : ∀ {d : ClusterNode} {down : List String},
      (d.cleanUpActors down).lookupActor b = some loc → d.lookupActor b = some loc := by
    intro d down hloc
    rw [ClusterNode.lookupActor_cleanUpActors] at hloc
    exact (Option.filter_eq_some_iff.mp hloc).1
  cases hchange with
  | same => exact hold b loc hloc
  | marked T now => exact (c.mem_markFailed T now loc.1).mpr (hold b loc hloc)
  | cleaned down hdown =>
      rw [ClusterNode.members_cleanUpActors]
      exact hold b loc (hclean hloc)
  | applied T op hop =>
      cases op with
      | addMember node =>
          exact (c.mem_addMember node p.net.now loc.1).mpr (.inl (hold b loc hloc))
      | registerActor b' t =>
          change (c.registerActor b' t).lookupActor b = some loc at hloc
          rw [ClusterNode.lookupActor_registerActor] at hloc
          split at hloc
          · cases hloc
            rw [p.net.keyed k c hc]
            exact hself
          · exact hold b loc hloc
      | mergeGossip g sender =>
          change (c.mergeGossip g sender p.net.now).lookupActor b = some loc at hloc
          rw [ClusterNode.lookupActor_mergeGossip, Option.or_eq_some_iff] at hloc
          refine (c.mem_mergeGossip g sender p.net.now loc.1).mpr ?_
          rcases hloc with hnew | ⟨-, hkept⟩
          · exact .inr (h.sent sender g hop _ (ClusterNode.mem_of_announced hnew))
          · exact .inl (hold b loc hkept)
      | failureDetection =>
          change loc.1 ∈ (c.failureDetection T p.net.now).members
          rw [ClusterNode.failureDetection, ClusterNode.members_cleanUpActors, c.mem_markFailed]
          exact hold b loc (hclean (d := c.markFailed T p.net.now) hloc)

theorem resolved_of_run (hrun : run step init as = some p) : Resolved p := by
  refine run_history (P := fun _ p ↦ Resolved p) ?_ ?_ hrun
  · refine ⟨fun k c hc ↦ ?_, fun k g hg ↦ ?_⟩
    · simp [init, Network.init] at hc
    · cases hg
  · intro as p a q h hrun hstep
    constructor
    · intro k c' hc' b loc hloc
      obtain ⟨addr, -, rfl⟩ | ⟨c, hc, hchange⟩ := change_of_step hstep hc'
      · simp [ClusterNode.lookupActor, ClusterNode.new] at hloc
      · exact resolved_of_change h (knows_self hrun hc) hc hchange hloc
    · intro k g hg loc hloc
      obtain hg | ⟨c, hc, hcreated⟩ := sent_of_step hstep hg
      · exact h.sent k g hg loc hloc
      · rw [hcreated.reported_eq, ← ClusterNode.mem_members_iff_statusOf]
        exact h.nodes k c hc loc.actorId _ (hcreated.mem_actors.mp hloc)

/-! ## Who is dropped -/

/-- The pass removes the actors of `n` only if it has not been in contact for twice the timeout. -/
def Ousts (n : String) (as : List Action) : Action → Prop
  | .net (.act k T .failureDetection) => Silent k n (T * 2) (heard k n as).1 as
  | .mark k T now => Silent k n (T * 2) now as
  | _ => False

instance (k x : String) (T now : ℕ) (as : List Action) : Decidable (Silent k x T now as) :=
  inferInstanceAs (Decidable (x ≠ k ∧ ∃ last ∈ (heard k x as).2, T < now - last))

instance (n : String) (as : List Action) : DecidablePred (Ousts n as) := fun a ↦ by
  unfold Ousts
  split <;> infer_instance

/-- No step of the run drops `n`. -/
def Kept (n : String) (as : List Action) : Prop :=
  ∀ i a, as[i]? = some a → ¬ Ousts n (as.take i) a

instance (n : String) (as : List Action) : Decidable (Kept n as) :=
  decidable_of_iff (∀ i < as.length, ∀ a ∈ as[i]?, ¬ Ousts n (as.take i) a)
    ⟨fun h i a ha ↦ h i (List.getElem?_eq_some_iff.mp ha).1 a ha, fun h i _ a ha ↦ h i a ha⟩

theorem overdue_of_mem_downNodes {T now : ℕ} (h : n ∈ c.downNodes T now) :
    c.Overdue (T * 2) now n := by
  obtain ⟨node, -, hstatus, hdetect⟩ := ClusterNode.mem_downNodes.mp h
  exact (ClusterNode.detect_eq_down_iff.mp hdetect).resolve_left hstatus

theorem Kept.take (h : Kept n as) (i : ℕ) : Kept n (as.take i) := by
  intro j a ha
  rw [List.getElem?_take] at ha
  split at ha
  · rename_i hj
    rw [List.take_take, min_eq_left hj.le]
    exact h j a ha
  · cases ha

/-- No pass of the run lists `n`, if no step drops it. -/
theorem notMem_downNodes_of_act {T : ℕ} (hrun : run step init as = some p)
    (ha : ¬ Ousts n as (.net (.act k T .failureDetection))) (hc : p.net.nodes[k]? = some c) :
    n ∉ c.downNodes T p.net.now := by
  intro hdown
  have hsilent := silent_of_overdue hrun hc (overdue_of_mem_downNodes hdown)
  refine ha ?_
  rwa [Ousts, heard_of_run hsilent.1 hrun]

theorem spared_of_run (hrun : run step init as = some p) (hkept : Kept n as) {down : List String}
    (hdown : (k, down) ∈ p.passes) : n ∉ down := by
  refine run_history (P := fun as p ↦ Kept n as → ∀ k down, (k, down) ∈ p.passes → n ∉ down)
    ?_ ?_ hrun hkept k down hdown
  · rintro - k down ⟨⟩
  · intro as p a q ih hrun hstep hkept k down hdown
    have hearlier : Kept n as := by simpa using hkept.take as.length
    have ha : ¬ Ousts n as a := by simpa using hkept as.length a (by simp)
    cases effect_of_step hstep with
    | mark l T now c hc =>
        rcases List.mem_cons.mp hdown with hdown | hdown
        · cases hdown
          exact fun h ↦ ha (silent_of_overdue hrun hc (overdue_of_mem_downNodes h))
        · exact ih hearlier k down hdown
    | cleanUp l down' c hc hmem => exact ih hearlier k down (List.mem_of_mem_erase hdown)
    | _ => exact ih hearlier k down hdown

/-! ## What a step tells of an actor -/

/-- The running node `k` finds the actor. -/
def Finds (p : Paced) (k b : String) : Prop :=
  ∃ c, p.net.nodes[k]? = some c ∧ (c.lookupActor b).isSome = true

theorem finds_iff_of_get (hc : p.net.nodes[k]? = some c) :
    p.Finds k b ↔ (c.lookupActor b).isSome = true := by
  constructor
  · rintro ⟨d, hd, hfound⟩
    cases hc.symm.trans hd
    exact hfound
  · exact fun hfound ↦ ⟨c, hc, hfound⟩

theorem finds_put {d d' : ClusterNode} {l : String} {passes : List (String × List String)}
    (hd : p.net.nodes[l]? = some d) (hlocal : d'.localNode = d.localNode) :
    (Paced.mk (p.net.put d') passes).Finds k b ↔
      p.Finds k b ∧ l ≠ k ∨ l = k ∧ (d'.lookupActor b).isSome = true := by
  unfold Finds
  simp only [nodes_replace hd hlocal]
  by_cases hl : l = k
  · simp [hl]
  · simp [hl]

/-- A clean-up that is not for the node of an actor leaves the actor. -/
theorem lookupActor_cleanUpActors_of_home {down : List String}
    (hhome : ∀ loc, c.lookupActor b = some loc → loc.1 = n) (hdown : n ∉ down) :
    (c.cleanUpActors down).lookupActor b = c.lookupActor b := by
  rw [ClusterNode.lookupActor_cleanUpActors]
  cases hloc : c.lookupActor b with
  | none => rfl
  | some loc =>
      have hkeep : loc.1 ∉ down := by rwa [hhome loc hloc]
      simp [Option.filter, hkeep]

theorem announced_isSome {g : GossipMessage} (hg : c.IsGossipOf g) :
    (g.announced b).isSome = (c.lookupActor b).isSome := by
  rw [Bool.eq_iff_iff, Option.isSome_iff_exists, Option.isSome_iff_exists]
  constructor
  · rintro ⟨loc, hloc⟩
    exact ⟨loc, hg.mem_actors.mp (ClusterNode.mem_of_announced hloc)⟩
  · rintro ⟨loc, hloc⟩
    have hmem : ⟨b, loc.1, loc.2⟩ ∈ g.actors := hg.mem_actors.mpr hloc
    have hfilter : ⟨b, loc.1, loc.2⟩ ∈ g.actors.filter fun loc ↦ loc.actorId = b :=
      List.mem_filter.mpr ⟨hmem, by simp⟩
    rw [← Option.isSome_iff_exists, GossipMessage.announced, Option.isSome_map]
    rw [List.getLast?_eq_some_getLast (List.ne_nil_of_mem hfilter)]
    rfl

theorem found_apply {T now : ℕ} {op : Op}
    (hhome : ∀ loc, c.lookupActor b = some loc → loc.1 = n)
    (hdown : op = .failureDetection → n ∉ c.downNodes T now) :
    ((c.apply T ⟨now, op⟩).lookupActor b).isSome = true ↔ (c.lookupActor b).isSome = true ∨
      ((.net (.act k T op) : Action).registers b = true ∨
        ∃ sender g, (.net (.act k T op) : Action).merged = some (sender, g) ∧
          (g.announced b).isSome = true) := by
  cases op with
  | addMember node =>
      simp [Action.registers, Action.merged]
      rfl
  | registerActor b' t =>
      change ((c.registerActor b' t).lookupActor b).isSome = true ↔ _
      rw [ClusterNode.lookupActor_registerActor]
      by_cases hb : b' = b
      · simp [hb, Action.registers]
      · simp [hb, Action.registers, Action.merged]
  | mergeGossip g sender =>
      change ((c.mergeGossip g sender now).lookupActor b).isSome = true ↔ _
      rw [ClusterNode.lookupActor_mergeGossip, Option.isSome_or, Bool.or_eq_true, or_comm]
      simp [Action.registers, Action.merged]
  | failureDetection =>
      have hkept : (c.failureDetection T now).lookupActor b = c.lookupActor b :=
        lookupActor_cleanUpActors_of_home (c := c.markFailed T now) hhome (hdown rfl)
      change ((c.failureDetection T now).lookupActor b).isSome = true ↔ _
      rw [hkept]
      simp [Action.registers, Action.merged]

/-- What the steps of a run leave of the actor `b`, which only `n` registers. -/
structure Lasting (n b : String) (p : Paced) (a : Action) : Prop where
  home : ∀ (k : String) (c : ClusterNode), p.net.nodes[k]? = some c →
    ∀ loc, c.lookupActor b = some loc → loc.1 = n
  passes : ∀ k down, (k, down) ∈ p.passes → n ∉ down
  act : ∀ (k : String) (c : ClusterNode), p.net.nodes[k]? = some c →
    ∀ T, a = .net (.act k T .failureDetection) → n ∉ c.downNodes T p.net.now

/-- Who finds the actor after a step: who found it before, and the node of the step if it registers
the actor or is told of it. -/
theorem finds_of_step (hstep : p.step a = some q) (hlasting : Lasting n b p a) :
    q.Finds k b ↔ p.Finds k b ∨ a.place = some k ∧ (a.registers b = true ∨
      ∃ sender g, a.merged = some (sender, g) ∧ (g.announced b).isSome = true) := by
  cases effect_of_step hstep with
  | tick elapsed =>
      simp [Action.place]
      rfl
  | create l g d hd hg =>
      simp [Action.registers, Action.merged]
      rfl
  | start id addr hfresh =>
      have hnone : ¬ p.Finds id b := by
        rintro ⟨c, hc, -⟩
        exact hfresh (ExtTreeMap.mem_iff_isSome_getElem?.mpr (by simp [hc]))
      have hempty : (ClusterNode.new id addr p.net.now).lookupActor b = none := by
        simp [ClusterNode.lookupActor, ClusterNode.new]
      unfold Finds at hnone ⊢
      simp only [Network.nodes_put]
      by_cases hid : id = k
      · subst hid
        have hnew : (ClusterNode.new id addr p.net.now).localNode.id = id := rfl
        simp [hnew, hnone, hempty, Action.registers, Action.merged]
      · have hnew : (ClusterNode.new id addr p.net.now).localNode.id ≠ k := hid
        simp [hnew, hid, Action.place]
  | act l T op d hd hop =>
      have hact : op = .failureDetection → n ∉ d.downNodes T p.net.now := by
        rintro rfl
        exact hlasting.act l d hd T rfl
      rw [finds_put hd (ClusterNode.localNode_apply T d _),
        found_apply (k := l) (hlasting.home l d hd) hact]
      by_cases hl : l = k
      · subst hl
        simp [finds_iff_of_get hd, Action.place]
      · simp [hl, Action.place]
  | mark l T now d hd =>
      rw [finds_put hd (show (d.markFailed T now).localNode = d.localNode from rfl)]
      have hlookup : (d.markFailed T now).lookupActor b = d.lookupActor b := rfl
      by_cases hl : l = k
      · subst hl
        simp [finds_iff_of_get hd, hlookup, Action.registers, Action.merged]
      · simp [hl, Action.place]
  | cleanUp l down d hd hdown =>
      rw [finds_put hd (ClusterNode.localNode_cleanUpActors d down),
        lookupActor_cleanUpActors_of_home (hlasting.home l d hd) (hlasting.passes l down hdown)]
      by_cases hl : l = k
      · subst hl
        simp [finds_iff_of_get hd, Action.registers, Action.merged]
      · simp [hl, Action.place]

/-! ## Actors are found in the causal future of their registration -/

theorem home_of_run (hrun : run step init as = some p)
    (honly : ∀ l T t, .net (.act l T (.registerActor b t)) ∈ as → l = n)
    (hc : p.net.nodes[k]? = some c) {loc : Location} (hloc : c.lookupActor b = some loc) :
    loc.1 = n := by
  obtain ⟨T, hmem⟩ := ((sourced_of_run hrun).nodes k c hc).actors b loc hloc
  exact honly loc.1 T loc.2 hmem

/-- The conditions of a step at a place of a run in which only `n` registers `b`, and `n` is
kept. -/
theorem lasting_of_run (hrun : run step init as = some p)
    (honly : ∀ l T t, .net (.act l T (.registerActor b t)) ∈ as → l = n) (hkept : Kept n as)
    (ha : ¬ Ousts n as a) : Lasting n b p a where
  home _ _ hc _ hloc := home_of_run hrun honly hc hloc
  passes _ _ hdown := spared_of_run hrun hkept hdown
  act k c hc T hpass := by
    subst hpass
    exact notMem_downNodes_of_act hrun ha hc

/-- The same history of messages, in which the registration of `b` is what there is to be learnt. -/
def registrations (as : List Action) (src : ℕ → Option ℕ) (h : Matching as src) (b : String) :
    Causality.History String Unit :=
  { history as src h with introduces := fun i _ ↦ ∃ a, as[i]? = some a ∧ a.registers b = true }

def FindsAfter (as : List Action) (i : ℕ) (k b : String) : Prop :=
  ∃ p, run step init (as.take i) = some p ∧ p.Finds k b

theorem findsAfter_of_create {g : GossipMessage} (hrun : run step init as = some p)
    (hi : as[i]? = some (.net (.create k g))) :
    FindsAfter as (i + 1) k b ↔ (g.announced b).isSome = true := by
  obtain ⟨q, hq⟩ := exists_run_take hrun (i + 1)
  obtain ⟨t, ht, hstep⟩ := (run_take_succ hi).mp hq
  cases effect_of_step hstep with
  | create _ _ c hc hg =>
      rw [announced_isSome hg]
      constructor
      · rintro ⟨q', hq', hfinds⟩
        cases hq.symm.trans hq'
        exact (finds_iff_of_get hc).mp hfinds
      · exact fun hfound ↦ ⟨_, hq, c, hc, hfound⟩

section

variable (hrun : run step init as = some p) (hsrc : Matching as src)
  (honly : ∀ l T t, .net (.act l T (.registerActor b t)) ∈ as → l = n) (hkept : Kept n as)
include hrun

theorem announced_iff (hi : as[i]? = some a) :
    (∃ sender g, a.merged = some (sender, g) ∧ (g.announced b).isSome = true) ↔
      ∃ m k, src i = some m ∧ (registrations as src hsrc b).place m = some k ∧
        FindsAfter as (m + 1) k b := by
  constructor
  · rintro ⟨sender, g, hmerged, hb⟩
    obtain ⟨m, hm⟩ := Option.isSome_iff_exists.mp (hsrc.total hi hmerged)
    obtain ⟨-, a', sender', g', hi', hmerged', hcreate⟩ := hsrc.created hm
    cases hi.symm.trans hi'
    cases hmerged.symm.trans hmerged'
    refine ⟨m, sender, hm, ?_, (findsAfter_of_create hrun hcreate).mpr hb⟩
    simp [registrations, history, hcreate, Action.place]
  · rintro ⟨m, k, hm, hplace, hfinds⟩
    obtain ⟨-, a', sender, g, hi', hmerged, hcreate⟩ := hsrc.created hm
    cases hi.symm.trans hi'
    have hk : sender = k := by simpa [registrations, history, hcreate, Action.place] using hplace
    subst hk
    exact ⟨sender, g, hmerged, (findsAfter_of_create hrun hcreate).mp hfinds⟩

include honly hkept

theorem findsAfter_of_step (hi : as[i]? = some a) :
    FindsAfter as (i + 1) k b ↔ FindsAfter as i k b ∨ a.place = some k ∧
      (a.registers b = true ∨
        ∃ sender g, a.merged = some (sender, g) ∧ (g.announced b).isSome = true) := by
  obtain ⟨q, hq⟩ := exists_run_take hrun (i + 1)
  obtain ⟨t, ht, hstep⟩ := (run_take_succ hi).mp hq
  have honly' : ∀ l T t, .net (.act l T (.registerActor b t)) ∈ as.take i → l = n :=
    fun l T t hmem ↦ honly l T t (List.mem_of_mem_take hmem)
  have hlasting := lasting_of_run ht honly' (hkept.take i) (hkept i a hi)
  simp only [FindsAfter, hq, ht, Option.some_inj, exists_eq_left', finds_of_step hstep hlasting]

theorem discovers :
    (registrations as src hsrc b).Learns fun i l _ ↦ FindsAfter as i l b := by
  constructor
  · rintro l - ⟨p, hp, c, hc, -⟩
    cases hp
    simp [init, Network.init] at hc
  · intro i l _ hplace
    cases hi : as[i]? with
    | none =>
        have hlength : as.length ≤ i := List.getElem?_eq_none_iff.mp hi
        simp only [FindsAfter, List.take_of_length_le hlength,
          List.take_of_length_le (hlength.trans i.le_succ)]
    | some a =>
        have hplace' : a.place ≠ some l := by simpa [registrations, history, hi] using hplace
        rw [findsAfter_of_step hrun honly hkept hi]
        simp [hplace']
  · intro i l _ hplace
    obtain ⟨a, hi, hplace'⟩ := Option.bind_eq_some_iff.mp hplace
    rw [findsAfter_of_step hrun honly hkept hi, announced_iff hrun hsrc hi]
    simp [registrations, history, hi, hplace']

end

/-- What `send_to_actor` looks for in the list of members is the record filed under the id. -/
theorem find_getMembers (c : ClusterNode) (n : String) :
    c.getMembers.find? (fun node ↦ node.id = n) = c.members.get? n := by
  cases hfind : c.getMembers.find? (fun node ↦ node.id = n) with
  | some node =>
      have hid : node.id = n := by simpa using List.find?_some hfind
      have hmem : node ∈ c.members.values := List.mem_of_find?_eq_some hfind
      rw [← hid]
      exact (Members.mem_values.mp hmem).symm
  | none =>
      cases hget : c.members.get? n with
      | none => rfl
      | some node =>
          have hid := Members.id_of_get? hget
          have hmem : node ∈ c.members.values := Members.mem_values.mpr (by rwa [hid])
          exact absurd (by simpa using hid) (List.find?_eq_none.mp hfind node hmem)

/-- If only `n` registers an actor, and no pass drops `n`, then the nodes that find the actor are
those to which there is a causal path from the registration.  They find it on `n`, and `n` among
their members with an address that was introduced for it. -/
theorem actor_found_iff_causal_past (hrun : run step init as = some p)
    (honly : ∀ l T t, .net (.act l T (.registerActor b t)) ∈ as → l = n) (hkept : Kept n as) :
    (∃ src, Matching as src) ∧
      ∀ src (hsrc : Matching as src) (k : String) (c : ClusterNode), p.net.nodes[k]? = some c →
        ((c.lookupActor b).isSome = true ↔ ∃ e, (∃ a, as[e]? = some a ∧ a.registers b = true) ∧
          (history as src hsrc).Reaches e as.length k) ∧
        ∀ loc, c.lookupActor b = some loc → loc.1 = n ∧
          ∃ node, c.getMembers.find? (fun node ↦ node.id = n) = some node ∧
            Introduced as n node.addr := by
  refine ⟨exists_matching hrun, fun src hsrc k c hc ↦ ⟨?_, fun loc hloc ↦ ?_⟩⟩
  · have hfinds : FindsAfter as as.length k b ↔ (c.lookupActor b).isSome = true := by
      simp only [FindsAfter, List.take_length, hrun, Option.some_inj, exists_eq_left',
        finds_iff_of_get hc]
    rw [← hfinds]
    exact (discovers hrun hsrc honly hkept).know_iff (v := ())
  · have hhome := home_of_run hrun honly hc hloc
    have hmember := (resolved_of_run hrun).nodes k c hc b loc hloc
    rw [hhome] at hmember
    rw [ClusterNode.mem_members_iff_statusOf, ClusterNode.statusOf, Option.isSome_map] at hmember
    obtain ⟨node, hget⟩ := Option.isSome_iff_exists.mp hmember
    refine ⟨hhome, node, (find_getMembers c n).trans hget, ?_⟩
    have hintroduced := ((sourced_of_run hrun).nodes k c hc).members n node hget
    rwa [Members.id_of_get? hget] at hintroduced

/-- Node `n` hears of an actor of `m`, and later suspects `m` without dropping it. -/
def discoveredActions : List Action :=
  [.net (.start "m" "h:1"), .net (.start "n" "h:2"),
    .net (.act "m" 5 (.registerActor "a" "worker")),
    .net (.create "m" ⟨[⟨"m", "h:1", 0⟩], [⟨"a", "m", "worker"⟩]⟩),
    .net (.act "n" 5 (.mergeGossip ⟨[⟨"m", "h:1", 0⟩], [⟨"a", "m", "worker"⟩]⟩ "m")),
    .net (.tick 7), .mark "n" 5 7]

theorem discovered_actor_has_path :
    ∃ p src, ∃ hsrc : Matching discoveredActions src, run step init discoveredActions = some p ∧
      ∃ e, (∃ a, discoveredActions[e]? = some a ∧ a.registers "a" = true) ∧
        (history discoveredActions src hsrc).Reaches e 7 "n" := by
  have hfound : (run step init discoveredActions).map (fun p ↦
      p.net.nodes["n"]?.map fun c ↦ (c.lookupActor "a").isSome) = some (some true) := by
    decide +kernel
  obtain ⟨p, hrun, hp⟩ := Option.map_eq_some_iff.mp hfound
  obtain ⟨c, hc, hsome⟩ := Option.map_eq_some_iff.mp hp
  have honly : ∀ l T t, .net (.act l T (.registerActor "a" t)) ∈ discoveredActions → l = "m" := by
    intro l T t hmem
    simp [discoveredActions] at hmem
    exact hmem.1
  have hkept : Kept "m" discoveredActions := by decide +kernel
  obtain ⟨⟨src, hsrc⟩, hpast⟩ := actor_found_iff_causal_past hrun honly hkept
  exact ⟨p, src, hsrc, hrun, (hpast src hsrc "n" c hc).1.mp hsome⟩

end Paced

end Cineyma.Cluster
