import Cineyma.Remote.ClusterClient

/-!
# Dead connections in the pool

A connection is put into the pool when it is opened, and only then. It leaves the pool when an
eviction task or `clear_connection` removes the entry of its address. A failed `send_to_actor`
spawns an eviction task; a failed `do_send_to_actor` does not, and leaves a dead connection in
place.
-/

namespace Cineyma.Remote

open Cluster (ClusterNode)
open StepSystem

namespace ClusterClient

variable {codec : ClusterCodec} {handler : ℕ → Option (ℕ → Envelope → Option Envelope)}
  {r s t : ClusterClient} {a : Action} {as post : List Action} {addr : String} {c l i : ℕ}
  {call : ActorCall}

/-- The step takes the entry of `addr` out of the pool. -/
def Removes (s : ClusterClient) (addr : String) : Action → Prop
  | .evict n => s.evictions[n]? = some addr
  | .clearConnection addr' => addr' = addr
  | _ => False

/-- The next call to `addr` does not go out on the connection `l`. -/
def Avoids (codec : ClusterCodec) (handler : ℕ → Option (ℕ → Envelope → Option Envelope))
    (s : ClusterClient) (addr : String) (l : ℕ) : Prop :=
  ∀ c call result t d j, s.calls[c]? = some call → call.stage = .located addr →
    s.step codec handler (.getOrConnect c result) = some t → t.calls[c]? = some d →
    d.stage = .sent addr → d.via ≠ some (l, j)

/-! ## Steps -/

theorem pool_sendVia (h : s.sendVia codec c call addr l = some t) : t.pool = s.pool := by
  obtain ⟨link, -, rfl⟩ := Option.map_eq_some_iff.mp h
  rfl

theorem length_links_sendVia (h : s.sendVia codec c call addr l = some t) :
    t.links.length = s.links.length := by
  obtain ⟨link, -, rfl⟩ := Option.map_eq_some_iff.mp h
  exact List.length_set

theorem via_sendVia {d : ActorCall} {j : ℕ} (h : s.sendVia codec c call addr l = some t)
    (hd : t.calls[c]? = some d) (hvia : d.via = some (i, j)) : i = l := by
  obtain ⟨link, -, rfl⟩ := Option.map_eq_some_iff.mp h
  simp only [List.getElem?_set, if_true] at hd
  split at hd
  · cases hd
    cases hvia
    rfl
  · cases hd

/-- The three ways that `get_or_connect` can go. -/
theorem getOrConnect_cases {result : Except (ErrorKind × String) ClusterNode}
    (h : s.getOrConnect codec c call addr result = some t) :
    (∃ l, s.pool[addr]? = some l ∧ s.sendVia codec c call addr l = some t) ∨
      (s.pool[addr]? = none ∧ ∃ peer, ClusterClient.sendVia codec
        { s with
          pool := s.pool.insert addr s.links.length
          links := s.links ++ [Link.connect peer] } c call addr s.links.length = some t) ∨
      (s.pool[addr]? = none ∧ ∃ kind message, t =
        { s with
          pool := s.pool.erase addr
          calls := s.calls.set c
            { call with stage := .returned (.error (.io kind message)) } }) := by
  unfold getOrConnect at h
  split at h
  · rename_i l hpool
    exact .inl ⟨l, hpool, h⟩
  · rename_i peer hpool
    exact .inr (.inl ⟨hpool, peer, h⟩)
  · rename_i kind message hpool
    cases h
    exact .inr (.inr ⟨hpool, kind, message, rfl⟩)

theorem getOrConnect_of_step {result : Except (ErrorKind × String) ClusterNode}
    (h : s.step codec handler (.getOrConnect c result) = some t) :
    ∃ call addr, s.calls[c]? = some call ∧ call.stage = .located addr ∧
      s.getOrConnect codec c call addr result = some t := by
  simp only [step] at h
  split at h
  · split at h
    · rename_i call hcall _ addr hstage
      exact ⟨call, addr, hcall, hstage, h⟩
    · cases h
  · cases h

theorem getElem?_of_erase {pool : Std.ExtTreeMap String ℕ} {addr' : String}
    (h : (pool.erase addr')[addr]? = some l) : pool[addr]? = some l := by
  rw [Std.ExtTreeMap.getElem?_erase] at h
  split at h
  · cases h
  · exact h

theorem pool_getOrConnect {result : Except (ErrorKind × String) ClusterNode} {addr' : String}
    (h : s.getOrConnect codec c call addr' result = some t) (hl : l < s.links.length) :
    t.pool[addr]? = some l ↔ s.pool[addr]? = some l := by
  obtain ⟨_, -, h⟩ | ⟨hpool, peer, h⟩ | ⟨hpool, kind, message, rfl⟩ := getOrConnect_cases h
  · rw [pool_sendVia h]
  · -- the new connection is not one that there was
    have hne : s.links.length ≠ l := hl.ne'
    rw [pool_sendVia h, Std.ExtTreeMap.getElem?_insert]
    by_cases haddr : addr' = addr
    · subst haddr
      simp [hpool, hne]
    · simp [haddr]
  · rw [Std.ExtTreeMap.getElem?_erase]
    by_cases haddr : addr' = addr
    · subst haddr
      simp [hpool]
    · simp [haddr]

/-- What a step does to the pool and to the number of connections. -/
inductive PoolEffect (codec : ClusterCodec) (s : ClusterClient) (a : Action) (t : ClusterClient) :
    Prop
  | quiet (hpool : t.pool = s.pool) (hlinks : t.links.length = s.links.length)
      (hkeeps : ∀ addr, ¬ s.Removes addr a)
  | connects (c : ℕ) (call : ActorCall) (addr : String)
      (result : Except (ErrorKind × String) ClusterNode)
      (h : s.getOrConnect codec c call addr result = some t) (hkeeps : ∀ addr, ¬ s.Removes addr a)
  | removes (addr : String) (hpool : t.pool = s.pool.erase addr)
      (hlinks : t.links.length = s.links.length)
      (hremoves : ∀ addr', s.Removes addr' a ↔ addr = addr')

theorem poolEffect_of_step (h : s.step codec handler a = some t) : PoolEffect codec s a t := by
  cases a with
  | call actorId envelope tell =>
      cases h
      exact .quiet rfl rfl fun _ ↦ id
  | lookup c =>
      simp only [step] at h
      split at h
      · split at h
        · cases h
          exact .quiet rfl rfl fun _ ↦ id
        · cases h
      · cases h
  | locate c =>
      simp only [step] at h
      split at h
      · split at h
        · cases h
          exact .quiet rfl rfl fun _ ↦ id
        · cases h
      · cases h
  | getOrConnect c result =>
      obtain ⟨call, addr, -, -, h⟩ := getOrConnect_of_step h
      exact .connects c call addr result h fun _ ↦ id
  | finish c =>
      simp only [step] at h
      split at h
      · split at h
        · obtain ⟨o, -, rfl⟩ := Option.map_eq_some_iff.mp h
          cases o <;> exact .quiet rfl rfl fun _ ↦ id
        · cases h
      · cases h
  | evict n =>
      obtain ⟨addr, hn, rfl⟩ := Option.map_eq_some_iff.mp h
      exact .removes addr rfl rfl fun addr' ↦ by simp [Removes, hn]
  | clearConnection addr =>
      cases h
      exact .removes addr rfl rfl fun _ ↦ .rfl
  | cluster node =>
      cases h
      exact .quiet rfl rfl fun _ ↦ id
  | link l a =>
      obtain ⟨link, -, h⟩ := Option.bind_eq_some_iff.mp h
      obtain ⟨link', -, rfl⟩ := Option.map_eq_some_iff.mp h
      exact .quiet rfl List.length_set fun _ ↦ id

/-- A connection that there is stays where it is in the pool, but for the removals. -/
theorem pool_of_step (h : s.step codec handler a = some t) (hl : l < s.links.length) :
    t.pool[addr]? = some l ↔ s.pool[addr]? = some l ∧ ¬ s.Removes addr a := by
  cases poolEffect_of_step h with
  | quiet hpool hlinks hkeeps => simp [hpool, hkeeps]
  | connects c call addr' result h hkeeps => simp [pool_getOrConnect h hl, hkeeps]
  | removes addr' hpool hlinks hremoves =>
      rw [hpool, hremoves, Std.ExtTreeMap.getElem?_erase]
      by_cases haddr : addr' = addr
      · simp [haddr]
      · simp [haddr]

theorem length_links_of_step (h : s.step codec handler a = some t) :
    s.links.length ≤ t.links.length := by
  cases poolEffect_of_step h with
  | quiet hpool hlinks hkeeps => exact hlinks.ge
  | connects c call addr result h hkeeps =>
      obtain ⟨_, -, h⟩ | ⟨-, peer, h⟩ | ⟨-, kind, message, rfl⟩ := getOrConnect_cases h
      · exact (length_links_sendVia h).ge
      · simp [length_links_sendVia h]
      · exact le_rfl
  | removes addr hpool hlinks hremoves => exact hlinks.ge

theorem avoids_of_pool (hl : l < s.links.length) (h : s.pool[addr]? ≠ some l) :
    s.Avoids codec handler addr l := by
  intro c call result t d j hcall hstage hstep hd hsent hvia
  obtain ⟨call', addr', hcall', hstage', hconnect⟩ := getOrConnect_of_step hstep
  cases hcall.symm.trans hcall'
  cases hstage.symm.trans hstage'
  obtain ⟨l', hl', hsend⟩ | ⟨-, peer, hsend⟩ | ⟨-, kind, message, rfl⟩ :=
    getOrConnect_cases hconnect
  · rw [via_sendVia hsend hd hvia] at h
    exact h hl'
  · exact hl.ne (via_sendVia hsend hd hvia)
  · simp only [List.getElem?_set, if_true] at hd
    split at hd
    · cases hd
      cases hsent
    · cases hd

/-! ## Runs -/

theorem length_links_of_run (hrun : run (step codec handler) s as = some t)
    (hl : l < s.links.length) : l < t.links.length :=
  run_invariant (P := fun t ↦ l < t.links.length)
    (fun _ _ _ hl hstep ↦ hl.trans_le (length_links_of_step hstep)) hl hrun

theorem pool_of_run (hrun : run (step codec handler) s as = some t) (hl : l < s.links.length) :
    t.pool[addr]? = some l ↔ s.pool[addr]? = some l ∧
      Along (step codec handler) (fun r a ↦ ¬ r.Removes addr a) s as :=
  run_iff_along (P := fun t ↦ t.pool[addr]? = some l) (I := fun t ↦ l < t.links.length)
    (fun _ _ _ hl hstep ↦ hl.trans_le (length_links_of_step hstep))
    (fun _ _ _ hl hstep ↦ pool_of_step hstep hl) hl hrun

theorem lt_of_outcomeVia {o : Outcome} (h : s.outcomeVia l i = some o) : l < s.links.length := by
  obtain ⟨link, hlink, -⟩ := Option.bind_eq_some_iff.mp h
  exact (List.getElem?_eq_some_iff.mp hlink).1

theorem finish_of_failed {err : TransportError} (hcall : s.calls[c]? = some call)
    (hstage : call.stage = .sent addr) (hvia : call.via = some (l, i))
    (hfailed : s.outcomeVia l i = some (.failed err))
    (h : s.step codec handler (.finish c) = some t) :
    t.calls[c]? = some { call with stage := .returned (.error err) } ∧
      t.evictions = if call.tell then s.evictions else s.evictions ++ [addr] := by
  have hc : c < s.calls.length := (List.getElem?_eq_some_iff.mp hcall).1
  simp only [step, hcall, hstage, hvia, hfailed, Option.map_some, Option.some_inj] at h
  subst h
  exact ⟨List.getElem?_set_self hc, rfl⟩

/-- A call fails on the connection `l` to `addr`. If it is a `send_to_actor`, it leaves an eviction
task behind, and let this have run. Then the pool does not hold `l`, and the next call to `addr`
does not go out on it, if and only if the call was a `send_to_actor`, or the pool did not hold `l`
when it failed, or the entry was removed on behalf of another call. -/
theorem failed_connection_leaves_pool_iff {cluster : ClusterNode} {err : TransportError}
    {r' : ClusterClient}
    (hbefore : run (step codec handler) (new cluster) as = some r)
    (hcall : r.calls[c]? = some call) (hstage : call.stage = .sent addr)
    (hvia : call.via = some (l, i)) (hfailed : r.outcomeVia l i = some (.failed err))
    (hfinish : run (step codec handler) (new cluster) (as ++ [.finish c]) = some r')
    (hrun : run (step codec handler) r' post = some s)
    (hevicted : call.tell = false → ∃ mid n rest t, post = mid ++ .evict n :: rest ∧
      run (step codec handler) r' mid = some t ∧ t.evictions[n]? = some addr) :
    r'.calls[c]? = some { call with stage := .returned (.error err) } ∧
    r'.evictions = (if call.tell then r.evictions else r.evictions ++ [addr]) ∧
    (s.pool[addr]? ≠ some l ∧ s.Avoids codec handler addr l ↔
      call.tell = false ∨ r.pool[addr]? ≠ some l ∨
        ¬ Along (step codec handler) (fun r a ↦ ¬ r.Removes addr a) r' post) := by
  have hl : l < r.links.length := lt_of_outcomeVia hfailed
  obtain ⟨r₀, hr₀, hstep⟩ := run_concat_eq_some.mp hfinish
  cases hbefore.symm.trans hr₀
  obtain ⟨hreturned, hevictions⟩ := finish_of_failed hcall hstage hvia hfailed hstep
  refine ⟨hreturned, hevictions, ?_⟩
  have hl' : l < r'.links.length := hl.trans_le (length_links_of_step hstep)
  have hpool : r'.pool[addr]? = some l ↔ r.pool[addr]? = some l := by
    simp [pool_of_step hstep hl, Removes]
  have havoids : s.pool[addr]? ≠ some l → s.Avoids codec handler addr l :=
    avoids_of_pool (length_links_of_run hrun hl')
  rw [and_iff_left_of_imp havoids, Ne, pool_of_run hrun hl', hpool, not_and_or]
  refine ⟨.inr, ?_⟩
  rintro (htell | h)
  · -- the eviction is one of the removals
    obtain ⟨mid, n, rest, t, rfl, hmid, hn⟩ := hevicted htell
    refine .inr fun halong ↦ halong mid (.evict n) t ?_ hmid hn
    simp
  · exact h

/-- A first message opens the connection to `b`, which is lost; then two calls of either kind. -/
def lostConnection (tell : Bool) : List Action :=
  [.call "x" ⟨"M", [0], 1, "a", "x", false⟩ true, .lookup 0, .locate 0,
    .getOrConnect 0 (.ok (.new "b" "h:2" 0)), .link 0 (.client (.enqueue 0)), .finish 0,
    .link 0 (.recvErr .disconnected),
    .call "x" ⟨"M", [1], 2, "a", "x", false⟩ tell, .call "x" ⟨"M", [2], 3, "a", "x", false⟩ tell,
    .lookup 1, .lookup 2, .locate 1, .locate 2,
    .getOrConnect 1 (.ok (.new "b" "h:2" 0)), .link 0 (.client (.enqueue 1))]

theorem evicted_connection_left_pool :
    ∃ r' s, run (step protobuf echo) (new knowsActor) (lostConnection false ++ [.finish 1]) =
        some r' ∧
      run (step protobuf echo) r' [.evict 0] = some s ∧ s.pool["h:2"]? ≠ some 0 ∧
      s.Avoids protobuf echo "h:2" 0 := by
  have hbefore : (run (step protobuf echo) (new knowsActor) (lostConnection false)).map (fun r ↦
      (r.calls[1]?, r.outcomeVia 0 1)) =
      some (some ⟨"x", ⟨"M", [1], 2, "a", "x", false⟩, false, .sent "h:2", some (0, 1)⟩,
        some (.failed .disconnected)) := by
    decide +kernel
  have hafter : (run (step protobuf echo) (new knowsActor)
      (lostConnection false ++ [Action.finish 1])).map (fun r ↦
        (r.evictions, (run (step protobuf echo) r [.evict 0]).isSome)) = some (["h:2"], true) := by
    decide +kernel
  obtain ⟨r, hr, hcall⟩ := Option.map_eq_some_iff.mp hbefore
  obtain ⟨r', hr', hevict⟩ := Option.map_eq_some_iff.mp hafter
  obtain ⟨hcall, houtcome⟩ := Prod.mk.inj hcall
  obtain ⟨hevictions, hevict⟩ := Prod.mk.inj hevict
  obtain ⟨s, hs⟩ := Option.isSome_iff_exists.mp hevict
  refine ⟨r', s, hr', hs, ?_⟩
  refine (failed_connection_leaves_pool_iff hr hcall rfl rfl houtcome hr' hs ?_).2.2.mpr (.inl rfl)
  exact fun _ ↦ ⟨[], 0, [], r', rfl, rfl, by rw [hevictions]; rfl⟩

/-- After a failed `do_send_to_actor` no eviction is due, the pool holds the dead connection, and
the next call fails on it. -/
theorem failed_tell_keeps_dead_connection :
    ∃ s link, run (step protobuf echo) (new knowsActor) (lostConnection true ++
        [.finish 1, .getOrConnect 2 (.ok (.new "b" "h:2" 0)), .link 0 (.client (.enqueue 2)),
          .finish 2]) = some s ∧
      s.links[0]? = some link ∧ link.client.task = .exited ∧ s.evictions = [] ∧
      s.pool["h:2"]? = some 0 ∧
      s.calls.drop 1 = [⟨"x", ⟨"M", [1], 2, "a", "x", false⟩, true,
          .returned (.error .disconnected), some (0, 1)⟩,
        ⟨"x", ⟨"M", [2], 3, "a", "x", false⟩, true,
          .returned (.error .disconnected), some (0, 2)⟩] := by
  have hrun : (run (step protobuf echo) (new knowsActor) (lostConnection true ++
      ([.finish 1, .getOrConnect 2 (.ok (.new "b" "h:2" 0)), .link 0 (.client (.enqueue 2)),
        .finish 2] : List Action))).map (fun s ↦
          (s.links[0]?.map (fun link : Link ↦ link.client.task), s.evictions, s.pool["h:2"]?,
            s.calls.drop 1)) =
      some (some .exited, [], some 0,
        [⟨"x", ⟨"M", [1], 2, "a", "x", false⟩, true, .returned (.error .disconnected),
          some (0, 1)⟩,
        ⟨"x", ⟨"M", [2], 3, "a", "x", false⟩, true, .returned (.error .disconnected),
          some (0, 2)⟩]) := by
    decide +kernel
  obtain ⟨s, hs, h⟩ := Option.map_eq_some_iff.mp hrun
  obtain ⟨htask, hevictions, hpool, hcalls⟩ : _ ∧ _ ∧ _ ∧ _ := by simpa only [Prod.mk.injEq] using h
  obtain ⟨link, hlink, hexited⟩ := Option.map_eq_some_iff.mp htask
  exact ⟨s, link, hs, hlink, hexited, hevictions, hpool, hcalls⟩

end ClusterClient

end Cineyma.Remote
