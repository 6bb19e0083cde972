import Cineyma.Remote.Addr

/-!
# Responses reach the call they answer

The peer of a session must answer a request before it reuses the request's id, that is, the first
response with the id of a call is the answer to that call. Then every response that completes a call
answers that very call, and the other ways in which a call ends are as the client promises.
-/

namespace Cineyma.Remote

open StepSystem

namespace Session

/-- The `n`-th reply is a response with the id `id`. -/
def RespondsAt (s : Session) (id : UInt64) (n : ℕ) : Prop :=
  ∃ r, s.emitted[n]? = some r ∧ r.envelope.isResponse = true ∧ r.envelope.correlationId = id

/-- The first response that carries a call's id is the peer's answer to that call. -/
def FirstIsAnswer (s : Session) : Prop :=
  ∀ (i : ℕ) (call : Call), s.client.calls[i]? = some call →
    ∀ n, s.RespondsAt call.envelope.correlationId n →
      (∀ m < n, ¬ s.RespondsAt call.envelope.correlationId m) →
      ∀ r, s.emitted[n]? = some r → r.origin = some i

/-! ## The invariant -/

variable {s t : Session}

/-- Ids identify calls, and a call whose id has come back is neither queued nor pending. -/
structure Routed (s : Session) : Prop where
  wf : s.client.WellFormed
  next : s.nextId = UInt64.ofNat (1 + s.drawn)
  kind : ∀ {i : ℕ} {call : Call}, s.client.calls[i]? = some call → call.kind ≠ .sendTimeout
  id : ∀ {i : ℕ} {call : Call}, s.client.calls[i]? = some call →
    ∃ n < s.drawn, call.envelope.correlationId = UInt64.ofNat (1 + n)
  distinct : ∀ {i j : ℕ} {a b : Call}, s.client.calls[i]? = some a → s.client.calls[j]? = some b →
    a.envelope.correlationId = b.envelope.correlationId → i = j
  taken : ∀ {i : ℕ}, i ∈ s.taken → ∃ call, s.client.calls[i]? = some call ∧
    call.stage ≠ .enqueuing ∧ .send i ∉ s.client.queue
  origin : ∀ {r : Reply} {i : ℕ}, r ∈ s.emitted → r.origin = some i → i ∈ s.taken
  arrived : s.arrived ≤ s.emitted.length
  spent : ∀ {n i : ℕ} {call : Call}, n < s.arrived → s.client.calls[i]? = some call →
    s.RespondsAt call.envelope.correlationId n →
    call.stage ≠ .enqueuing ∧ .send i ∉ s.client.queue ∧
      s.client.pending[call.envelope.correlationId]? = none

structure Inv (s : Session) : Prop extends s.Routed where
  dropped : ∀ {i : ℕ} {call : Call}, s.client.calls[i]? = some call → call.slot = .dropped →
    s.client.task = .exited
  answered : ∀ {i : ℕ} {call : Call} {e : Envelope}, s.client.calls[i]? = some call →
    call.slot = .filled (.ok e) → ∃ n r, (i, n) ∈ s.resolved ∧ s.emitted[n]? = some r ∧
      r.envelope = e
  resolved : ∀ {i n : ℕ}, (i, n) ∈ s.resolved → ∃ call r, s.client.calls[i]? = some call ∧
    call.kind ≠ .doSend ∧ s.emitted[n]? = some r ∧ call.slot = .filled (.ok r.envelope) ∧
      r.origin = some i
  once : (s.resolved.map Prod.fst).Nodup

theorem inv_init : init.Inv where
  wf := RemoteClient.wellFormed_new
  next := rfl
  kind := by simp [init, RemoteClient.new]
  id := by simp [init, RemoteClient.new]
  distinct := by simp [init, RemoteClient.new]
  taken := by simp [init]
  origin := by simp [init]
  arrived := by simp [init]
  spent := by simp [init]
  dropped := by simp [init, RemoteClient.new]
  answered := by simp [init, RemoteClient.new]
  resolved := by simp [init]
  once := by simp [init]

theorem Routed.of_moves (hs : s.Routed) {d : RemoteClient} {taken : List ℕ} (hd : d.WellFormed)
    (hmoves : s.client.Moves d) (hsub : ∀ i ∈ s.taken, i ∈ taken)
    (htaken : ∀ i ∈ taken, i ∈ s.taken ∨
      ∃ call, d.calls[i]? = some call ∧ call.stage ≠ .enqueuing ∧ .send i ∉ d.queue) :
    { s with client := d, taken := taken }.Routed := by
  have hqueue : ∀ (i : ℕ) (call : Call), s.client.calls[i]? = some call → call.stage ≠ .enqueuing →
      .send i ∉ s.client.queue → .send i ∉ d.queue := by
    intro i call hcall hstage hnot hmem
    rcases hmoves.queue hmem with hmem | ⟨a, ha, henq⟩
    · exact hnot hmem
    · obtain rfl : call = a := Option.some.inj (hcall.symm.trans ha)
      exact hstage henq
  refine ⟨hd, hs.next, ?_, ?_, ?_, ?_, ?_, hs.arrived, ?_⟩
  · intro i call hcall
    obtain ⟨a, ha, hbecomes⟩ := hmoves.call hcall
    rw [hbecomes.kind]
    exact hs.kind ha
  · intro i call hcall
    obtain ⟨a, ha, hbecomes⟩ := hmoves.call hcall
    rw [hbecomes.envelope]
    exact hs.id ha
  · intro i j x y hx hy hxy
    obtain ⟨a, ha, hbecomes⟩ := hmoves.call hx
    obtain ⟨b, hb, hbecomes'⟩ := hmoves.call hy
    rw [hbecomes.envelope, hbecomes'.envelope] at hxy
    exact hs.distinct ha hb hxy
  · intro i hi
    rcases htaken i hi with hi | hi
    · obtain ⟨a, ha, hstage, hnot⟩ := hs.taken hi
      obtain ⟨b, hb, hbecomes⟩ := hmoves.forward ha
      exact ⟨b, hb, fun h ↦ hstage (hbecomes.enqueuing h), hqueue i a ha hstage hnot⟩
    · exact hi
  · intro r i hr hi
    exact hsub i (hs.origin hr hi)
  · intro n i call hn hcall hresp
    obtain ⟨a, ha, hbecomes⟩ := hmoves.call hcall
    rw [hbecomes.envelope] at hresp
    obtain ⟨hstage, hnot, hnone⟩ := hs.spent hn ha hresp
    refine ⟨fun h ↦ hstage (hbecomes.enqueuing h), hqueue i a ha hstage hnot, ?_⟩
    -- only the call itself could enter the map under its id, and it is no longer queued
    rw [Option.eq_none_iff_forall_ne_some]
    intro j hj
    rcases hmoves.pending hj with hold | hmem
    · rw [hbecomes.envelope, hnone] at hold
      cases hold
    · obtain ⟨b, hb, -, hid, -⟩ := hd.pending hj
      obtain ⟨b', hb', hbecomes'⟩ := hmoves.call hb
      have hij : i = j := by
        apply hs.distinct ha hb'
        rw [← hbecomes.envelope, ← hbecomes'.envelope, hid]
      exact hnot (hij ▸ hmem)

/-- A step of the client's own parties, with nothing new from the peer. -/
theorem Inv.of_moves (hs : s.Inv) {d : RemoteClient} {taken : List ℕ} (hd : d.WellFormed)
    (hmoves : s.client.Moves d) (hsub : ∀ i ∈ s.taken, i ∈ taken)
    (htaken : ∀ i ∈ taken, i ∈ s.taken ∨
      ∃ call, d.calls[i]? = some call ∧ call.stage ≠ .enqueuing ∧ .send i ∉ d.queue)
    (hdropped : ∀ (i : ℕ) (call : Call), d.calls[i]? = some call → call.slot = .dropped →
      d.task = .exited)
    (hok : ∀ (i : ℕ) (x y : Call) (e : Envelope), s.client.calls[i]? = some x →
      d.calls[i]? = some y → y.slot = .filled (.ok e) → x.slot = .filled (.ok e)) :
    { s with client := d, taken := taken }.Inv := by
  refine ⟨hs.toRouted.of_moves hd hmoves hsub htaken, fun {i call} ↦ hdropped i call, ?_, ?_,
    hs.once⟩
  · intro i call e hcall hslot
    obtain ⟨a, ha, -⟩ := hmoves.call hcall
    exact hs.answered ha (hok i a call e ha hcall hslot)
  · intro i n hin
    obtain ⟨a, r, ha, hkind, hr, hslot, horigin⟩ := hs.resolved hin
    obtain ⟨b, hb, hbecomes⟩ := hmoves.forward ha
    refine ⟨b, r, hb, by rwa [hbecomes.kind], hr, ?_, horigin⟩
    rw [hbecomes.slot (by simp [hslot]), hslot]

/-- With distinct ids no request replaces another. -/
theorem Routed.not_replaces (hs : s.Routed) (i : ℕ) : ¬ s.client.Replaces i := by
  rintro ⟨j, queue, call, hqueue, hcall, -, hp⟩
  obtain ⟨call', hcall', -, hid, -, -, hnot⟩ := hs.wf.pending hp
  obtain rfl : i = j := hs.distinct hcall' hcall hid
  exact hnot (by simp [hqueue])

theorem inv_client (hs : s.Inv) {a : RemoteClient.Action} {d : RemoteClient}
    (h : s.client.act a = some d) :
    { s with client := d, taken := s.taken ++ handedOver a d.task }.Inv := by
  have hd := hs.wf.act h
  have hmoves := hs.wf.moves_act h
  refine hs.of_moves hd hmoves (by simp +contextual) ?_ ?_ ?_
  · intro i hi
    rcases List.mem_append.mp hi with hi | hi
    · exact .inl hi
    · obtain ⟨call, hcall, hstage, hnot, -⟩ := hd.sending (task_of_mem_handedOver hi)
      exact .inr ⟨call, hcall, hstage, hnot⟩
  · intro i y hy hdropped
    obtain ⟨x, hx, -⟩ := hmoves.call hy
    rcases RemoteClient.slot_act h hx hy with hsame | ⟨-, hexit | ⟨-, hreplaced⟩⟩ | ⟨_, _, herr⟩
    · exact RemoteClient.exited_act (hs.dropped hx (hsame ▸ hdropped)) h
    · exact hexit
    · exact absurd hreplaced (hs.not_replaces i)
    · rw [hdropped] at herr
      cases herr
  · intro i x y e hx hy hslot
    rcases RemoteClient.slot_act h hx hy with hsame | ⟨hdropped, -⟩ | ⟨_, _, herr⟩
    · rwa [← hsame]
    · rw [hslot] at hdropped
      cases hdropped
    · rw [hslot] at herr
      cases herr

theorem inv_recvErr (hs : s.Inv) {err : TransportError} {d : RemoteClient}
    (h : s.client.recv (.error err) = some d) : { s with client := d }.Inv := by
  have hmoves := hs.wf.moves_recv h
  refine hs.of_moves (hs.wf.recv h) hmoves (fun _ ↦ id) (fun _ ↦ .inl) ?_ ?_
  · intro i y hy hdropped
    obtain ⟨x, hx, -⟩ := hmoves.call hy
    rcases RemoteClient.slot_recv h hx hy with hsame | ⟨-, hexit⟩ | ⟨e, he, -⟩
    · have hexit := hs.dropped hx (hsame ▸ hdropped)
      simp [RemoteClient.recv, hexit] at h
    · exact hexit
    · cases he
  · intro i x y e hx hy hslot
    rcases RemoteClient.slot_recv h hx hy with hsame | ⟨hdropped, -⟩ | ⟨e, he, -⟩
    · rwa [← hsame]
    · rw [hslot] at hdropped
      cases hdropped
    · cases he

theorem ofNat_succ_ne {m n : ℕ} (hmn : m < n) (hn : n < 2 ^ 64) :
    UInt64.ofNat (1 + m) ≠ UInt64.ofNat (1 + n) := by
  intro h
  have hmod : (1 + m) % 2 ^ 64 = (1 + n) % 2 ^ 64 := by
    simpa using congrArg UInt64.toNat h
  omega

theorem inv_draw (hs : s.Inv) : s.draw.Inv := by
  refine ⟨⟨hs.wf, ?_, hs.kind, ?_, hs.distinct, hs.taken, hs.origin, hs.arrived, hs.spent⟩,
    hs.dropped, hs.answered, hs.resolved, hs.once⟩
  · have hnext := hs.next
    simp only [draw, nextCorrelationId, hnext, ← Nat.add_assoc, UInt64.ofNat_add]
    rfl
  · intro i call hcall
    obtain ⟨n, hn, hid⟩ := hs.id hcall
    exact ⟨n, Nat.lt_succ_of_lt hn, hid⟩

/-- If the first response with a call's id is its answer, then the call had been handed over when
any response with its id was sent. -/
theorem mem_taken_of_respondsAt (horigin : ∀ {r : Reply} {i : ℕ}, r ∈ s.emitted →
      r.origin = some i → i ∈ s.taken) (hfirst : s.FirstIsAnswer) {i n : ℕ} {call : Call}
    (hcall : s.client.calls[i]? = some call) (hn : s.RespondsAt call.envelope.correlationId n) :
    i ∈ s.taken := by
  classical
  have hex : ∃ n, s.RespondsAt call.envelope.correlationId n := ⟨n, hn⟩
  obtain ⟨r, hr, -⟩ := Nat.find_spec hex
  have hanswer := hfirst i call hcall _ (Nat.find_spec hex) (fun m hm ↦ Nat.find_min hex hm) r hr
  exact horigin (List.mem_of_getElem? hr) hanswer

theorem inv_post (hs : s.Inv) {kind : CallKind} (hkind : kind ≠ .sendTimeout) {p : Post}
    (hdrawn : s.drawn < 2 ^ 64) (hfirst : (s.post kind p).FirstIsAnswer) :
    (s.post kind p).Inv := by
  have hget := s.client.getElem?_invoke kind
    (.fromMessage p.typeId p.encoded s.nextId p.localNode p.actorName)
  have hdraw := inv_draw hs
  have hfresh : ∀ (i : ℕ) (call : Call), s.client.calls[i]? = some call →
      call.envelope.correlationId ≠ s.nextId := by
    intro i call hcall
    obtain ⟨n, hn, hid⟩ := hs.id hcall
    rw [hid, hs.next]
    exact ofNat_succ_ne hn hdrawn
  have hold : ∀ {i : ℕ} {call : Call}, s.client.calls[i]? = some call →
      (s.post kind p).client.calls[i]? = some call := by
    intro i call hcall
    have hi : i ≠ s.client.calls.length := by
      rintro rfl
      simp at hcall
    simpa [post, nextCorrelationId, hget, hi] using hcall
  refine ⟨⟨hs.wf.invoke _ _, hdraw.next, ?_, ?_, ?_, ?_, hs.origin, hs.arrived, ?_⟩, ?_, ?_, ?_,
    hs.once⟩
  · intro i call hcall
    simp only [post, nextCorrelationId, hget] at hcall
    split at hcall
    · cases hcall
      exact hkind
    · exact hs.kind hcall
  · intro i call hcall
    simp only [post, nextCorrelationId, hget] at hcall
    split at hcall
    · cases hcall
      exact ⟨s.drawn, Nat.lt_succ_self _, hs.next⟩
    · exact hdraw.id hcall
  · intro i j a b ha hb hab
    simp only [post, nextCorrelationId, hget] at ha hb
    split at ha <;> split at hb
    · simp_all
    · cases ha
      exact absurd hab.symm (hfresh j b hb)
    · cases hb
      exact absurd hab (hfresh i a ha)
    · exact hs.distinct ha hb hab
  · intro i hi
    obtain ⟨call, hcall, hrest⟩ := hs.taken hi
    exact ⟨call, hold hcall, hrest⟩
  · intro n i call hn hcall hresp
    have hcall' := hcall
    simp only [post, nextCorrelationId, hget] at hcall
    split at hcall
    · rename_i hi
      -- no response carries the fresh id: the call would have been handed over already
      have htaken : i ∈ s.taken := mem_taken_of_respondsAt (s := s.post kind p) hs.origin hfirst
        hcall' hresp
      obtain ⟨call', hcall'', -⟩ := hs.taken htaken
      simp [hi] at hcall''
    · exact hs.spent hn hcall hresp
  · intro i call hcall hslot
    simp only [post, nextCorrelationId, hget] at hcall
    split at hcall
    · cases hcall
      cases hslot
    · exact hs.dropped hcall hslot
  · intro i call e hcall hslot
    simp only [post, nextCorrelationId, hget] at hcall
    split at hcall
    · cases hcall
      cases hslot
    · exact hs.answered hcall hslot
  · intro i n hin
    obtain ⟨call, r, hcall, hrest⟩ := hs.resolved hin
    exact ⟨call, r, hold hcall, hrest⟩

theorem inv_emit (hs : s.Inv) {r : Reply} (hr : ∀ i ∈ r.origin, i ∈ s.taken) :
    { s with emitted := s.emitted ++ [r] }.Inv := by
  have hget : ∀ {n : ℕ} {r' : Reply}, s.emitted[n]? = some r' →
      (s.emitted ++ [r])[n]? = some r' := by
    intro n r' h
    rw [List.getElem?_append_left (List.getElem?_eq_some_iff.mp h).1, h]
  refine ⟨⟨hs.wf, hs.next, hs.kind, hs.id, hs.distinct, hs.taken, ?_, ?_, ?_⟩, hs.dropped, ?_, ?_,
    hs.once⟩
  · intro r' i hmem hi
    rcases List.mem_append.mp hmem with hmem | hmem
    · exact hs.origin hmem hi
    · obtain rfl : r' = r := by simpa using hmem
      exact hr i hi
  · simp only [List.length_append]
    exact Nat.le_add_right_of_le hs.arrived
  · intro n i call hn hcall hresp
    obtain ⟨r', hr', hrest⟩ := hresp
    have hlt : n < s.emitted.length := hn.trans_le hs.arrived
    simp only [List.getElem?_append_left hlt] at hr'
    exact hs.spent hn hcall ⟨r', hr', hrest⟩
  · intro i call e hcall hslot
    obtain ⟨n, r', hin, hr', he⟩ := hs.answered hcall hslot
    exact ⟨n, r', hin, hget hr', he⟩
  · intro i n hin
    obtain ⟨call, r', hcall, hkind, hr', hrest⟩ := hs.resolved hin
    exact ⟨call, r', hcall, hkind, hget hr', hrest⟩

/-- An arrival completes the call that it answers, or none. -/
theorem origin_of_completes (hs : s.Routed) (hfirst : s.FirstIsAnswer) {r : Reply} {i : ℕ}
    (hr : s.emitted[s.arrived]? = some r) (hi : completes s.client r.envelope = some i) :
    r.origin = some i := by
  simp only [completes] at hi
  split at hi
  · rename_i hresp
    obtain ⟨call, hcall, -, hid, -⟩ := hs.wf.pending hi
    -- an earlier response with this id would have emptied the map under it
    refine hfirst i call hcall s.arrived ⟨r, hr, hresp, hid.symm⟩ (fun m hm hearlier ↦ ?_) r hr
    have hnone := (hs.spent hm hcall hearlier).2.2
    rw [hid, hi] at hnone
    cases hnone
  · cases hi

theorem routed_arrival (hs : s.Routed) (hfirst : s.FirstIsAnswer) {r : Reply}
    (hr : s.emitted[s.arrived]? = some r) {d : RemoteClient}
    (hd : d.WellFormed) (hmoves : s.client.Moves d) (resolved : List (ℕ × ℕ))
    (hpending : r.envelope.isResponse = true → d.pending[r.envelope.correlationId]? = none) :
    { s with client := d, arrived := s.arrived + 1, resolved := resolved }.Routed := by
  have hd' := hs.of_moves hd hmoves (fun _ h ↦ h) (fun _ ↦ .inl)
  refine ⟨hd, hs.next, hd'.kind, hd'.id, hd'.distinct, hd'.taken, hs.origin, ?_, ?_⟩
  · exact (List.getElem?_eq_some_iff.mp hr).1
  · intro n i call hn hcall hresp
    rcases Nat.lt_succ_iff_lt_or_eq.mp hn with hlt | rfl
    · exact hd'.spent hlt hcall hresp
    · obtain ⟨a, ha, hbecomes⟩ := hmoves.call hcall
      rw [hbecomes.envelope] at hresp
      have htaken := hd'.taken (mem_taken_of_respondsAt hs.origin hfirst ha hresp)
      obtain ⟨call', hcall', hstage, hnot⟩ := htaken
      obtain rfl : call = call' := Option.some.inj (hcall.symm.trans hcall')
      obtain ⟨r', hr', hresponse, hid⟩ := hresp
      obtain rfl : r = r' := Option.some.inj (hr.symm.trans hr')
      refine ⟨hstage, hnot, ?_⟩
      rw [hbecomes.envelope, ← hid]
      exact hpending hresponse

theorem inv_recv (hs : s.Inv) (hfirst : s.FirstIsAnswer) {r : Reply} {d : RemoteClient}
    (hr : s.emitted[s.arrived]? = some r) (h : s.client.recv (.ok r.envelope) = some d) :
    { s with
      client := d
      arrived := s.arrived + 1
      resolved := s.resolved ++
        ((completes s.client r.envelope).map fun i ↦ (i, s.arrived)).toList }.Inv := by
  have hmoves := hs.wf.moves_recv h
  obtain ⟨htask, hcases⟩ := RemoteClient.recv_eq_some h
  have hpending : r.envelope.isResponse = true → d.pending[r.envelope.correlationId]? = none := by
    intro hresp
    rcases hcases with ⟨e, he, -, rfl⟩ | ⟨e, he, hnot, -⟩ | ⟨he, -⟩ | ⟨err, he, -⟩ <;> cases he
    · exact RemoteClient.pending_resolve _ _ _
    · rw [hresp] at hnot
      cases hnot
  have hnew : ∀ {i n : ℕ},
      (i, n) ∈ ((completes s.client r.envelope).map fun i ↦ (i, s.arrived)).toList →
      n = s.arrived ∧ completes s.client r.envelope = some i := by
    intro i n hin
    rw [Option.mem_toList, Option.map_eq_some_iff] at hin
    obtain ⟨j, hj, heq⟩ := hin
    cases heq
    exact ⟨rfl, hj⟩
  refine ⟨routed_arrival hs.toRouted hfirst hr (hs.wf.recv h) hmoves _ hpending, ?_, ?_, ?_, ?_⟩
  · intro i y hy hdropped
    obtain ⟨x, hx, -⟩ := hmoves.call hy
    rcases RemoteClient.slot_recv h hx hy with hsame | ⟨-, hexit⟩ | ⟨e, -, -, -, hslot⟩
    · have hexit := hs.dropped hx (hsame ▸ hdropped)
      rw [htask] at hexit
      cases hexit
    · exact hexit
    · rw [hdropped] at hslot
      cases hslot
  · intro i y e hy hslot
    obtain ⟨x, hx, -⟩ := hmoves.call hy
    rcases RemoteClient.slot_recv h hx hy with hsame | ⟨hdropped, -⟩ | ⟨e', he', hresp, hp, hslot'⟩
    · obtain ⟨n, r', hin, hr', he⟩ := hs.answered hx (hsame ▸ hslot)
      exact ⟨n, r', List.mem_append_left _ hin, hr', he⟩
    · rw [hslot] at hdropped
      cases hdropped
    · cases he'
      rw [hslot] at hslot'
      cases hslot'
      refine ⟨s.arrived, r, List.mem_append_right _ ?_, hr, rfl⟩
      simp [completes, hresp, hp]
  · intro i n hin
    rcases List.mem_append.mp hin with hin | hin
    · obtain ⟨a, r', ha, hkind, hr', hslot, horigin⟩ := hs.resolved hin
      obtain ⟨b, hb, hbecomes⟩ := hmoves.forward ha
      refine ⟨b, r', hb, by rwa [hbecomes.kind], hr', ?_, horigin⟩
      rw [hbecomes.slot (by simp [hslot]), hslot]
    · obtain ⟨rfl, hi⟩ := hnew hin
      have horigin := origin_of_completes hs.toRouted hfirst hr hi
      simp only [completes] at hi
      split at hi
      · rename_i hresp
        obtain ⟨call, hcall, hkind, -⟩ := hs.wf.pending hi
        rcases hcases with ⟨e, he, -, rfl⟩ | ⟨e, he, hnot, -⟩ | ⟨he, -⟩ | ⟨err, he, -⟩ <;> cases he
        · refine ⟨{ call with slot := .filled (.ok r.envelope) }, r, ?_, hkind, hr, rfl, horigin⟩
          simp [RemoteClient.resolve_eq_of_some hi, RemoteClient.getElem?_setSlot, hcall]
        · rw [hresp] at hnot
          cases hnot
      · cases hi
  · -- the call that completes now was still pending, so its slot was empty
    rw [List.map_append, List.nodup_append]
    refine ⟨hs.once, ?_, ?_⟩
    · cases completes s.client r.envelope <;> simp
    · intro i hi j hj hij
      subst hij
      obtain ⟨⟨i', n⟩, hin, rfl⟩ := List.mem_map.mp hi
      obtain ⟨⟨j', m⟩, hjm, hj'⟩ := List.mem_map.mp hj
      obtain rfl : j' = i' := hj'
      obtain ⟨-, hcompletes⟩ := hnew hjm
      obtain ⟨call, r', hcall, -, -, hslot, -⟩ := hs.resolved hin
      simp only [completes] at hcompletes
      split at hcompletes
      · obtain ⟨call', hcall', -, -, -, hempty, -⟩ := hs.wf.pending hcompletes
        obtain rfl : call = call' := Option.some.inj (hcall.symm.trans hcall')
        rw [hempty] at hslot
        cases hslot
      · cases hcompletes

theorem Keeps.firstIsAnswer (hkeeps : s.Keeps t) (ht : t.FirstIsAnswer) : s.FirstIsAnswer := by
  intro i a ha n hn hmin r hr
  obtain ⟨b, hb, hab⟩ := hkeeps.call ha
  have hget : ∀ m ≤ n, t.emitted[m]? = s.emitted[m]? := by
    intro m hm
    have hlt : m < s.emitted.length := hm.trans_lt (List.getElem?_eq_some_iff.mp hr).1
    obtain ⟨rest, hrest⟩ := hkeeps.emitted
    rw [← hrest, List.getElem?_append_left hlt]
  refine ht i b hb n ?_ ?_ r (by rw [hget n le_rfl, hr])
  · simpa only [RespondsAt, hget n le_rfl, hab.envelope] using hn
  · intro m hm
    simpa only [RespondsAt, hget m hm.le, hab.envelope] using hmin m hm

theorem inv_step (hs : s.Inv) {a : Action} (h : s.step a = some t) (hdrawn : t.drawn ≤ 2 ^ 64)
    (hfirst : t.FirstIsAnswer) : t.Inv := by
  have hfirst' := (keeps_step hs.wf h).firstIsAnswer hfirst
  cases a with
  | draw =>
      cases h
      exact inv_draw hs
  | send p =>
      cases h
      exact inv_post hs (by simp) hdrawn hfirst
  | doSend p =>
      cases h
      exact inv_post hs (by simp) hdrawn hfirst
  | client a =>
      obtain ⟨d, hd, rfl⟩ := step_client_eq_some h
      exact inv_client hs hd
  | emit r =>
      obtain ⟨hr, rfl⟩ := step_emit_eq_some h
      exact inv_emit hs hr
  | recv =>
      obtain ⟨r, d, hr, hd, rfl⟩ := step_recv_eq_some h
      exact inv_recv hs hfirst' hr hd
  | recvErr err =>
      obtain ⟨d, hd, rfl⟩ := step_recvErr_eq_some h
      exact inv_recvErr hs hd

theorem inv_run {as : List Action} (hrun : run step init as = some s) (hdrawn : s.drawn ≤ 2 ^ 64)
    (hfirst : s.FirstIsAnswer) : s.Inv := by
  refine (run_invariant (P := fun u ↦ u.client.WellFormed ∧
    (u.drawn ≤ 2 ^ 64 → u.FirstIsAnswer → u.Inv)) ?_
    ⟨RemoteClient.wellFormed_new, fun _ _ ↦ inv_init⟩ hrun).2 hdrawn hfirst
  intro u a v hu hstep
  have hkeeps := keeps_step hu.1 hstep
  refine ⟨wellFormed_step hu.1 hstep, fun hdrawn hfirst ↦ ?_⟩
  exact inv_step (hu.2 (hkeeps.drawn.trans hdrawn) (hkeeps.firstIsAnswer hfirst)) hstep hdrawn
    hfirst

/-! ## The guarantees of a call -/

/-- The call has neither returned nor got a result; so is every call still to be made. -/
def Outstanding (s : Session) (i : ℕ) : Prop :=
  ∀ a, s.client.calls[i]? = some a →
    (∀ o, a.stage ≠ .returned o) ∧ ∀ result, a.slot ≠ .filled result

/-- The action is enabled, and by it the call `i` returns `o`. -/
def ReturnsBy (s : Session) (a : Action) (i : ℕ) (o : Outcome) : Prop :=
  ∃ t call, s.step a = some t ∧ t.client.calls[i]? = some call ∧ call.stage = .returned o

theorem returnsBy_act {a : RemoteClient.Action} {d : RemoteClient} {i : ℕ} {call : Call}
    {o : Outcome} (h : s.client.act a = some d) (hcall : d.calls[i]? = some call)
    (ho : call.stage = .returned o) : s.ReturnsBy (.client a) i o := by
  refine ⟨{ s with client := d, taken := s.taken ++ handedOver a d.task }, call, ?_, hcall, ho⟩
  simp [step, h]

theorem returnsBy_of_returning {a : RemoteClient.Action} {i : ℕ} {call : Call} {o : Outcome}
    (hcall : s.client.calls[i]? = some call)
    (h : s.client.act a =
      some { s.client with calls := RemoteClient.setStage s.client.calls i (.returned o) }) :
    s.ReturnsBy (.client a) i o := by
  have hcall' : (RemoteClient.setStage s.client.calls i (.returned o))[i]? =
      some { call with stage := .returned o } := by
    simp [RemoteClient.getElem?_setStage, hcall]
  exact returnsBy_act h hcall' rfl

/-- What is left of a call after its request has failed on the connection. -/
theorem failed_send (hs : s.Inv) {kind : ErrorKind} {message : String}
    (h : s.step (.client (.sendErr kind message)) = some t) :
    ∃ i a, s.client.task = .sending i ∧ s.client.calls[i]? = some a ∧
      (∀ j ≠ i, t.client.calls[j]? = s.client.calls[j]?) ∧
      (a.kind = .doSend → t.client.calls[i]? = some a) ∧
      (a.kind ≠ .doSend → a.stage = .waiting ∧
        t.client.calls[i]? = some { a with slot := .filled (.error (.io kind message)) }) := by
  obtain ⟨d, hd, rfl⟩ := step_client_eq_some h
  obtain ⟨i, a, htask, ha, rfl⟩ := RemoteClient.sendErr_eq_some hd
  obtain ⟨a', ha', hstage, -, hpending⟩ := hs.wf.sending htask
  obtain rfl : a = a' := Option.some.inj (ha.symm.trans ha')
  refine ⟨i, a, htask, ha, ?_⟩
  by_cases hkind : a.kind = .doSend
  · -- nobody else is pending under the id of a `do_send`
    have hnone : s.client.pending[a.envelope.correlationId]? = none := by
      rw [Option.eq_none_iff_forall_ne_some]
      intro j hj
      obtain ⟨b, hb, hkind', hid, -⟩ := hs.wf.pending hj
      obtain rfl : i = j := hs.distinct ha hb hid.symm
      obtain rfl : a = b := Option.some.inj (ha.symm.trans hb)
      exact hkind' hkind
    simp [RemoteClient.resolve, hnone, ha, hkind]
  · have hp := hpending hkind
    obtain ⟨b, hb, -, -, -, hslot, -⟩ := hs.wf.pending hp
    obtain rfl : a = b := Option.some.inj (ha.symm.trans hb)
    have hwaiting : a.stage = .waiting := by
      cases hst : a.stage with
      | enqueuing => exact absurd hst hstage
      | waiting => rfl
      | returned o =>
          have hjust := hs.wf.returned ha hst
          have htimeout := hs.kind ha
          cases o <;> simp_all [RemoteClient.Justified]
    refine ⟨?_, fun h ↦ absurd h hkind, fun _ ↦ ⟨hwaiting, ?_⟩⟩
    · intro j hj
      simp [RemoteClient.resolve, hp, RemoteClient.getElem?_setSlot, Ne.symm hj]
    · simp [RemoteClient.resolve, hp, RemoteClient.getElem?_setSlot, ha]

/-- A call whose `oneshot` got an error returns that error. -/
theorem returns_error (hs : s.client.WellFormed) {i : ℕ} {a : Call} {err : TransportError}
    (ha : s.client.calls[i]? = some a) (hkind : a.kind = .send) (hstage : a.stage ≠ .enqueuing)
    (hslot : a.slot = .filled (.error err)) :
    a.stage = .returned (.failed err) ∨
      a.stage = .waiting ∧ s.ReturnsBy (.client (.wake i)) i (.failed err) := by
  cases hst : a.stage with
  | enqueuing => exact absurd hst hstage
  | waiting =>
      exact .inr ⟨rfl, returnsBy_of_returning ha (RemoteClient.wake_of_filled ha hst hslot)⟩
  | returned o =>
      have hjust := hs.returned ha hst
      cases o <;> simp_all [RemoteClient.Justified]

/-! ## After the task has exited -/

/-- Every call that the exit of the task left without a result can only end with `Disconnected`. -/
structure Abandoned (s t : Session) : Prop where
  exited : t.client.task = .exited
  kind : ∀ {i : ℕ} {a : Call}, t.client.calls[i]? = some a → a.kind ≠ .sendTimeout
  call : ∀ {i : ℕ} {a : Call}, t.client.calls[i]? = some a → s.Outstanding i →
    a.stage = .enqueuing ∨ a.stage = .waiting ∧ a.slot = .dropped ∨
      a.stage = .returned (.failed .disconnected)

theorem abandoned_self (hs : s.Inv) (hexit : s.client.task = .exited) : s.Abandoned s := by
  refine ⟨hexit, hs.kind, ?_⟩
  intro i a ha hout
  obtain ⟨hreturned, hfilled⟩ := hout a ha
  obtain ⟨hqueue, hpending⟩ := hs.wf.exited hexit
  cases hst : a.stage with
  | enqueuing => exact .inl rfl
  | waiting =>
      refine .inr (.inl ⟨rfl, ?_⟩)
      have hheld := (hs.wf.waiting ha hst).2
      cases hsl : a.slot with
      | empty => simp [hqueue, hpending, hsl] at hheld
      | filled result => exact absurd hsl (hfilled result)
      | dropped => rfl
  | returned o => exact absurd hst (hreturned o)

theorem Abandoned.post {u : Session} (hu : s.Abandoned u) {kind : CallKind}
    (hkind : kind ≠ .sendTimeout) (p : Post) : s.Abandoned (u.post kind p) := by
  refine ⟨hu.exited, ?_, ?_⟩ <;> simp only [Session.post, RemoteClient.getElem?_invoke]
  · intro i a ha
    split at ha
    · cases ha
      exact hkind
    · exact hu.kind ha
  · intro i a ha hout
    split at ha
    · cases ha
      exact .inl rfl
    · exact hu.call ha hout

theorem Abandoned.returning {u : Session} (hu : s.Abandoned u) {j : ℕ} {o : Outcome}
    {taken : List ℕ} (ho : s.Outstanding j → o = .failed .disconnected) :
    s.Abandoned { u with
      client := { u.client with calls := RemoteClient.setStage u.client.calls j (.returned o) }
      taken := taken } := by
  refine ⟨hu.exited, ?_, ?_⟩ <;> simp only [RemoteClient.getElem?_setStage]
  · intro i a ha
    obtain ⟨b, hb, rfl⟩ := Option.map_eq_some_iff.mp ha
    have hkind := hu.kind hb
    split <;> exact hkind
  · intro i a ha hout
    obtain ⟨b, hb, rfl⟩ := Option.map_eq_some_iff.mp ha
    split
    · rename_i hji
      subst hji
      simp [ho hout]
    · exact hu.call hb hout

theorem Abandoned.step {u v : Session} (hu : s.Abandoned u) {a : Action}
    (h : u.step a = some v) : s.Abandoned v := by
  have hnot : ∀ result, u.client.recv result = none := by
    intro result
    simp [RemoteClient.recv, hu.exited]
  cases a with
  | draw => cases h; exact ⟨hu.exited, hu.kind, hu.call⟩
  | send p => cases h; exact hu.post (by simp) p
  | doSend p => cases h; exact hu.post (by simp) p
  | emit r =>
      obtain ⟨-, rfl⟩ := step_emit_eq_some h
      exact ⟨hu.exited, hu.kind, hu.call⟩
  | recv =>
      obtain ⟨r, d, -, hd, -⟩ := step_recv_eq_some h
      simp [hnot] at hd
  | recvErr err =>
      obtain ⟨d, hd, -⟩ := step_recvErr_eq_some h
      simp [hnot] at hd
  | client a =>
      obtain ⟨d, hd, rfl⟩ := step_client_eq_some h
      cases a with
      | enqueue j =>
          obtain ⟨call, -, -, ⟨-, rfl⟩ | ⟨hup, -⟩⟩ := RemoteClient.enqueue_eq_some hd
          · exact hu.returning fun _ ↦ rfl
          · exact absurd hu.exited hup
      | wake j =>
          obtain ⟨call, o, hcall, hstage, ho, rfl⟩ := RemoteClient.wake_eq_some hd
          refine hu.returning fun hout ↦ ?_
          rcases hu.call hcall hout with h | ⟨-, hslot⟩ | h
          · rw [hstage] at h
            cases h
          · simpa [hslot] using ho
          · rw [hstage] at h
            cases h
      | expire j =>
          obtain ⟨call, hcall, hkind, -⟩ := RemoteClient.expire_eq_some hd
          exact absurd hkind (hu.kind hcall)
      | takeCommand =>
          obtain ⟨htask, -⟩ := RemoteClient.takeCommand_eq_some hd
          rw [hu.exited] at htask
          cases htask
      | sendOk =>
          obtain ⟨j, htask, -⟩ := RemoteClient.sendOk_eq_some hd
          rw [hu.exited] at htask
          cases htask
      | sendErr kind message =>
          obtain ⟨j, call, htask, -⟩ := RemoteClient.sendErr_eq_some hd
          rw [hu.exited] at htask
          cases htask

/-- An abandoned call has returned `Disconnected`, or returns it by its own next step. -/
theorem Abandoned.returns (ht : s.Abandoned t) {i : ℕ} {a : Call}
    (ha : t.client.calls[i]? = some a) (hout : s.Outstanding i) :
    a.stage = .returned (.failed .disconnected) ∨
      a.stage = .enqueuing ∧ t.ReturnsBy (.client (.enqueue i)) i (.failed .disconnected) ∨
      a.stage = .waiting ∧ t.ReturnsBy (.client (.wake i)) i (.failed .disconnected) := by
  rcases ht.call ha hout with hstage | ⟨hstage, hslot⟩ | hstage
  · exact .inr (.inl ⟨hstage, returnsBy_of_returning ha
      (RemoteClient.enqueue_of_exited ha hstage ht.exited)⟩)
  · exact .inr (.inr ⟨hstage, returnsBy_of_returning ha
      (RemoteClient.wake_of_dropped ha hstage hslot)⟩)
  · exact .inl hstage

/-! ## Every run -/

/-- Calls through `RemoteAddr`s that share a client. In every state of every run: a call completes
at most once; an `Ok` is the answer to the call's own envelope; a response to a `do_send` completes
nothing; a failed `conn.send` fails its own call and touches no other; and once the task has exited,
every call without a result, queued, blocked or still to come, ends with `Disconnected`. -/
theorem remoteAddr_calls_matched {as : List Action} (hrun : run step init as = some s)
    (hdrawn : s.drawn < 2 ^ 64) (hfirst : s.FirstIsAnswer) :
    ((s.resolved.map Prod.fst).Nodup ∧
      ∀ bs t, run step s bs = some t → ∀ (i : ℕ) (a : Call) (o : Outcome),
        s.client.calls[i]? = some a → a.stage = .returned o →
        ∃ b, t.client.calls[i]? = some b ∧ b.stage = .returned o) ∧
    (∀ (i : ℕ) (a : Call) (e : Envelope), s.client.calls[i]? = some a →
      a.stage = .returned (.response e) →
      ∃ n r, (i, n) ∈ s.resolved ∧ s.emitted[n]? = some r ∧ r.envelope = e ∧ r.origin = some i) ∧
    (∀ (i n j : ℕ) (r : Reply) (a : Call), (i, n) ∈ s.resolved → s.emitted[n]? = some r →
      r.origin = some j → s.client.calls[j]? = some a → a.kind ≠ .doSend) ∧
    (∀ kind message t, s.step (.client (.sendErr kind message)) = some t →
      ∃ i a, s.client.task = .sending i ∧ s.client.calls[i]? = some a ∧
        (∀ j ≠ i, t.client.calls[j]? = s.client.calls[j]?) ∧
        (a.kind = .doSend → t.client.calls[i]? = some a) ∧
        (a.kind ≠ .doSend → ∀ bs u, run step t bs = some u →
          ∃ b, u.client.calls[i]? = some b ∧
            (b.stage = .returned (.failed (.io kind message)) ∨ b.stage = .waiting ∧
              u.ReturnsBy (.client (.wake i)) i (.failed (.io kind message))))) ∧
    (s.client.task = .exited → ∀ bs t, run step s bs = some t →
      ∀ (i : ℕ) (a : Call), t.client.calls[i]? = some a → s.Outstanding i →
        a.stage = .returned (.failed .disconnected) ∨
        a.stage = .enqueuing ∧ t.ReturnsBy (.client (.enqueue i)) i (.failed .disconnected) ∨
        a.stage = .waiting ∧ t.ReturnsBy (.client (.wake i)) i (.failed .disconnected)) := by
  have hs := inv_run hrun hdrawn.le hfirst
  refine ⟨⟨hs.once, ?_⟩, ?_, ?_, ?_, ?_⟩
  · intro bs t hbs i a o ha ho
    obtain ⟨b, hb, hbecomes⟩ := (keeps_run hs.wf hbs).call ha
    exact ⟨b, hb, hbecomes.returned o ho⟩
  · intro i a e ha hstage
    obtain ⟨n, r, hin, hr, he⟩ := hs.answered ha (hs.wf.returned ha hstage)
    obtain ⟨-, r', -, -, hr', -, horigin⟩ := hs.resolved hin
    obtain rfl : r = r' := Option.some.inj (hr.symm.trans hr')
    exact ⟨n, r, hin, hr, he, horigin⟩
  · intro i n j r a hin hr hj ha
    obtain ⟨call, r', hcall, hkind, hr', -, horigin⟩ := hs.resolved hin
    obtain rfl : r = r' := Option.some.inj (hr.symm.trans hr')
    obtain rfl : i = j := Option.some.inj (horigin.symm.trans hj)
    obtain rfl : a = call := Option.some.inj (ha.symm.trans hcall)
    exact hkind
  · intro kind message t ht
    obtain ⟨i, a, htask, ha, hothers, htell, hcall⟩ := failed_send hs ht
    refine ⟨i, a, htask, ha, hothers, htell, fun hkind bs u hbs ↦ ?_⟩
    obtain ⟨hstage, ha'⟩ := hcall hkind
    have ht' := wellFormed_step hs.wf ht
    obtain ⟨b, hb, hbecomes⟩ := (keeps_run ht' hbs).call ha'
    have hsend : a.kind = .send := by
      have htimeout := hs.kind ha
      cases hk : a.kind <;> simp_all
    refine ⟨b, hb, returns_error (wellFormed_run ht' hbs) hb ?_ ?_ ?_⟩
    · rw [hbecomes.kind, hsend]
    · intro h
      simpa [hstage] using hbecomes.enqueuing h
    · rw [hbecomes.slot (by simp)]
  · intro hexit bs t hbs i a ha hout
    have ht : s.Abandoned t := run_invariant (P := fun u ↦ s.Abandoned u)
      (fun _ _ _ hu ↦ hu.step) (abandoned_self hs hexit) hbs
    exact ht.returns ha hout

/-- A request and a `do_send`, both answered, the second one first and after an unsolicited
response. -/
def answeredOutOfOrder : List Action :=
  [.send ⟨"Ping", [1], "a", "x"⟩, .doSend ⟨"Note", [], "a", "x"⟩,
    .client (.enqueue 1), .client (.enqueue 0),
    .client .takeCommand, .client .sendOk, .client .takeCommand, .client .sendOk,
    .emit ⟨⟨"Pong", [], 9, "b", "a", true⟩, none⟩,
    .emit ⟨⟨"Pong", [2], 2, "b", "a", true⟩, some 1⟩,
    .emit ⟨⟨"Pong", [1], 1, "b", "a", true⟩, some 0⟩,
    .recv, .recv, .recv, .client (.wake 0)]

theorem answers_out_of_order_matched :
    ∃ s, run step init answeredOutOfOrder = some s ∧
      s.client.calls.map (·.stage) =
        [.returned (.response ⟨"Pong", [1], 1, "b", "a", true⟩), .returned .sent] ∧
      ∃ n r, (0, n) ∈ s.resolved ∧ s.emitted[n]? = some r ∧ r.origin = some 0 := by
  obtain ⟨s, hs⟩ := Option.isSome_iff_exists.mp
    (show (run step init answeredOutOfOrder).isSome = true by decide +kernel)
  have hstages : (run step init answeredOutOfOrder).map (·.client.calls.map (·.stage)) =
      some [.returned (.response ⟨"Pong", [1], 1, "b", "a", true⟩), .returned .sent] := by
    decide +kernel
  have hids : (run step init answeredOutOfOrder).map
      (·.client.calls.map (·.envelope.correlationId)) = some [1, 2] := by decide +kernel
  have hemitted : (run step init answeredOutOfOrder).map (·.emitted) =
      some [⟨⟨"Pong", [], 9, "b", "a", true⟩, none⟩, ⟨⟨"Pong", [2], 2, "b", "a", true⟩, some 1⟩,
        ⟨⟨"Pong", [1], 1, "b", "a", true⟩, some 0⟩] := by decide +kernel
  have hdrawn : (run step init answeredOutOfOrder).map (·.drawn) = some 2 := by decide +kernel
  rw [hs, Option.map_some, Option.some_inj] at hstages hids hemitted hdrawn
  have hfirst : s.FirstIsAnswer := by
    rintro i a ha n ⟨r, hr, -, hid⟩ - r' hr'
    obtain rfl : r = r' := Option.some.inj (hr.symm.trans hr')
    have hid' : [1, 2][i]? = some r.envelope.correlationId := by
      rw [hid, ← hids, List.getElem?_map, ha, Option.map_some]
    rw [hemitted] at hr
    rcases i with _ | _ | i <;> rcases n with _ | _ | _ | n <;> cases hr
    all_goals first | rfl | exact absurd hid' (by decide) | cases hid'
  obtain ⟨-, hanswer, -⟩ := remoteAddr_calls_matched hs (by omega) hfirst
  refine ⟨s, hs, hstages, ?_⟩
  have hzero : (s.client.calls.map (·.stage))[0]? =
      some (.returned (.response ⟨"Pong", [1], 1, "b", "a", true⟩)) := by rw [hstages]; rfl
  rw [List.getElem?_map, Option.map_eq_some_iff] at hzero
  obtain ⟨a, ha, hstage⟩ := hzero
  obtain ⟨n, r, hin, hr, -, horigin⟩ := hanswer 0 a _ ha hstage
  exact ⟨n, r, hin, hr, horigin⟩

end Session

end Cineyma.Remote
