import Cineyma.Foundations.Run
import Cineyma.Remote.Pending

/-!
# Remote addresses on one client

Any number of `RemoteAddr`s share one client and draw their correlation ids from one counter of the
process. The peer is arbitrary: it may answer in any order, more than once, or without having been
asked. A reply carries, for the statements only, the call that the peer meant to answer.
-/

namespace Cineyma.Remote

open StepSystem

/-- `fetch_add`: the id drawn and the new counter. -/
def nextCorrelationId (counter : UInt64) : UInt64 × UInt64 :=
  (counter, counter + 1)

/-- The message of a call and the address it is sent through. -/
structure Post where
  typeId : String
  encoded : List UInt8
  localNode : String
  actorName : String
  deriving DecidableEq

structure Reply where
  envelope : Envelope
  origin : Option ℕ
  deriving DecidableEq

/-- The client with its callers and its peer. `taken` lists the calls handed to `conn.send`,
`emitted` everything the peer has sent, of which the client has received the first `arrived`, and
`resolved` pairs a call with the position of the reply that completed it. -/
structure Session where
  client : RemoteClient
  nextId : UInt64
  drawn : ℕ
  taken : List ℕ
  emitted : List Reply
  arrived : ℕ
  resolved : List (ℕ × ℕ)

namespace Session

def init : Session where
  client := .new
  nextId := 1
  drawn := 0
  taken := []
  emitted := []
  arrived := 0
  resolved := []

inductive Action where
  /-- An address of another client draws an id. -/
  | draw
  | send (post : Post)
  | doSend (post : Post)
  | client (a : RemoteClient.Action)
  | emit (r : Reply)
  | recv
  | recvErr (err : TransportError)
  deriving DecidableEq

def draw (s : Session) : Session :=
  { s with nextId := (nextCorrelationId s.nextId).2, drawn := s.drawn + 1 }

def post (s : Session) (kind : CallKind) (p : Post) : Session :=
  { s.draw with
    client := s.client.invoke kind (.fromMessage p.typeId p.encoded (nextCorrelationId s.nextId).1
      p.localNode p.actorName) }

/-- The calls that the step of the client hands to `conn.send`. -/
def handedOver : RemoteClient.Action → ClientTask → List ℕ
  | .takeCommand, .sending i => [i]
  | _, _ => []

theorem task_of_mem_handedOver {a : RemoteClient.Action} {task : ClientTask} {i : ℕ}
    (h : i ∈ handedOver a task) : task = .sending i := by
  unfold handedOver at h
  split at h
  · simp_all
  · simp at h

/-- The call that an envelope arriving now completes. -/
def completes (c : RemoteClient) (e : Envelope) : Option ℕ :=
  if e.isResponse then c.pending[e.correlationId]? else none

def step (s : Session) : Action → Option Session
  | .draw => some s.draw
  | .send p => some (s.post .send p)
  | .doSend p => some (s.post .doSend p)
  | .client a =>
      (s.client.act a).map fun c ↦
        { s with client := c, taken := s.taken ++ handedOver a c.task }
  | .emit r =>
      -- only an envelope that was handed to the connection can be answered
      if ∀ i ∈ r.origin, i ∈ s.taken then some { s with emitted := s.emitted ++ [r] } else none
  | .recv =>
      match s.emitted[s.arrived]? with
      | none => none
      | some r =>
          (s.client.recv (.ok r.envelope)).map fun c ↦
            { s with
              client := c
              arrived := s.arrived + 1
              resolved := s.resolved ++
                ((completes s.client r.envelope).map fun i ↦ (i, s.arrived)).toList }
  | .recvErr err => (s.client.recv (.error err)).map fun c ↦ { s with client := c }

/-! ## Runs -/

variable {s t : Session}

theorem step_client_eq_some {a : RemoteClient.Action} (h : s.step (.client a) = some t) :
    ∃ d, s.client.act a = some d ∧
      t = { s with client := d, taken := s.taken ++ handedOver a d.task } := by
  obtain ⟨d, hd, rfl⟩ := Option.map_eq_some_iff.mp h
  exact ⟨d, hd, rfl⟩

theorem step_emit_eq_some {r : Reply} (h : s.step (.emit r) = some t) :
    (∀ i ∈ r.origin, i ∈ s.taken) ∧ t = { s with emitted := s.emitted ++ [r] } := by
  simp only [step] at h
  split at h
  · exact ⟨by assumption, by simpa using h.symm⟩
  · cases h

theorem step_recv_eq_some (h : s.step .recv = some t) :
    ∃ r d, s.emitted[s.arrived]? = some r ∧ s.client.recv (.ok r.envelope) = some d ∧
      t = { s with
        client := d
        arrived := s.arrived + 1
        resolved := s.resolved ++
          ((completes s.client r.envelope).map fun i ↦ (i, s.arrived)).toList } := by
  simp only [step] at h
  split at h
  · cases h
  · obtain ⟨d, hd, rfl⟩ := Option.map_eq_some_iff.mp h
    exact ⟨_, d, by assumption, hd, rfl⟩

theorem step_recvErr_eq_some {err : TransportError} (h : s.step (.recvErr err) = some t) :
    ∃ d, s.client.recv (.error err) = some d ∧ t = { s with client := d } := by
  obtain ⟨d, hd, rfl⟩ := Option.map_eq_some_iff.mp h
  exact ⟨d, hd, rfl⟩

theorem wellFormed_step (hs : s.client.WellFormed) {a : Action} (h : s.step a = some t) :
    t.client.WellFormed := by
  cases a with
  | draw => cases h; exact hs
  | send p => cases h; exact hs.invoke _ _
  | doSend p => cases h; exact hs.invoke _ _
  | client a =>
      obtain ⟨d, hd, rfl⟩ := step_client_eq_some h
      exact hs.act hd
  | emit r =>
      obtain ⟨-, rfl⟩ := step_emit_eq_some h
      exact hs
  | recv =>
      obtain ⟨r, d, -, hd, rfl⟩ := step_recv_eq_some h
      exact hs.recv hd
  | recvErr err =>
      obtain ⟨d, hd, rfl⟩ := step_recvErr_eq_some h
      exact hs.recv hd

/-- Nothing that was drawn, called or sent is forgotten. -/
structure Keeps (s t : Session) : Prop where
  drawn : s.drawn ≤ t.drawn
  emitted : s.emitted <+: t.emitted
  call : ∀ {i : ℕ} {a : Call}, s.client.calls[i]? = some a →
    ∃ b, t.client.calls[i]? = some b ∧ RemoteClient.Becomes a b

theorem Keeps.refl (s : Session) : s.Keeps s :=
  ⟨le_rfl, List.prefix_rfl, fun h ↦ ⟨_, h, .refl _⟩⟩

theorem Keeps.trans {u : Session} (hst : s.Keeps t) (htu : t.Keeps u) : s.Keeps u := by
  refine ⟨hst.drawn.trans htu.drawn, hst.emitted.trans htu.emitted, fun ha ↦ ?_⟩
  obtain ⟨b, hb, hab⟩ := hst.call ha
  obtain ⟨c, hc, hbc⟩ := htu.call hb
  exact ⟨c, hc, hab.trans hbc⟩

theorem keeps_post (s : Session) (kind : CallKind) (p : Post) : s.Keeps (s.post kind p) := by
  refine ⟨Nat.le_succ _, List.prefix_rfl, fun {i a} ha ↦ ⟨a, ?_, .refl a⟩⟩
  have hi : i ≠ s.client.calls.length := by
    rintro rfl
    simp at ha
  simpa [post, RemoteClient.getElem?_invoke, hi] using ha

theorem keeps_step (hs : s.client.WellFormed) {a : Action} (h : s.step a = some t) :
    s.Keeps t := by
  cases a with
  | draw =>
      cases h
      exact ⟨Nat.le_succ _, List.prefix_rfl, fun h ↦ ⟨_, h, .refl _⟩⟩
  | send p =>
      cases h
      exact keeps_post s _ p
  | doSend p =>
      cases h
      exact keeps_post s _ p
  | client a =>
      obtain ⟨d, hd, rfl⟩ := step_client_eq_some h
      exact ⟨le_rfl, List.prefix_rfl, (hs.moves_act hd).forward⟩
  | emit r =>
      obtain ⟨-, rfl⟩ := step_emit_eq_some h
      exact ⟨le_rfl, List.prefix_append _ _, fun h ↦ ⟨_, h, .refl _⟩⟩
  | recv =>
      obtain ⟨r, d, -, hd, rfl⟩ := step_recv_eq_some h
      exact ⟨le_rfl, List.prefix_rfl, (hs.moves_recv hd).forward⟩
  | recvErr err =>
      obtain ⟨d, hd, rfl⟩ := step_recvErr_eq_some h
      exact ⟨le_rfl, List.prefix_rfl, (hs.moves_recv hd).forward⟩

theorem wellFormed_run {as : List Action} (hs : s.client.WellFormed)
    (hrun : run step s as = some t) : t.client.WellFormed :=
  run_invariant (P := fun u ↦ u.client.WellFormed) (fun _ _ _ hu ↦ wellFormed_step hu) hs hrun

theorem keeps_run {as : List Action} (hs : s.client.WellFormed)
    (hrun : run step s as = some t) : s.Keeps t := by
  refine (run_invariant (P := fun u ↦ u.client.WellFormed ∧ s.Keeps u) ?_ ⟨hs, .refl s⟩ hrun).2
  intro u a v hu hstep
  exact ⟨wellFormed_step hu.1 hstep, hu.2.trans (keeps_step hu.1 hstep)⟩

end Session

end Cineyma.Remote
