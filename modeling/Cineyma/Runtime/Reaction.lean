import Cineyma.Runtime.System

/-!
# How one actor takes a failure

The kinds of actors there are while one failure is under way: those that notice nothing, those that
never fail themselves, the one that has the failure at hand, and the one that has answered it. Each
kind is kept by the steps of the actor and by the mail of the others.
-/

namespace Cineyma.Runtime

open StepSystem

variable {S M I : Type}

/-- The loop was left because of a failure. -/
def Pc.failed : Pc M I → Bool
  | .reaping failed | .stopping failed | .deciding failed => failed
  | _ => false

/-- The input is not a signal to instance `g`, and not a panic. -/
def Input.Gentle (g : ℕ) : Input M I → Prop
  | .requestStop | .shutdown | .panic => False
  | .escalation n => n ≠ g
  | _ => True

/-- The strategy of the role does not start a new instance after the first failure. -/
def Role.GivesUp : Role → Prop
  | .topLevel | .child .escalate => False
  | .child .stop => True
  | .child (.restart maxRestarts _) => ¬ 0 < maxRestarts

namespace Actor

variable {beh : Behaviour S M I} {a b : Actor S M I} {i : Input M I}
  {events trace : List (Event S M I)} {as : List (Input M I)} {role : Role} {capacity g c : ℕ}

/-! ## Actors that notice nothing -/

/-- Instance `g` runs or is about to, and no signal is on its way to it. -/
structure Calm (g : ℕ) (a : Actor S M I) : Prop where
  generation : a.generation = g
  phase : a.pc.phase = .running ∨ a.pc.phase = .unpolled ∧ g = 0
  shutdown : a.shutdown.Silent
  stop : a.stop.Silent
  escalate : a.escalate.Silent

theorem calm_spawned (beh : Behaviour S M I) (role : Role) (capacity : ℕ) :
    (spawned beh role capacity).Calm 0 :=
  ⟨rfl, .inr ⟨rfl, rfl⟩, rfl, rfl, rfl⟩

theorem Calm.alive (h : a.Calm g) : a.pc.alive = true := by
  rcases h.phase with hphase | ⟨hphase, -⟩ <;> cases hpc : a.pc <;> simp_all [Pc.phase, Pc.alive]

theorem Calm.not_dead (h : a.Calm g) : a.pc ≠ .dead := by
  intro hpc
  have halive := h.alive
  rw [hpc] at halive
  cases halive

theorem Calm.step (h : a.Calm g) (hstep : Transition beh a i b events) (hi : i.Gentle g) :
    b.Calm g ∧ .escalate ∉ events ∧ ∀ c, .stopChild c ∉ events := by
  obtain ⟨hgeneration, hphase, hshutdown, hstop, hescalate⟩ := h
  cases hstep with
  | requestStop | shutdown | panicHandler | panicElsewhere => cases hi
  | escalation => exact absurd hgeneration hi
  | deliver | oldEscalation | watch | streamReady | spawn | addStream | adopt =>
      exact ⟨⟨hgeneration, hphase, hshutdown, hstop, hescalate⟩, by simp, by simp⟩
  | begin now strategy hpc hrole =>
      have hg : g = 0 := by
        rcases hphase with hphase | ⟨-, hg⟩
        · rw [hpc] at hphase
          cases hphase
        · exact hg
      exact ⟨⟨hg.symm, .inl rfl, hshutdown, hstop, Notify.silent_new⟩, by simp, by simp⟩
  | beginTop now hpc hrole =>
      exact ⟨⟨hgeneration, .inl rfl, hshutdown, hstop, hescalate⟩, by simp, by simp⟩
  | select =>
      exact ⟨⟨hgeneration, .inl rfl, hshutdown.notified, hstop.notified, hescalate.notified⟩,
        by simp, by simp⟩
  | take | streamsReady =>
      exact ⟨⟨hgeneration, .inl rfl, hshutdown.drop, hstop.drop, hescalate.drop⟩, by simp, by simp⟩
  | pending =>
      exact ⟨⟨hgeneration, .inl rfl, hshutdown.poll, hstop.poll, hescalate.poll⟩, by simp, by simp⟩
  | pollStreams | streamPending | streamItem | streamEnd | retStarted | retHandler | retItem |
    retFinished =>
      exact ⟨⟨hgeneration, .inl rfl, hshutdown, hstop, hescalate⟩, by simp, by simp⟩
  | shutdownTaken now kept hpc hready => exact absurd hshutdown (by simp [Notify.Silent, hready])
  | stopTaken now kept hpc hpoll hready => exact absurd hstop (by simp [Notify.Silent, hready])
  | escalateTaken now kept hpc hpoll hpoll' hready =>
      exact absurd hescalate (by simp [Notify.Silent, hready])
  | _ => simp_all [Pc.phase]

/-! ## Actors that never fail -/

/-- A child in its first instance that does not fail, whether it is stopped or not. -/
structure Mild (a : Actor S M I) : Prop where
  generation : a.generation = 0
  child : a.role ≠ .topLevel
  escalate : a.escalate.Silent
  unfailed : a.pc.failed = false
  not_dead : a.pc ≠ .dead

theorem Calm.mild (h : a.Calm 0) (hchild : a.role ≠ .topLevel) : a.Mild := by
  refine ⟨h.generation, hchild, h.escalate, ?_, h.not_dead⟩
  rcases h.phase with hphase | ⟨hphase, -⟩ <;> cases hpc : a.pc <;> simp_all [Pc.phase, Pc.failed]

theorem Mild.step (h : a.Mild) (hstep : Transition beh a i b events) (hpanic : i ≠ .panic)
    (hescalation : ∀ n, i = .escalation n → n ≠ 0) : b.Mild ∧ .escalate ∉ events := by
  obtain ⟨hgeneration, hchild, hescalate, hunfailed, hdead⟩ := h
  have hleave : ∀ {a' : Actor S M I}, a'.role = a.role →
      (a'.leave false).pc.failed = false ∧ (a'.leave false).pc ≠ .dead := by
    intro a' hrole
    refine ⟨?_, leave_pc_ne_dead _ _⟩
    unfold leave
    cases a'.role <;> rfl
  cases hstep with
  | panicHandler | panicElsewhere => exact absurd rfl hpanic
  | escalation => exact absurd hgeneration (hescalation _ rfl)
  | deliver | requestStop | shutdown | oldEscalation | watch | streamReady | spawn | addStream |
    adopt =>
      exact ⟨⟨hgeneration, hchild, hescalate, hunfailed, hdead⟩, by simp⟩
  | begin => exact ⟨⟨rfl, hchild, Notify.silent_new, rfl, by simp [instantiate]⟩, by simp⟩
  | select => exact ⟨⟨hgeneration, hchild, hescalate.notified, rfl, by simp⟩, by simp⟩
  | take | streamsReady => exact ⟨⟨hgeneration, hchild, hescalate.drop, rfl, by simp⟩, by simp⟩
  | pending => exact ⟨⟨hgeneration, hchild, hescalate.poll, rfl, by simp⟩, by simp⟩
  | pollStreams | streamPending | streamItem | streamEnd | retStarted | retHandler | retItem |
    retFinished =>
      exact ⟨⟨hgeneration, hchild, hescalate, rfl, by simp⟩, by simp⟩
  | shutdownTaken | stopTaken =>
      exact ⟨⟨hgeneration, hchild, hescalate.drop, (hleave rfl).1, (hleave rfl).2⟩, by simp⟩
  | escalateTaken now kept hpc hpoll hpoll' hready =>
      exact absurd hescalate (by simp [Notify.Silent, hready])
  | reap now failed hpc =>
      rw [hpc] at hunfailed
      exact ⟨⟨hgeneration, hchild, hescalate, hunfailed, by simp⟩, by simp⟩
  | retStopped failed strategy hpc =>
      rw [hpc] at hunfailed
      exact ⟨⟨hgeneration, hchild, hescalate, hunfailed, by simp⟩, by simp⟩
  | quit | announce => exact ⟨⟨hgeneration, hchild, hescalate, rfl, by simp [finish]⟩, by simp⟩
  | beginTop now hpc hrole => exact absurd hrole hchild
  | announceTop now failed hpc hrole => exact absurd hrole hchild
  | retStoppedTop failed hpc hrole => exact absurd hrole hchild
  | _ => simp_all [Pc.failed]

/-! ## The actor that has the failure at hand -/

/-- The first instance fails: it has left its loop, or its escalate signal is on the way. -/
structure Failing (a : Actor S M I) : Prop where
  generation : a.generation = 0
  shutdown : a.shutdown.Silent
  stop : a.stop.Silent
  stage : a.pc.phase = .running ∧ a.escalate.Single ∨
    (a.pc.failed = true ∨ a.pc = .announcing true ∧ a.role = .topLevel) ∧ a.escalate.Silent

/-- A child that has given up. -/
def GivenUp (a : Actor S M I) : Prop := a.pc = .announcing true ∨ a.pc = .ended

/-- The failure has been answered as it has to be by an actor with this role. -/
def Answered (a : Actor S M I) : Role → Prop
  | .topLevel => a.pc = .ended
  | .child .stop => a.GivenUp
  | .child (.restart maxRestarts _) => if 0 < maxRestarts then a.Calm 1 else a.GivenUp
  | .child .escalate => False

def Settled (a : Actor S M I) : Prop := a.Answered a.role

/-- What `leave true` leads to. -/
theorem failing_leave (hgeneration : a.generation = 0) (hshutdown : a.shutdown.Silent)
    (hstop : a.stop.Silent) (hescalate : a.escalate.Silent) : (a.leave true).Failing := by
  refine ⟨hgeneration, hshutdown, hstop, .inr ⟨?_, hescalate⟩⟩
  unfold leave
  cases hrole : a.role with
  | topLevel => exact .inr ⟨rfl, rfl⟩
  | child strategy => exact .inl rfl

theorem Failing.single (h : a.Failing) (hphase : a.pc.phase = .running) : a.escalate.Single := by
  rcases h.stage with ⟨-, hsingle⟩ | ⟨hfailed | ⟨hpc, -⟩, -⟩
  · exact hsingle
  · cases hpc : a.pc <;> simp_all [Pc.phase, Pc.failed]
  · rw [hpc] at hphase
    cases hphase

theorem Failing.left (h : a.Failing) (hphase : a.pc.phase ≠ .running) :
    (a.pc.failed = true ∨ a.pc = .announcing true ∧ a.role = .topLevel) ∧ a.escalate.Silent :=
  h.stage.resolve_left fun hrunning ↦ hphase hrunning.1

theorem Failing.step (h : a.Failing) (hstep : Transition beh a i b events) (hi : i.Gentle 0)
    (htracker : ∀ maxRestarts within, a.role = .child (.restart maxRestarts within) →
      a.tracker = some (.new maxRestarts within)) :
    (b.Failing ∨ b.Settled) ∧ .escalate ∉ events ∨
      a.role = .child .escalate ∧ b = { a with pc := .announcing true } ∧ a.escalate.Silent ∧
        events = [.verdict .escalate, .escalate] := by
  have ⟨hgeneration, hshutdown, hstop, hstage⟩ := h
  cases hstep with
  | requestStop | shutdown | panicHandler | panicElsewhere => cases hi
  | escalation => exact absurd hgeneration hi
  | deliver | oldEscalation | watch | streamReady | spawn | addStream | adopt =>
      exact .inl ⟨.inl ⟨hgeneration, hshutdown, hstop, hstage⟩, by simp⟩
  | select now hpc =>
      have hsingle := h.single (by simp [hpc, Pc.phase])
      exact .inl ⟨.inl ⟨hgeneration, hshutdown.notified, hstop.notified,
        .inl ⟨rfl, hsingle.notified⟩⟩, by simp⟩
  | take now m rest hpc =>
      have hsingle := h.single (by simp [hpc, Pc.phase])
      exact .inl ⟨.inl ⟨hgeneration, hshutdown.drop, hstop.drop, .inl ⟨rfl, hsingle.drop⟩⟩, by simp⟩
  | streamsReady now kept hpc =>
      have hsingle := h.single (by simp [hpc, Pc.phase])
      exact .inl ⟨.inl ⟨hgeneration, hshutdown.drop, hstop.drop, .inl ⟨rfl, hsingle.drop⟩⟩, by simp⟩
  | pollStreams now hpc
  | streamPending now id todo kept any hpc
  | streamItem now id todo kept any x rest hpc
  | streamEnd now id todo kept any rest hpc
  | retStarted hpc
  | retHandler m hpc
  | retItem id x todo kept hpc
  | retFinished todo kept any hpc =>
      have hsingle := h.single (by simp [hpc, Pc.phase])
      exact .inl ⟨.inl ⟨hgeneration, hshutdown, hstop, .inl ⟨rfl, hsingle⟩⟩, by simp⟩
  | shutdownTaken now kept hpc hready => exact absurd hshutdown (by simp [Notify.Silent, hready])
  | stopTaken now kept hpc hpoll hready => exact absurd hstop (by simp [Notify.Silent, hready])
  | escalateTaken now kept hpc =>
      have hsingle := h.single (by simp [hpc, Pc.phase])
      refine .inl ⟨.inl (failing_leave hgeneration ?_ ?_ ?_), by simp⟩
      · exact hshutdown.poll.drop
      · exact hstop.poll.drop
      · exact hsingle.poll.drop
  | pending now kept hpc hpoll hpoll' hready =>
      have hsingle := h.single (by simp [hpc, Pc.phase])
      exact absurd hready hsingle.not_silent
  | reap now failed hpc =>
      obtain ⟨hfailed, hsilent⟩ := h.left (by simp [hpc, Pc.phase])
      rw [hpc] at hfailed
      refine .inl ⟨.inl ⟨hgeneration, hshutdown, hstop, .inr ⟨.inl ?_, hsilent⟩⟩, by simp⟩
      exact hfailed.resolve_right (by simp)
  | retStopped failed strategy hpc hrole =>
      obtain ⟨hfailed, hsilent⟩ := h.left (by simp [hpc, Pc.phase])
      rw [hpc] at hfailed
      refine .inl ⟨.inl ⟨hgeneration, hshutdown, hstop, .inr ⟨.inl ?_, hsilent⟩⟩, by simp⟩
      exact hfailed.resolve_right (by simp)
  | quit now failed hpc hquit =>
      obtain ⟨hfailed, hsilent⟩ := h.left (by simp [hpc, Pc.phase])
      rw [hpc] at hfailed
      obtain rfl : failed = true := hfailed.resolve_right (by simp)
      refine .inl ⟨.inl ⟨hgeneration, hshutdown, hstop, .inr ⟨.inr ⟨rfl, ?_⟩, hsilent⟩⟩, by simp⟩
      exact hquit.resolve_right (by simp)
  | announceTop now failed hpc hrole =>
      obtain ⟨hfailed, hsilent⟩ := h.left (by simp [hpc, Pc.phase])
      rw [hpc] at hfailed
      refine .inl ⟨.inl ⟨hgeneration, hshutdown, hstop, .inr ⟨.inl ?_, hsilent⟩⟩, by simp⟩
      have htrue := hfailed.resolve_left (by simp [Pc.failed])
      cases htrue.1
      rfl
  | announce now failed strategy hpc hrole =>
      obtain ⟨hfailed, -⟩ := h.left (by simp [hpc, Pc.phase])
      have htrue := hfailed.resolve_left (by simp [hpc, Pc.failed])
      rw [hrole] at htrue
      cases htrue.2
  | retStoppedTop failed hpc hrole =>
      refine .inl ⟨.inr ?_, by simp⟩
      simp [Settled, Answered, finish, hrole]
  | stopFailed now hpc hrole =>
      refine .inl ⟨.inr ?_, by simp⟩
      simp [Settled, Answered, GivenUp, hrole]
  | restart now m w tracker hpc hrole htrack haccepted =>
      cases htrack.symm.trans (htracker m w hrole)
      rw [RestartTracker.recordRestart_new, decide_eq_true_eq] at haccepted
      refine .inl ⟨.inr ?_, by simp⟩
      simp only [Settled, Answered, instantiate, hrole, haccepted, if_true]
      exact ⟨by simp [hgeneration], .inl rfl, hshutdown, hstop, Notify.silent_new⟩
  | exceeded now m w tracker hpc hrole htrack haccepted =>
      cases htrack.symm.trans (htracker m w hrole)
      rw [RestartTracker.recordRestart_new, decide_eq_false_iff_not] at haccepted
      refine .inl ⟨.inr ?_, by simp⟩
      simp [Settled, Answered, GivenUp, hrole, haccepted]
  | restartUntracked now m w hpc hrole htrack => cases htrack.symm.trans (htracker m w hrole)
  | escalateFailed now hpc hrole =>
      obtain ⟨-, hsilent⟩ := h.left (by simp [hpc, Pc.phase])
      exact .inr ⟨hrole, rfl, hsilent, rfl⟩
  | begin now strategy hpc => simp [hpc, Pc.phase, Pc.failed] at hstage
  | beginTop now hpc => simp [hpc, Pc.phase, Pc.failed] at hstage

theorem ended_step (h : a.pc = .ended) (hstep : Transition beh a i b events) :
    b.pc = .ended ∧ .escalate ∉ events := by
  cases hstep with
  | deliver | requestStop | shutdown | escalation | oldEscalation | watch | streamReady | spawn |
    addStream | adopt =>
      exact ⟨h, by simp⟩
  | panicElsewhere site hsite => simp [h, Pc.site] at hsite
  | _ => simp_all

theorem GivenUp.step (h : a.GivenUp) (hchild : a.role ≠ .topLevel)
    (hstep : Transition beh a i b events) : b.GivenUp ∧ .escalate ∉ events := by
  rcases h with h | h
  · cases hstep with
    | deliver | requestStop | shutdown | escalation | oldEscalation | watch | streamReady | spawn |
      addStream | adopt =>
        exact ⟨.inl h, by simp⟩
    | announce => exact ⟨.inr rfl, by simp⟩
    | announceTop now failed hpc hrole => exact absurd hrole hchild
    | panicElsewhere site hsite => simp [h, Pc.site] at hsite
    | _ => simp_all
  · exact (ended_step h hstep).imp_left .inr

theorem settled_iff : a.Settled ↔
    a.role = .topLevel ∧ a.pc = .ended ∨ a.role.GivesUp ∧ a.GivenUp ∨
      ∃ maxRestarts within, a.role = .child (.restart maxRestarts within) ∧ 0 < maxRestarts ∧
        a.Calm 1 := by
  unfold Settled
  cases hrole : a.role with
  | topLevel => simp [Answered, Role.GivesUp]
  | child strategy =>
      cases strategy with
      | stop => simp [Answered, Role.GivesUp]
      | escalate => simp [Answered, Role.GivesUp]
      | restart maxRestarts within =>
          by_cases hbudget : 0 < maxRestarts
          · simp [Answered, Role.GivesUp, hbudget]
          · simp [Answered, Role.GivesUp, hbudget]

theorem Settled.step (h : a.Settled) (hstep : Transition beh a i b events) (hi : i.Gentle 1) :
    b.Settled ∧ .escalate ∉ events := by
  rw [settled_iff] at h
  rw [settled_iff, role_of_transition hstep]
  rcases h with ⟨hrole, hended⟩ | ⟨hrole, hgiven⟩ | ⟨maxRestarts, within, hrole, hbudget, hcalm⟩
  · obtain ⟨hended, hescalate⟩ := ended_step hended hstep
    exact ⟨.inl ⟨hrole, hended⟩, hescalate⟩
  · have hchild : a.role ≠ .topLevel := fun htop ↦ by
      rw [htop] at hrole
      exact hrole
    obtain ⟨hgiven, hescalate⟩ := hgiven.step hchild hstep
    exact ⟨.inr (.inl ⟨hrole, hgiven⟩), hescalate⟩
  · obtain ⟨hcalm, hescalate, -⟩ := hcalm.step hstep hi
    exact ⟨.inr (.inr ⟨maxRestarts, within, hrole, hbudget, hcalm⟩), hescalate⟩

/-- What deliveries, watches and `spawn_child` change does not matter for `P`. -/
def Framed (P : Actor S M I → Prop) : Prop :=
  ∀ (a : Actor S M I) mailbox watchers adopting, P a →
    P { a with mailbox := mailbox, watchers := watchers, adopting := adopting }

theorem framed_calm (g : ℕ) : Framed (Calm (S := S) (M := M) (I := I) g) :=
  fun _ _ _ _ h ↦ ⟨h.generation, h.phase, h.shutdown, h.stop, h.escalate⟩

theorem framed_mild : Framed (Mild (S := S) (M := M) (I := I)) :=
  fun _ _ _ _ h ↦ ⟨h.generation, h.child, h.escalate, h.unfailed, h.not_dead⟩

theorem framed_failing : Framed (Failing (S := S) (M := M) (I := I)) :=
  fun _ _ _ _ h ↦ ⟨h.generation, h.shutdown, h.stop, h.stage⟩

theorem framed_settled : Framed (Settled (S := S) (M := M) (I := I)) := by
  intro a mailbox watchers adopting h
  rw [settled_iff] at h ⊢
  exact h.imp_right fun h ↦ h.imp_right fun ⟨maxRestarts, within, hrole, hbudget, hcalm⟩ ↦
    ⟨maxRestarts, within, hrole, hbudget, framed_calm 1 a mailbox watchers adopting hcalm⟩

/-! ## Facts about whole runs -/

theorem spawned_of_transition (hstep : Transition beh a i b events) (hb : b.pc = .spawned) :
    a.pc = .spawned ∧ b.generation = a.generation := by
  cases hstep with
  | deliver | requestStop | shutdown | escalation | oldEscalation | watch | streamReady | spawn |
    addStream | adopt =>
      exact ⟨hb, rfl⟩
  | shutdownTaken | stopTaken | escalateTaken | panicHandler =>
      unfold leave at hb
      simp only at hb
      split at hb <;> cases hb
  | _ => cases hb

/-- The restarts of a child with a budget: it has been restarted as often as its trace says, and has
its whole budget until it fails. -/
structure Budgeted (maxRestarts within : ℕ) (a : Actor S M I) (trace : List (Event S M I)) :
    Prop where
  role : a.role = .child (.restart maxRestarts within)
  unpolled : a.pc = .spawned → a.generation = 0
  tracked : a.tracker ≠ none
  unspent : a.generation = 0 → a.pc.phase ≠ .announcing → a.pc.alive = true →
    a.tracker = some (.new maxRestarts within)
  restarts : a.generation = trace.countP Event.isRestart

theorem Budgeted.step {maxRestarts within : ℕ} (h : Budgeted maxRestarts within a trace)
    (hstep : Transition beh a i b events) : Budgeted maxRestarts within b (trace ++ events) := by
  have hrole := (role_of_transition hstep).trans h.role
  have hunpolled : b.pc = .spawned → b.generation = 0 := fun hb ↦
    (spawned_of_transition hstep hb).2.trans (h.unpolled (spawned_of_transition hstep hb).1)
  have hrestarts : b.generation = a.generation + events.countP Event.isRestart →
      b.generation = (trace ++ events).countP Event.isRestart := fun hb ↦ by
    rw [List.countP_append, ← h.restarts, hb]
  cases hstep with
  | deliver | requestStop | shutdown | escalation | oldEscalation | watch | streamReady | spawn |
    addStream | adopt =>
      exact ⟨hrole, hunpolled, h.tracked, h.unspent, hrestarts rfl⟩
  | begin now strategy hpc =>
      refine ⟨hrole, hunpolled, h.tracked, fun _ _ _ ↦ h.unspent (h.unpolled hpc) ?_ ?_, ?_⟩
      · simp [hpc, Pc.phase]
      · rw [hpc]
        rfl
      · exact hrestarts (by rw [h.unpolled hpc]; rfl)
  | restart =>
      exact ⟨hrole, hunpolled, by simp [instantiate], fun hg ↦ absurd hg (by simp [instantiate]),
        hrestarts rfl⟩
  | restartUntracked now m w hpc _ htracker => exact absurd htracker h.tracked
  | exceeded =>
      exact ⟨hrole, hunpolled, by simp, fun _ hphase ↦ absurd rfl hphase, hrestarts rfl⟩
  | quit | stopFailed | escalateFailed =>
      exact ⟨hrole, hunpolled, h.tracked, fun _ hphase ↦ absurd rfl hphase, hrestarts rfl⟩
  | announce now failed strategy =>
      refine ⟨hrole, hunpolled, h.tracked, fun _ _ ↦ (by cases ·), hrestarts ?_⟩
      simp [finish, List.countP_map, Function.comp_def, Event.isRestart]
  | panicElsewhere =>
      exact ⟨hrole, hunpolled, h.tracked, fun _ _ ↦ (by cases ·), hrestarts rfl⟩
  | beginTop now hpc htop
  | announceTop now failed hpc htop
  | retStoppedTop failed hpc htop =>
      cases h.role.symm.trans htop
  | reap now failed hpc =>
      refine ⟨hrole, hunpolled, h.tracked, fun hg _ _ ↦ h.unspent hg ?_ ?_, hrestarts ?_⟩
      · simp [hpc, Pc.phase]
      · rw [hpc]
        rfl
      · simp [List.countP_map, Function.comp_def, Event.isRestart]
  | _ =>
      exact ⟨hrole, hunpolled, h.tracked,
        fun hg _ _ ↦ h.unspent hg (by simp [*, Pc.phase]) (by simp [*, Pc.alive]), hrestarts rfl⟩

theorem budgeted_of_run {maxRestarts within : ℕ}
    (hrun : run (traced (Actor.step beh))
      (spawned beh (.child (.restart maxRestarts within)) capacity, []) as = some (a, trace)) :
    Budgeted maxRestarts within a trace := by
  refine traced_history (P := fun _ ↦ Budgeted maxRestarts within) ?_ ?_ hrun
  · exact ⟨rfl, fun _ ↦ rfl, by simp [spawned, RestartTracker.ofStrategy], fun _ _ _ ↦ rfl, rfl⟩
  · intro _ t before i u events ht hstep
    exact ht.step (transition_of_step hstep)

theorem eq_of_escalation (hstep : Transition beh a (.escalation g) b events)
    (hg : g = a.generation) : b = { a with escalate := a.escalate.notifyOne } := by
  cases hstep with
  | escalation => rfl
  | oldEscalation n hn => exact absurd hg hn

theorem eq_of_panic (hstep : Transition beh a .panic b events)
    (hsite : a.pc.site = some .handler) : b = a.leave true ∧ events = [.panicked .handler] := by
  cases hstep with
  | panicHandler => exact ⟨rfl, rfl⟩
  | panicElsewhere site hsite' hne =>
      rw [hsite] at hsite'
      cases hsite'
      exact absurd rfl hne

theorem stopChild_of_transition (hstep : Transition beh a i b events)
    (hc : .stopChild c ∈ events) : c ∈ a.children := by
  cases hstep with
  | reap now failed hpc => simpa using hc
  | _ => simp at hc

end Actor

namespace Node

variable {n : Node S M I} {is : List (Input (Mail M) I)}

/-- What the inputs at hand preserve. -/
theorem takeAll_preserves_of {P : Actor S (Mail M) I → Prop}
    (hP : ∀ {beh a i b events}, i ∈ is → P a → Actor.Transition beh a i b events → P b)
    (h : P n.actor) : P (n.takeAll is).actor := by
  induction is generalizing n with
  | nil => exact h
  | cons i is ih =>
      refine ih (fun hi ↦ hP (List.mem_cons_of_mem _ hi)) (n := n.take i) ?_
      rcases take_cases n i with ⟨events, hfed⟩ | ⟨-, hnone⟩
      · exact hP (List.mem_cons_self ..) h hfed.transition
      · rwa [hnone]

variable {k j : ℕ} {origin : Option Origin} {events : List (Event S (Mail M) I)}

/-- Mail without signals. -/
theorem framed_mail {P : Actor S (Mail M) I → Prop} (hP : Actor.Framed P) (h : P n.actor)
    (hstop : .stopChild j ∉ events) (hescalate : .escalate ∉ events) :
    P (n.takeAll (mailFor k origin events j)).actor := by
  refine takeAll_preserves_of ?_ h
  intro beh a i b _ hi ha hstep
  obtain ⟨rfl, he⟩ | ⟨rfl, -⟩ | ⟨rfl, -⟩ | ⟨o, rfl, he, -⟩ := mem_mailFor hi
  · exact absurd he hstop
  · cases hstep
    exact hP a a.mailbox _ a.adopting ha
  · cases hstep
    exact hP a _ a.watchers a.adopting ha
  · exact absurd he hescalate

theorem mild_mail (h : n.actor.Mild) (hescalate : .escalate ∉ events) :
    (n.takeAll (mailFor k origin events j)).actor.Mild := by
  refine takeAll_preserves_of ?_ h
  intro beh a i b _ hi ha hstep
  obtain ⟨rfl, -⟩ | ⟨rfl, -⟩ | ⟨rfl, -⟩ | ⟨o, rfl, he, -⟩ := mem_mailFor hi
  · exact (ha.step hstep (by simp) (by simp)).1
  · exact (ha.step hstep (by simp) (by simp)).1
  · exact (ha.step hstep (by simp) (by simp)).1
  · exact absurd he hescalate

end Node

end Cineyma.Runtime
