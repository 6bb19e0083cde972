import Cineyma.Runtime.Mailbox

/-!
# Stop requests

A stop request is a permit of the actor's stop signal. It survives whatever branch its `select!`
takes and every restart, until the task takes it and leaves its loop for good. The permit is
taken only by a `select!` whose mailbox is empty.
-/

namespace Cineyma.Runtime

open StepSystem

variable {S M I : Type}

namespace Actor

variable {beh : Behaviour S M I} {a b : Actor S M I} {i : Input M I}
  {events trace : List (Event S M I)} {as : List (Input M I)} {role : Role} {capacity : ℕ}

/-! ## Quiescence -/

/-- The task waits in its `select!`, and polling it again would give nothing. -/
structure Idle (a : Actor S M I) : Prop where
  pc : a.pc = .selecting
  mailbox : a.mailbox = []
  streams : ∀ id ∈ a.streams, a.ready id = []
  shutdown : a.shutdown.poll.1 = false
  stop : a.stop.poll.1 = false
  escalate : a.escalate.poll.1 = false

/-- The task is over or has nothing to do. -/
def Quiet (a : Actor S M I) : Prop := a.pc.alive = true → a.Idle

def isQuiet (a : Actor S M I) : Bool :=
  match a.pc with
  | .selecting =>
      a.mailbox.isEmpty && a.streams.all (fun id ↦ (a.ready id).isEmpty) &&
        !a.shutdown.poll.1 && !a.stop.poll.1 && !a.escalate.poll.1
  | .ended | .dead => true
  | _ => false

theorem quiet_iff_isQuiet : a.Quiet ↔ a.isQuiet = true := by
  unfold Quiet isQuiet
  cases hpc : a.pc with
  | selecting =>
      simp only [Pc.alive, forall_const, Bool.and_eq_true, List.isEmpty_iff, List.all_eq_true,
        Bool.not_eq_true']
      constructor
      · rintro ⟨-, hmailbox, hstreams, hshutdown, hstop, hescalate⟩
        exact ⟨⟨⟨⟨hmailbox, hstreams⟩, hshutdown⟩, hstop⟩, hescalate⟩
      · rintro ⟨⟨⟨⟨hmailbox, hstreams⟩, hshutdown⟩, hstop⟩, hescalate⟩
        exact ⟨hpc, hmailbox, hstreams, hshutdown, hstop, hescalate⟩
  | ended | dead => simp [Pc.alive]
  | _ =>
      simp only [Pc.alive, forall_const, Bool.false_eq_true, iff_false]
      intro hidle
      cases hpc.symm.trans hidle.pc

/-! ## Leaving for good -/

/-- The loop is left, and no restart can follow. -/
def Leaving (a : Actor S M I) : Prop :=
  match a.pc with
  | .reaping failed | .stopping failed | .deciding failed =>
      failed = false ∨ ∀ maxRestarts within, a.role ≠ .child (.restart maxRestarts within)
  | .announcing _ => True
  | _ => False

theorem leaving_leave (a : Actor S M I) : (a.leave false).Leaving := by
  unfold leave Leaving
  cases a.role
  · trivial
  · exact .inl rfl

theorem Leaving.pc_ne_selecting (h : a.Leaving) : a.pc ≠ .selecting := by
  intro hpc
  rw [Leaving, hpc] at h
  exact h

theorem leaving_of_pc {failed : Bool}
    (hpc : a.pc = .reaping failed ∨ a.pc = .stopping failed ∨ a.pc = .deciding failed) :
    a.Leaving ↔
      failed = false ∨ ∀ maxRestarts within, a.role ≠ .child (.restart maxRestarts within) := by
  obtain hpc | hpc | hpc := hpc <;> rw [Leaving, hpc]

theorem Leaving.step (h : a.Leaving) (hstep : Transition beh a i b events) :
    b.Leaving ∨ b.pc.alive = false := by
  cases hstep with
  | deliver | requestStop | shutdown | escalation | oldEscalation | watch | streamReady | spawn |
    adopt | addStream =>
      exact .inl h
  | reap now failed hpc =>
      rw [leaving_of_pc (.inl hpc)] at h
      exact .inl h
  | retStopped failed strategy hpc =>
      rw [leaving_of_pc (.inr (.inl hpc))] at h
      exact .inl h
  | restart now maxRestarts within tracker hpc hrole
  | restartUntracked now maxRestarts within hpc hrole =>
      rw [leaving_of_pc (.inr (.inr hpc))] at h
      exact absurd hrole (h.resolve_left (by simp) maxRestarts within)
  | quit | stopFailed | exceeded | escalateFailed => exact .inl trivial
  | announce | retStoppedTop | panicElsewhere => exact .inr rfl
  | announceTop now failed hpc hrole => exact .inl (.inr (by simp [hrole]))
  | _ => simp_all [Leaving]

/-! ## A request is never lost -/

/-- The request waits, or the task has heeded it, or the task is over. -/
def Stopping (a : Actor S M I) : Prop :=
  a.stop.Requested ∨ a.Leaving ∨ a.pc.alive = false

theorem requested_step (h : a.stop.Requested) (hstep : Transition beh a i b events) :
    b.Stopping := by
  have hready : a.stop.poll.1 ≠ false := fun hpoll ↦
    ((Notify.poll_fst_eq_false_iff a.stop).mp hpoll).1 h
  cases hstep with
  | requestStop => exact .inl (Notify.requested_notifyOne a.stop)
  | select => exact .inl h.notified
  | take | streamsReady => exact .inl h.drop
  | shutdownTaken | stopTaken => exact .inr (.inl (leaving_leave _))
  | escalateTaken now kept hpc hshutdown hstop => exact absurd hstop hready
  | pending now kept hpc hshutdown hstop => exact absurd hstop hready
  | panicElsewhere => exact .inr (.inr rfl)
  | _ => exact .inl h

theorem alive_of_transition (hstep : Transition beh a i b events) (hb : b.pc.alive = true) :
    a.pc.alive = true := by
  rcases mailbox_of_transition hstep with ⟨m, -, -, halive, -⟩ | ⟨m, -, -, hpc, -⟩ | ⟨-, -, hkeep⟩
  · exact halive
  · rw [hpc]
    rfl
  · exact (hkeep hb).1

theorem Stopping.step (h : a.Stopping) (hstep : Transition beh a i b events) : b.Stopping := by
  obtain hrequested | hleaving | hover := h
  · exact requested_step hrequested hstep
  · exact .inr (hleaving.step hstep)
  · refine .inr (.inr ?_)
    by_contra hb
    rw [Bool.not_eq_false] at hb
    rw [alive_of_transition hstep hb] at hover
    cases hover

theorem Stopping.of_quiet (h : a.Stopping) (hquiet : a.Quiet) : a.pc.alive = false := by
  by_contra halive
  rw [Bool.not_eq_false] at halive
  have hidle := hquiet halive
  obtain hrequested | hleaving | hover := h
  · exact ((Notify.poll_fst_eq_false_iff a.stop).mp hidle.stop).1 hrequested
  · exact hleaving.pc_ne_selecting hidle.pc
  · rw [halive] at hover
    cases hover

/-! ## Whole runs -/

theorem stopping_of_run
    (hrun : run (traced (step beh)) (spawned beh role capacity, []) as = some (a, trace))
    (hstop : .requestStop ∈ as) : a.Stopping := by
  refine traced_history (P := fun as a _ ↦ .requestStop ∈ as → a.Stopping) (by simp) ?_ hrun hstop
  intro as t before i u events ht hstep hstop
  rcases List.mem_append.mp hstop with hearlier | hnow
  · exact (ht hearlier).step (transition_of_step hstep)
  · obtain rfl := List.mem_singleton.mp hnow
    cases hstep
    exact .inl (Notify.requested_notifyOne t.stop)

/-- A task is unwound by a panic outside the message handlers only. -/
theorem not_dead_of_run
    (hrun : run (traced (step beh)) (spawned beh role capacity, []) as = some (a, trace))
    (hpanics : ∀ site, .panicked site ∈ trace → site = .handler) : a.pc ≠ .dead := by
  refine traced_history (P := fun _ a trace ↦
    (∀ site, .panicked site ∈ trace → site = .handler) → a.pc ≠ .dead) (by simp [spawned]) ?_
    hrun hpanics
  intro as t before i u events ht hstep hpanics hdead
  have ht := ht fun site h ↦ hpanics site (List.mem_append_left events h)
  cases transition_of_step hstep with
  | deliver | requestStop | shutdown | escalation | oldEscalation | watch | streamReady | spawn |
    adopt | addStream =>
      exact ht hdead
  | shutdownTaken | stopTaken | escalateTaken | panicHandler =>
      unfold leave at hdead
      cases hrole : t.role <;> simp_all [dropFutures]
  | panicElsewhere site hsite hne =>
      exact hne (hpanics site (List.mem_append_right before (List.mem_singleton_self _)))
  | _ => cases hdead

/-- The next poll takes the stop request. -/
def TakesStop (a : Actor S M I) : Prop :=
  ∃ kept, a.pc = .polling [] kept false ∧ a.shutdown.poll.1 = false ∧ a.stop.poll.1 = true

/-- A biased `select!` comes to its signals with an empty mailbox only. -/
def Biased (s : Actor S M I × List (Event S M I)) (i : Input M I) : Prop :=
  ∀ now kept, i = .poll now → s.1.pc = .polling [] kept false → s.1.mailbox = []

/-- In every quiescent state after a stop request the actor has ended, and when the task takes the
request, every message accepted before the request has been handed to a handler. -/
theorem stop_request_heeded
    (hrun : run (traced (step beh)) (spawned beh role capacity, []) as = some (a, trace))
    (hpanics : ∀ site, .panicked site ∈ trace → site = .handler) :
    (.requestStop ∈ as → a.Quiet → a.pc = .ended) ∧
      (Along (traced (step beh)) Biased (spawned beh role capacity, []) as →
        ∀ pre mid now post t story, as = (pre ++ .requestStop :: mid) ++ .poll now :: post →
          run (traced (step beh)) (spawned beh role capacity, []) (pre ++ .requestStop :: mid) =
            some (t, story) → t.TakesStop → accepted pre <+: handed story) := by
  refine ⟨fun hstop hquiet ↦ ?_, fun hbiased ↦ ?_⟩
  · have hover := (stopping_of_run hrun hstop).of_quiet hquiet
    have hdead := not_dead_of_run hrun hpanics
    cases hpc : a.pc <;> simp_all [Pc.alive]
  · rintro pre mid now post t story rfl hbefore ⟨kept, hpc, -, -⟩
    have hmailbox : t.mailbox = [] := by
      refine hbiased (pre ++ .requestStop :: mid) (.poll now) (t, story) ?_ hbefore now kept rfl hpc
      exact (List.prefix_append_right_inj _).mpr (by simp)
    have hqueue := (inOrder_of_run hbefore).queue (by rw [hpc]; rfl)
    rw [hmailbox, List.append_nil] at hqueue
    rw [← hqueue, accepted, accepted, List.filterMap_append]
    exact List.prefix_append _ _

def checkBiased (s : Actor S M I × List (Event S M I)) : Input M I → Bool
  | .poll _ => match s.1.pc with
    | .polling [] _ false => s.1.mailbox.isEmpty
    | _ => true
  | _ => true

theorem biased_of_check {s : Actor S M I × List (Event S M I)} (h : checkBiased s i = true) :
    Biased s i := by
  rintro now kept rfl hpc
  simpa [checkBiased, hpc] using h

/-- A message and a stop request reach a top-level actor that is inside `started`. -/
def stopInputs : List (Input ℕ ℕ) :=
  [.poll 0, .deliver 7, .requestStop, .ret, .poll 0, .poll 0, .ret, .poll 0, .poll 0, .poll 0,
    .poll 0, .poll 0, .ret]

theorem early_stop_heeded :
    ∃ a trace t story,
      run (traced (step journal)) (spawned journal .topLevel 4, []) stopInputs =
        some (a, trace) ∧ a.pc = .ended ∧
      run (traced (step journal)) (spawned journal .topLevel 4, []) (stopInputs.take 9) =
        some (t, story) ∧ t.TakesStop ∧ [7] <+: handed story := by
  have hend : (run (traced (step journal)) (spawned journal .topLevel 4, []) stopInputs).map
      (fun s ↦ (s.1.pc, s.2)) =
      some (.ended, [.started, .handed 7 [0], .handled 7, .stopped]) := by
    decide +kernel
  have hmid : (run (traced (step journal)) (spawned journal .topLevel 4, [])
      (stopInputs.take 9)).map (fun s ↦ (s.1.pc, s.1.shutdown.poll.1, s.1.stop.poll.1)) =
      some (.polling [] [] false, false, true) := by
    decide +kernel
  obtain ⟨⟨a, trace⟩, hrun, hend⟩ := Option.map_eq_some_iff.mp hend
  obtain ⟨⟨t, story⟩, hbefore, hmid⟩ := Option.map_eq_some_iff.mp hmid
  simp only [Prod.mk.injEq] at hend hmid
  have hbiased : Along (traced (step journal)) Biased (spawned journal .topLevel 4, [])
      stopInputs :=
    Along.of_check (q := checkBiased) (fun _ _ ↦ biased_of_check) (by decide +kernel)
  have h := stop_request_heeded hrun (by simp [hend.2])
  have htakes : t.TakesStop := ⟨[], hmid⟩
  refine ⟨a, trace, t, story, hrun, h.1 (by simp [stopInputs]) ?_, hbefore, htakes, ?_⟩
  · simp [Quiet, hend.1, Pc.alive]
  · exact h.2 hbiased [.poll 0, .deliver 7] [.ret, .poll 0, .poll 0, .ret, .poll 0, .poll 0] 0
      [.poll 0, .poll 0, .ret] t story rfl hbefore htakes

end Actor

end Cineyma.Runtime
