import Cineyma.Runtime.Family

/-!
# Shutting the system down

`ActorSystem::shutdown` is a `notify_waiters`. It wakes the `select!`s that wait for it at that
moment and is forgotten otherwise, also when another branch of a woken `select!` is taken first. An
actor that hears it leaves its loop and stops its children.
-/

namespace Cineyma.Runtime

open StepSystem

variable {S M I : Type}

/-- The futures of the `select!` exist and will be polled down to the signals. -/
def Pc.inSelect : Pc M I → Bool
  | .selecting | .polling _ _ false | .finishing _ _ false => true
  | _ => false

namespace Actor

variable {beh : Behaviour S M I} {a b : Actor S M I} {i : Input M I} {events : List (Event S M I)}

/-- A `notify_waiters` would wake the `select!`. -/
def Listening (a : Actor S M I) : Prop :=
  a.pc.inSelect = true ∧ (a.shutdown.waiter = .created ∨ a.shutdown.waiter = .waiting)

/-- A `notify_waiters` has woken it. -/
def Called (a : Actor S M I) : Prop := a.pc.inSelect = true ∧ a.shutdown.waiter = .all

/-- No branch before the signals is ready. -/
def Unhindered (a : Actor S M I) : Prop :=
  (a.pc = .selecting → a.mailbox = []) ∧
    ∀ id todo kept any x rest, a.pc = .polling (id :: todo) kept any → a.ready id ≠ some x :: rest

theorem Called.not_idle (h : a.Called) : ¬ a.Idle := fun hidle ↦
  ((Notify.poll_fst_eq_false_iff a.shutdown).mp hidle.shutdown).2 h.2

theorem Listening.called (h : a.Listening) :
    Called { a with shutdown := a.shutdown.notifyWaiters } := by
  refine ⟨h.1, ?_⟩
  simp [Notify.notifyWaiters, h.2]

theorem Called.step (h : a.Called) (hstep : Transition beh a i b events)
    (hfree : ∀ now, i = .poll now → a.Unhindered) : b.Called ∨ b.Stopping := by
  obtain ⟨hpc, hall⟩ := h
  have hready : a.shutdown.poll.1 ≠ false := fun hpoll ↦
    ((Notify.poll_fst_eq_false_iff a.shutdown).mp hpoll).2 hall
  cases hstep with
  | deliver | requestStop | escalation | oldEscalation | watch | streamReady | spawn | adopt |
    addStream =>
      exact .inl ⟨hpc, hall⟩
  | shutdown => exact .inl ⟨hpc, by simp [Notify.notifyWaiters, hall]⟩
  | take now m rest hselect hmailbox =>
      rw [(hfree now rfl).1 hselect] at hmailbox
      cases hmailbox
  | pollStreams => exact .inl ⟨rfl, hall⟩
  | streamItem now id todo kept any x rest hpolling hx =>
      exact absurd hx ((hfree now rfl).2 id todo kept any x rest hpolling)
  | streamPending now id todo kept any hpolling | streamEnd now id todo kept any rest hpolling
  | retFinished todo kept any hpolling =>
      rw [hpolling] at hpc
      cases any
      · exact .inl ⟨rfl, hall⟩
      · cases hpc
  | shutdownTaken => exact .inr (.inr (.inl (leaving_leave _)))
  | stopTaken now kept hpolling hshutdown | escalateTaken now kept hpolling hshutdown
  | pending now kept hpolling hshutdown =>
      exact absurd hshutdown hready
  | panicElsewhere => exact .inr (.inr (.inr rfl))
  | _ => simp_all [Pc.inSelect]

/-- Only a panic outside the message handlers unwinds a task. -/
theorem panic_of_dead (hstep : Transition beh a i b events) (ha : a.pc ≠ .dead)
    (hb : b.pc = .dead) : i = .panic ∧ a.pc.site ≠ some .handler := by
  cases hstep with
  | deliver | requestStop | shutdown | escalation | oldEscalation | watch | streamReady | spawn |
    adopt | addStream =>
      exact absurd hb ha
  | shutdownTaken | stopTaken | escalateTaken | panicHandler =>
      exact absurd hb (leave_pc_ne_dead _ _)
  | panicElsewhere site hsite hne => exact ⟨rfl, by simpa [hsite] using hne⟩
  | _ => cases hb

end Actor

theorem Node.Nudged.called {n n' : Node S M I} (hn : Node.Nudged n n') (h : n.actor.Called) :
    n'.actor.Called := by
  rw [Actor.Called, hn.pc, hn.shutdown]
  exact h

theorem Change.panic_of_dead {s : System S M I} {j : ℕ} {n n' : Node S M I} {a : Action S M I}
    (h : Change s j n a n') (hn : n.actor.pc ≠ .dead) (hn' : n'.actor.pc = .dead) :
    a = .act j .panic ∧ n.actor.pc.site ≠ some .handler := by
  cases h with
  | same => exact absurd hn' hn
  | touched k i nk m events hne hk hown hfed =>
      rw [(Node.nudged_mail ..).pc] at hn'
      exact absurd hn' hn
  | acted i m events hown hfed =>
      rw [(Node.nudged_mail ..).pc] at hn'
      obtain ⟨rfl, hsite⟩ := Actor.panic_of_dead hfed.transition hn hn'
      exact ⟨rfl, hsite⟩
  | spawning beh strategy capacity m events hfed =>
      cases (Actor.panic_of_dead hfed.transition hn hn').1
  | called m hfed => cases (Actor.panic_of_dead hfed.transition hn hn').1

namespace System

variable {s t u : System S M I} {a : Action S M I} {as : List (Action S M I)} {c : ℕ}
  {n n' : Node S M I}

/-- The instance that spawned `n` at place `c` will signal it. -/
def Guarded (s : System S M I) (c : ℕ) (n : Node S M I) : Prop :=
  ∃ o p, n.origin = some o ∧ s[o.parent]? = some p ∧ p.Attached o.generation c

/-- Every living actor is about to stop, or would hear a call, or has a parent that will signal
it. -/
def AllListen (s : System S M I) : Prop :=
  ∀ (c : ℕ) (n : Node S M I), s[c]? = some n → n.actor.pc.alive = true →
    n.actor.Stopping ∨ n.actor.Listening ∨ s.Guarded c n

/-- The step is no panic outside the message handlers, and if it polls a `select!` that was woken,
no other branch is ready there, unless the actor is to be stopped anyway. -/
def Prompt (s : System S M I) (a : Action S M I) : Prop :=
  ∀ k i n, a = .act k i → s[k]? = some n →
    (i = .panic → n.actor.pc.site = some .handler) ∧
      ∀ now, i = .poll now → n.actor.Called →
        n.actor.Stopping ∨ s.Guarded k n ∨ n.actor.Unhindered

/-- The actor at place `c` will end. -/
def Doomed (s : System S M I) (c : ℕ) (n : Node S M I) : Prop :=
  n.actor.Stopping ∨ n.actor.Called ∨ s.Guarded c n

theorem Guarded.step (h : s.Guarded c n) (hkin : s.Kin) (hstep : step s a = some t)
    (hn : s[c]? = some n) (hchange : Change s c n a n') (hprompt : s.Prompt a) :
    n'.actor.Stopping ∨ t.Guarded c n' := by
  obtain ⟨o, p, ho, hp, hattached⟩ := h
  obtain ⟨p', hp', hparent⟩ := change_of_step hstep hp
  have hne : o.parent ≠ c := (hkin c n o hn ho).1.ne
  rcases attached_step hne hp hparent hchange hattached with h | hrequest | hdead
  · exact .inr ⟨o, p', hchange.origin.trans ho, hp', h⟩
  · exact .inl (Actor.stopping_of_run n'.reached hrequest)
  · have halive : p.actor.pc ≠ .dead := fun h ↦ by
      have := hattached.beforeStop.alive
      rw [h] at this
      cases this
    obtain ⟨rfl, hsite⟩ := hparent.panic_of_dead halive hdead
    exact absurd ((hprompt o.parent .panic p rfl hp).1 rfl) hsite

theorem Doomed.step (h : s.Doomed c n) (hkin : s.Kin) (hstep : step s a = some t)
    (hn : s[c]? = some n) (hchange : Change s c n a n') (hprompt : s.Prompt a) :
    t.Doomed c n' := by
  have hstopping (h : n.actor.Stopping) : n'.actor.Stopping :=
    hchange.preserves (fun h hstep ↦ h.step hstep) h
  have hguarded (h : s.Guarded c n) : t.Doomed c n' :=
    (h.step hkin hstep hn hchange hprompt).imp_right .inr
  obtain h | hcalled | h := h
  · exact .inl (hstopping h)
  · cases hchange with
    | same => exact .inr (.inl hcalled)
    | touched k i nk m events hne hk hown hfed =>
        exact .inr (.inl ((Node.nudged_mail ..).called hcalled))
    | spawning beh strategy capacity m events hfed =>
        rcases hcalled.step hfed.transition (by simp) with h | h
        · exact .inr (.inl h)
        · exact .inl h
    | called m hfed =>
        rcases hcalled.step hfed.transition (by simp) with h | h
        · exact .inr (.inl h)
        · exact .inl h
    | acted i m events hown hfed =>
        by_cases hfree : ∀ now, i = .poll now → n.actor.Unhindered
        · rcases hcalled.step hfed.transition hfree with h | h
          · exact .inr (.inl ((Node.nudged_mail ..).called h))
          · exact .inl (Node.takeAll_preserves (fun h hstep ↦ h.step hstep) h)
        · simp only [not_forall] at hfree
          obtain ⟨now, rfl, hnot⟩ := hfree
          rcases (hprompt c _ n rfl hn).2 now rfl hcalled with h | h | h
          · exact .inl (hstopping h)
          · exact hguarded h
          · exact absurd h hnot
  · exact hguarded h

/-- The call itself. -/
theorem doomed_of_call (hkin : s.Kin) (hlisten : s.AllListen) (hstep : step s .shutdown = some t)
    (hn : s[c]? = some n) : ∃ n', t[c]? = some n' ∧ t.Doomed c n' := by
  obtain ⟨n', hn', hchange⟩ := change_of_step hstep hn
  refine ⟨n', hn', ?_⟩
  have hdoomed (h : s.Doomed c n) : t.Doomed c n' :=
    h.step hkin hstep hn hchange (by simp [Prompt])
  cases halive : n.actor.pc.alive with
  | false => exact hdoomed (.inl (.inr (.inr halive)))
  | true =>
      obtain h | hlistening | h := hlisten c n hn halive
      · exact hdoomed (.inl h)
      · cases hchange with
        | same a ha hs => exact absurd rfl hs
        | called m hfed =>
            refine .inr (.inl ?_)
            rw [(Actor.eq_of_shutdown hfed.transition).2]
            exact hlistening.called
      · exact hdoomed (.inr (.inr h))

/-- In a quiescent system the doomed actors have ended: the oldest living one would not be quiet. -/
theorem Quiescent.ended_of_doomed {N : ℕ} (hquiet : s.Quiescent) (hkin : s.Kin)
    (hdoomed : ∀ c < N, ∃ n, s[c]? = some n ∧ s.Doomed c n) :
    ∀ c < N, ∀ n, s[c]? = some n → n.actor.pc.alive = false := by
  intro c
  induction c using Nat.strong_induction_on with
  | _ c ih =>
      intro hc n hn
      obtain ⟨n', hn', hdoom⟩ := hdoomed c hc
      cases hn.symm.trans hn'
      have hq : n.actor.Quiet := hquiet n (List.mem_of_getElem? hn)
      obtain hstopping | hcalled | ⟨o, p, ho, hp, hattached⟩ := hdoom
      · exact hstopping.of_quiet hq
      · by_contra halive
        exact hcalled.not_idle (hq (by simpa using halive))
      · have hlt : o.parent < c := (hkin c n o hn ho).1
        have hover := ih o.parent hlt (hlt.trans hc) p hp
        rw [hattached.beforeStop.alive] at hover
        cases hover

/-- In every run in which all living actors listen when `shutdown` is called and all steps after the
call are prompt, every actor that was spawned before the call has ended in every quiescent state
after it. -/
theorem ended_after_shutdown {pre post : List (Action S M I)} (hpre : run step [] pre = some s)
    (hlisten : s.AllListen) (hcall : step s .shutdown = some t) (hprompt : Along step Prompt t post)
    (hpost : run step t post = some u) (hquiet : u.Quiescent) :
    ∀ c < s.length, ∀ n, u[c]? = some n → n.actor.pc.alive = false := by
  have hkin := kin_of_run hpre
  have hstart : ∀ c < s.length, ∃ n, t[c]? = some n ∧ t.Doomed c n := fun c hc ↦
    doomed_of_call hkin hlisten hcall (List.getElem?_eq_getElem hc)
  have hinv := Along.invariant (P := fun w : System S M I ↦
      w.Kin ∧ ∀ c < s.length, ∃ n, w[c]? = some n ∧ w.Doomed c n) ?_
    ⟨hkin.step hcall, hstart⟩ hprompt hpost
  · exact hquiet.ended_of_doomed hinv.1 hinv.2
  · rintro w a w' ⟨hkin, hdoomed⟩ hprompt hstep
    refine ⟨hkin.step hstep, fun c hc ↦ ?_⟩
    obtain ⟨n, hn, hdoom⟩ := hdoomed c hc
    obtain ⟨n', hn', hchange⟩ := change_of_step hstep hn
    exact ⟨n', hn', hdoom.step hkin hstep hn hchange hprompt⟩

def checkPrompt (s : System S M I) : Action S M I → Bool
  | .act k .panic => s[k]?.all fun n ↦ n.actor.pc.site = some .handler
  | .act k (.poll _) => s[k]?.all fun n ↦
      match n.actor.pc with
      | .selecting => n.actor.mailbox.isEmpty
      | .polling (id :: _) _ _ =>
          match n.actor.ready id with
          | some _ :: _ => false
          | _ => true
      | _ => true
  | _ => true

theorem prompt_of_check (h : s.checkPrompt a = true) : s.Prompt a := by
  rintro k i n rfl hn
  constructor
  · rintro rfl
    simpa [checkPrompt, hn] using h
  · rintro now rfl -
    refine .inr (.inr ⟨fun hpc ↦ ?_, fun id todo kept any x rest hpc hready ↦ ?_⟩)
    · simpa [checkPrompt, hn, hpc] using h
    · simp [checkPrompt, hn, hpc, hready] at h

/-- A top-level actor that has come to wait in its `select!`. -/
def waitingActions : List (Action Unit ℕ ℕ) :=
  [.spawn idle 4, .act 0 (.poll 0), .act 0 .ret, .act 0 (.poll 0), .act 0 (.poll 0),
    .act 0 (.poll 0)]

/-- What the actor does after the call. -/
def leavingActions : List (Action Unit ℕ ℕ) :=
  [.act 0 (.poll 1), .act 0 (.poll 1), .act 0 (.poll 1), .act 0 (.poll 1), .act 0 .ret]

theorem waiting_actor_ends :
    ∃ s t u : System Unit ℕ ℕ, run step [] waitingActions = some s ∧
      step s .shutdown = some t ∧ run step t leavingActions = some u ∧ u.Quiescent ∧
      s.length = 1 ∧ ∀ c < s.length, ∀ n, u[c]? = some n → n.actor.pc.alive = false := by
  have hpcs : (run step ([] : System Unit ℕ ℕ) waitingActions).map
      (fun s ↦ s.map fun n ↦ (n.actor.pc, n.actor.shutdown)) =
      some [(.selecting, ⟨false, .waiting⟩)] := by
    decide +kernel
  have hend : (((run step ([] : System Unit ℕ ℕ) waitingActions).bind (step · .shutdown)).bind
      (run step · leavingActions)).map (fun s ↦ s.map fun n ↦ n.actor.pc) = some [.ended] := by
    decide +kernel
  obtain ⟨s, hrun, hpcs⟩ := Option.map_eq_some_iff.mp hpcs
  obtain ⟨n, rest, rfl, hn, hrest⟩ := List.map_eq_cons_iff.mp hpcs
  obtain rfl := List.map_eq_nil_iff.mp hrest
  simp only [Prod.mk.injEq] at hn
  obtain ⟨u, hu, hend⟩ := Option.map_eq_some_iff.mp hend
  obtain ⟨t, ht, hu⟩ := Option.bind_eq_some_iff.mp hu
  rw [hrun, Option.bind_some] at ht
  have hquiet : u.Quiescent := by
    intro m hm halive
    have hmem := List.mem_map_of_mem (f := fun n ↦ n.actor.pc) hm
    rw [hend, List.mem_singleton] at hmem
    rw [hmem] at halive
    cases halive
  have hlisten : AllListen [n] := by
    intro c m hm halive
    rw [List.getElem?_singleton] at hm
    split at hm <;> cases hm
    exact .inr (.inl ⟨by rw [hn.1]; rfl, .inr (by rw [hn.2])⟩)
  have hprompt : Along step Prompt t leavingActions := by
    refine Along.of_check (q := checkPrompt) (fun _ _ ↦ prompt_of_check) ?_
    have hcheck : ((run step ([] : System Unit ℕ ℕ) waitingActions).bind
        (step · .shutdown)).map (checkAlong step checkPrompt · leavingActions) = some true := by
      decide +kernel
    rw [hrun, Option.bind_some, ht, Option.map_some, Option.some_inj] at hcheck
    exact hcheck
  exact ⟨[n], t, u, hrun, ht, hu, hquiet, rfl,
    ended_after_shutdown hrun hlisten ht hprompt hu hquiet⟩

/-- The call comes before the actor is polled for the first time. -/
def missedCallActions : List (Action Unit ℕ ℕ) :=
  [.spawn idle 4, .shutdown, .act 0 (.poll 0), .act 0 .ret, .act 0 (.poll 0), .act 0 (.poll 0),
    .act 0 (.poll 0)]

theorem missed_call_leaves_actor_alive :
    ∃ (u : System Unit ℕ ℕ) (n : Node Unit ℕ ℕ), run step [] missedCallActions = some u ∧
      u.Quiescent ∧ u[0]? = some n ∧ n.actor.pc.alive = true := by
  have hpcs : (run step ([] : System Unit ℕ ℕ) missedCallActions).map
      (fun s ↦ s.map fun n ↦ (n.actor.pc, n.actor.isQuiet)) = some [(.selecting, true)] := by
    decide +kernel
  obtain ⟨s, hrun, hpcs⟩ := Option.map_eq_some_iff.mp hpcs
  obtain ⟨n, rest, rfl, hn, hrest⟩ := List.map_eq_cons_iff.mp hpcs
  obtain rfl := List.map_eq_nil_iff.mp hrest
  simp only [Prod.mk.injEq] at hn
  refine ⟨[n], n, hrun, ?_, rfl, by rw [hn.1]; rfl⟩
  simp [Quiescent, Actor.quiet_iff_isQuiet, hn.2]

end System

end Cineyma.Runtime
