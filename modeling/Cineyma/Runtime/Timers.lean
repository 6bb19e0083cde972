import Cineyma.Runtime.Mailbox

/-!
# Timers

`run_later` and `run_interval` spawn a task that sleeps, looks at the flag of its `TimerHandle` and
sends the message with `do_send`. The flag is looked at before the send, which may wait for room,
and the message may wait in the mailbox: a timer that is cancelled in between fires all the same.
Any number of timers run beside the task of the actor here.
-/

namespace Cineyma.Runtime

open StepSystem

variable {S M I : Type}

/-! ## The model -/

/-- A message, and the timer that sent it if it was one. -/
structure Timed (M : Type) where
  msg : M
  timer : Option ℕ
  deriving DecidableEq

inductive TimerKind where
  | later (delay : ℕ)
  | interval (period : ℕ)
  deriving DecidableEq

/-- Where the task of a timer is: `woken` is before the look at the flag, and `sending` after it, in
`do_send`. -/
inductive TimerPc where
  | spawned
  | sleeping
  | woken
  | sending
  | over
  deriving DecidableEq

structure Timer (M : Type) where
  kind : TimerKind
  msg : M
  cancelled : Bool
  deadline : ℕ
  pc : TimerPc
  deriving DecidableEq

namespace Timer

def new (kind : TimerKind) (msg : M) : Timer M := ⟨kind, msg, false, 0, .spawned⟩

/-- The first poll of the task creates the `sleep` or the `interval`, whose first tick is due at
once. -/
def start (t : Timer M) (now : ℕ) : Option (Timer M) :=
  match t.pc with
  | .spawned =>
      match t.kind with
      | .later delay => some { t with deadline := now + delay, pc := .sleeping }
      | .interval period =>
          -- `tokio::time::interval` panics on a period of zero
          if period = 0 then some { t with pc := .over }
          else some { t with deadline := now, pc := .sleeping }
  | _ => none

/-- The deadline has come. An interval ends when the actor is no longer alive. -/
def wake (t : Timer M) (now : ℕ) (alive : Bool) : Option (Timer M) :=
  if t.pc = .sleeping ∧ t.deadline ≤ now then
    match t.kind with
    | .later _ => some { t with pc := .woken }
    | .interval _ => some { t with pc := if alive then .woken else .over }
  else none

/-- The look at the flag. -/
def check (t : Timer M) : Option (Timer M) :=
  match t.pc with
  | .woken => some { t with pc := if t.cancelled then .over else .sending }
  | _ => none

/-- `do_send` has returned, and its result is ignored. -/
def sent (t : Timer M) : Timer M :=
  match t.kind with
  | .later _ => { t with pc := .over }
  | .interval period => { t with deadline := t.deadline + period, pc := .sleeping }

end Timer

/-- `runLater` and `runInterval` are calls of the user's code, `cancel` is made by anybody who has
the handle, the next four are steps of the task of a timer, and `actor` is anything else that
happens to the actor. -/
inductive TimerAction (M I : Type) where
  | runLater (delay : ℕ) (m : M)
  | runInterval (period : ℕ) (m : M)
  | cancel (k : ℕ)
  | start (k now : ℕ)
  | wake (k now : ℕ)
  | check (k : ℕ)
  | send (k : ℕ)
  | actor (i : Input (Timed M) I)

structure Timers (S M I : Type) where
  actor : Actor S (Timed M) I
  timers : List (Timer M)

namespace Timers

def spawned (beh : Behaviour S (Timed M) I) (role : Role) (capacity : ℕ) : Timers S M I where
  actor := .spawned beh role capacity
  timers := []

/-- The user's code creates a timer. -/
def create (s : Timers S M I) (t : Timer M) :
    Option (Timers S M I × List (Event S (Timed M) I)) :=
  if s.actor.pc.site.isSome ∧ s.actor.adopting = none then
    some ({ s with timers := s.timers ++ [t] }, [])
  else none

/-- A step of the timer `k` that concerns nobody else. -/
def update (s : Timers S M I) (k : ℕ) (f : Timer M → Option (Timer M)) :
    Option (Timers S M I × List (Event S (Timed M) I)) :=
  match s.timers[k]? with
  | some t => (f t).map fun t' ↦ ({ s with timers := s.timers.set k t' }, [])
  | none => none

/-- A message of a timer comes from the timer only. -/
def internal : Input (Timed M) I → Bool
  | .deliver m => m.timer.isNone
  | _ => true

def step (beh : Behaviour S (Timed M) I) (s : Timers S M I) :
    TimerAction M I → Option (Timers S M I × List (Event S (Timed M) I))
  | .runLater delay m => s.create (.new (.later delay) m)
  | .runInterval period m => s.create (.new (.interval period) m)
  | .cancel k => s.update k fun t ↦ some { t with cancelled := true }
  | .start k now => s.update k fun t ↦ t.start now
  | .wake k now => s.update k fun t ↦ t.wake now s.actor.pc.alive
  | .check k => s.update k Timer.check
  | .send k =>
      match s.timers[k]? with
      | some t =>
          if t.pc = .sending then
            if s.actor.pc.alive then
              (Actor.step beh s.actor (.deliver ⟨t.msg, some k⟩)).map fun (b, events) ↦
                ({ actor := b, timers := s.timers.set k t.sent }, events)
            else some ({ s with timers := s.timers.set k t.sent }, [])
          else none
      | none => none
  | .actor i =>
      if internal i then
        (Actor.step beh s.actor i).map fun (b, events) ↦ ({ s with actor := b }, events)
      else none

end Timers

/-! ## Timers that are silent -/

/-- The timer has been cancelled, and its task is not past the look at the flag. -/
def Timer.Stopped (t : Timer M) : Prop := t.cancelled = true ∧ t.pc ≠ .sending

namespace Timer.Stopped

variable {t t' : Timer M}

theorem start {now : ℕ} (h : t.Stopped) (hstart : t.start now = some t') : t'.Stopped := by
  unfold Timer.start at hstart
  split at hstart
  · split at hstart
    · cases hstart
      exact ⟨h.1, by simp⟩
    · split at hstart <;> cases hstart <;> exact ⟨h.1, by simp⟩
  · cases hstart

theorem wake {now : ℕ} {alive : Bool} (h : t.Stopped) (hwake : t.wake now alive = some t') :
    t'.Stopped := by
  unfold Timer.wake at hwake
  split at hwake
  · split at hwake <;> cases hwake
    · exact ⟨h.1, by simp⟩
    · exact ⟨h.1, by cases alive <;> simp⟩
  · cases hwake

theorem check (h : t.Stopped) (hcheck : t.check = some t') : t'.Stopped := by
  unfold Timer.check at hcheck
  split at hcheck
  · cases hcheck
    exact ⟨h.1, by simp [h.1]⟩
  · cases hcheck

end Timer.Stopped

namespace Actor

variable {beh : Behaviour S M I} {a b : Actor S M I} {i : Input M I} {events : List (Event S M I)}
  {m : M} {st : S}

theorem mem_mailbox_of_transition (h : Transition beh a i b events) (hm : m ∈ b.mailbox) :
    m ∈ a.mailbox ∨ i = .deliver m := by
  cases h with
  | deliver m' =>
      rcases List.mem_append.mp hm with hm | hm
      · exact .inl hm
      · cases List.mem_singleton.mp hm
        exact .inr rfl
  | take now m' rest hpc hmailbox =>
      exact .inl (hmailbox ▸ List.mem_cons_of_mem m' hm)
  | announce | retStoppedTop | panicElsewhere => cases hm
  | _ => exact .inl hm

theorem mem_mailbox_of_handed (h : Transition beh a i b events) (hm : .handed m st ∈ events) :
    m ∈ a.mailbox := by
  cases h with
  | take now m' rest hpc hmailbox =>
      cases List.mem_singleton.mp hm
      rw [hmailbox]
      exact List.mem_cons_self
  | _ => simp at hm

end Actor

namespace Timers

variable {beh : Behaviour S (Timed M) I} {s t : Timers S M I} {x : TimerAction M I} {k : ℕ}
  {events : List (Event S (Timed M) I)}

/-- No handler has been invoked for a message of the timer. -/
def Unheard (k : ℕ) (events : List (Event S (Timed M) I)) : Prop :=
  ∀ m st, Event.handed m st ∈ events → m.timer ≠ some k

theorem unheard_nil : Unheard k ([] : List (Event S (Timed M) I)) := by
  simp [Unheard]

theorem Unheard.append {trace : List (Event S (Timed M) I)} (htrace : Unheard k trace)
    (hevents : Unheard k events) : Unheard k (trace ++ events) := by
  intro m st hm
  exact (List.mem_append.mp hm).elim (htrace m st) (hevents m st)

/-- The timer is stopped, and none of its messages is in the mailbox. -/
structure Silenced (s : Timers S M I) (k : ℕ) : Prop where
  timer : ∃ t, s.timers[k]? = some t ∧ t.Stopped
  mailbox : ∀ m ∈ s.actor.mailbox, m.timer ≠ some k

theorem update_eq_some {f : Timer M → Option (Timer M)} (h : s.update k f = some (t, events)) :
    ∃ u v, s.timers[k]? = some u ∧ f u = some v ∧ t = { s with timers := s.timers.set k v } ∧
      events = [] := by
  unfold update at h
  split at h
  · rename_i u hu
    obtain ⟨v, hv, hpair⟩ := Option.map_eq_some_iff.mp h
    cases hpair
    exact ⟨u, v, hu, hv, rfl, rfl⟩
  · cases h

/-- What a step does, as far as a timer that is stopped is concerned. -/
inductive Effect (beh : Behaviour S (Timed M) I) (s : Timers S M I) :
    Timers S M I → List (Event S (Timed M) I) → Prop
  | create (u : Timer M) : Effect beh s { s with timers := s.timers ++ [u] } []
  | update (j : ℕ) (u v : Timer M) (hu : s.timers[j]? = some u) (hv : u.Stopped → v.Stopped) :
      Effect beh s { s with timers := s.timers.set j v } []
  | send (j : ℕ) (u : Timer M) (b : Actor S (Timed M) I) (events : List (Event S (Timed M) I))
      (hu : s.timers[j]? = some u) (hsending : u.pc = .sending)
      (hstep : Actor.step beh s.actor (.deliver ⟨u.msg, some j⟩) = some (b, events)) :
      Effect beh s { actor := b, timers := s.timers.set j u.sent } events
  | actor (i : Input (Timed M) I) (b : Actor S (Timed M) I) (events : List (Event S (Timed M) I))
      (hi : internal i = true) (hstep : Actor.step beh s.actor i = some (b, events)) :
      Effect beh s { s with actor := b } events

theorem effect_of_create {u : Timer M} (h : s.create u = some (t, events)) :
    Effect beh s t events := by
  unfold create at h
  split at h
  · cases h
    exact .create u
  · cases h

theorem effect_of_update {j : ℕ} {f : Timer M → Option (Timer M)}
    (h : s.update j f = some (t, events)) (hf : ∀ {u v}, f u = some v → u.Stopped → v.Stopped) :
    Effect beh s t events := by
  obtain ⟨u, v, hu, hv, rfl, rfl⟩ := update_eq_some h
  exact .update j u v hu (hf hv)

theorem effect_of_step (h : step beh s x = some (t, events)) : Effect beh s t events := by
  cases x with
  | runLater delay m => exact effect_of_create h
  | runInterval period m => exact effect_of_create h
  | cancel j =>
      refine effect_of_update h ?_
      rintro u v ⟨⟩ hu
      exact ⟨rfl, hu.2⟩
  | start j now => exact effect_of_update h fun hv hu ↦ hu.start hv
  | wake j now => exact effect_of_update h fun hv hu ↦ hu.wake hv
  | check j => exact effect_of_update h fun hv hu ↦ hu.check hv
  | send j =>
      simp only [step] at h
      split at h
      · rename_i u hu
        split at h
        · rename_i hsending
          split at h
          · obtain ⟨⟨b, emitted⟩, hdeliver, hpair⟩ := Option.map_eq_some_iff.mp h
            cases hpair
            exact .send j u b emitted hu hsending hdeliver
          · cases h
            exact .update j u u.sent hu fun hstopped ↦ absurd hsending hstopped.2
        · cases h
      · cases h
  | actor i =>
      simp only [step] at h
      split at h
      · rename_i hi
        obtain ⟨⟨b, emitted⟩, hactor, hpair⟩ := Option.map_eq_some_iff.mp h
        cases hpair
        exact .actor i b emitted hi hactor
      · cases h

theorem Silenced.feed {i : Input (Timed M) I} {b : Actor S (Timed M) I} (h : s.Silenced k)
    (hstep : Actor.step beh s.actor i = some (b, events))
    (hi : ∀ m, i = .deliver m → m.timer ≠ some k) :
    (∀ m ∈ b.mailbox, m.timer ≠ some k) ∧ Unheard k events := by
  have htransition := Actor.transition_of_step hstep
  constructor
  · intro m hm
    rcases Actor.mem_mailbox_of_transition htransition hm with hm | hm
    · exact h.mailbox m hm
    · exact hi m hm
  · intro m st hm
    exact h.mailbox m (Actor.mem_mailbox_of_handed htransition hm)

theorem Silenced.step (h : s.Silenced k) (hstep : Timers.step beh s x = some (t, events)) :
    t.Silenced k ∧ Unheard k events := by
  obtain ⟨timer, htimer, hstopped⟩ := h.timer
  cases effect_of_step hstep with
  | create u =>
      refine ⟨⟨⟨timer, ?_, hstopped⟩, h.mailbox⟩, unheard_nil⟩
      rw [List.getElem?_append_left (List.getElem?_eq_some_iff.mp htimer).1, htimer]
  | update j u v hu hv =>
      refine ⟨⟨?_, h.mailbox⟩, unheard_nil⟩
      by_cases hjk : j = k
      · subst hjk
        obtain rfl : timer = u := Option.some.inj (htimer.symm.trans hu)
        have hj : j < s.timers.length := (List.getElem?_eq_some_iff.mp hu).1
        exact ⟨v, List.getElem?_set_self hj, hv hstopped⟩
      · exact ⟨timer, by rw [List.getElem?_set_ne hjk, htimer], hstopped⟩
  | send j u b _ hu hsending hdeliver =>
      -- the timer `k` does not send
      have hjk : j ≠ k := by
        rintro rfl
        obtain rfl : timer = u := Option.some.inj (htimer.symm.trans hu)
        exact hstopped.2 hsending
      obtain ⟨hmailbox, hhanded⟩ := h.feed hdeliver (by rintro m ⟨⟩; simpa using hjk)
      exact ⟨⟨⟨timer, by rw [List.getElem?_set_ne hjk, htimer], hstopped⟩, hmailbox⟩, hhanded⟩
  | actor i b _ hi hactor =>
      obtain ⟨hmailbox, hhanded⟩ := h.feed hactor (by
        rintro m rfl htimer
        simp [internal, htimer] at hi)
      exact ⟨⟨h.timer, hmailbox⟩, hhanded⟩

theorem Silenced.of_run {as : List (TimerAction M I)} {trace : List (Event S (Timed M) I)}
    (h : s.Silenced k) (hrun : run (traced (Timers.step beh)) (s, []) as = some (t, trace)) :
    Unheard k trace := by
  refine (traced_history (P := fun _ t trace ↦ t.Silenced k ∧ Unheard k trace) ⟨h, unheard_nil⟩
    ?_ hrun).2
  rintro as t trace x u events ⟨ht, htrace⟩ hstep
  obtain ⟨hu, hevents⟩ := ht.step hstep
  exact ⟨hu, htrace.append hevents⟩

end Timers

/-! ## How a message gets to its handler -/

namespace Actor

variable {beh : Behaviour S M I} {a b c : Actor S M I}

/-- Without any message coming in, the task may get from `a` to `b`, with the same mailbox and
nothing left to adopt. -/
structure Proceeds (beh : Behaviour S M I) (a b : Actor S M I) : Prop where
  run : ∃ is, StepSystem.run (untraced (step beh)) a is = some b ∧ ∀ m, .deliver m ∉ is
  mailbox : b.mailbox = a.mailbox
  capacity : b.capacity = a.capacity
  adopting : b.adopting = none

theorem Proceeds.of_step {i : Input M I} {events : List (Event S M I)}
    (h : step beh a i = some (b, events)) (hi : ∀ m, i ≠ .deliver m)
    (hmailbox : b.mailbox = a.mailbox) (hadopting : b.adopting = none) : Proceeds beh a b where
  run := by
    refine ⟨[i], ?_, fun m hm ↦ hi m (List.mem_singleton.mp hm).symm⟩
    simp [StepSystem.run, untraced, h]
  mailbox := hmailbox
  capacity := capacity_of_transition (transition_of_step h)
  adopting := hadopting

theorem Proceeds.trans (hab : Proceeds beh a b) (hbc : Proceeds beh b c) : Proceeds beh a c where
  run := by
    obtain ⟨is, his, hquiet⟩ := hab.run
    obtain ⟨js, hjs, hquiet'⟩ := hbc.run
    refine ⟨is ++ js, run_append_eq_some.mpr ⟨b, his, hjs⟩, fun m hm ↦ ?_⟩
    exact (List.mem_append.mp hm).elim (hquiet m) (hquiet' m)
  mailbox := hbc.mailbox.trans hab.mailbox
  capacity := hbc.capacity.trans hab.capacity
  adopting := hbc.adopting

/-- The task may get to the next poll of its `select!`. -/
def Resumes (beh : Behaviour S M I) (a : Actor S M I) : Prop :=
  ∃ b, Proceeds beh a b ∧ b.pc = .selecting

theorem Resumes.of_step {i : Input M I} {events : List (Event S M I)}
    (h : step beh a i = some (b, events)) (hi : ∀ m, i ≠ .deliver m)
    (hmailbox : b.mailbox = a.mailbox) (hadopting : b.adopting = none) (hb : Resumes beh b) :
    Resumes beh a := by
  obtain ⟨c, hc, hpc⟩ := hb
  exact ⟨c, (Proceeds.of_step h hi hmailbox hadopting).trans hc, hpc⟩

theorem resumes_of_looping (hpc : a.pc = .looping) (hadopting : a.adopting = none) :
    Resumes beh a := by
  have hstep : step beh a (.poll 0) = some ({ a with
      streams := a.streams ++ a.added
      added := []
      shutdown := a.shutdown.notified
      stop := a.stop.notified
      escalate := a.escalate.notified
      pc := .selecting }, []) := by
    simp [step, poll, hpc]
  exact ⟨_, .of_step hstep (by simp) rfl hadopting, rfl⟩

/-- Once a stream has had an item, the streams are polled to the end and the loop goes on. -/
theorem resumes_of_polling {todo kept : List ℕ} (hpc : a.pc = .polling todo kept true)
    (hadopting : a.adopting = none) : Resumes beh a := by
  induction todo generalizing a kept with
  | nil =>
      have hstep : step beh a (.poll 0) =
          some ({ a.dropFutures with streams := kept, pc := .looping }, []) := by
        simp [step, poll, hpc]
      exact .of_step hstep (by simp) rfl hadopting (resumes_of_looping rfl hadopting)
  | cons id todo ih =>
      cases hready : a.ready id with
      | nil =>
          have hstep : step beh a (.poll 0) =
              some ({ a with pc := .polling todo (kept ++ [id]) true }, []) := by
            simp [step, poll, hpc, hready]
          exact .of_step hstep (by simp) rfl hadopting (ih rfl hadopting)
      | cons r rest =>
          cases r with
          | none =>
              have hstep : step beh a (.poll 0) = some ({ a with
                  ready := Function.update a.ready id rest
                  pc := .finishing todo kept true }, [.finished id]) := by
                simp [step, poll, hpc, hready]
              have hret : step beh { a with
                  ready := Function.update a.ready id rest
                  pc := .finishing todo kept true } .ret = some ({ a with
                    ready := Function.update a.ready id rest
                    state := beh.finished a.state
                    pc := .polling todo kept true }, []) := by
                simp [step, ret, hadopting]
              refine .of_step hstep (by simp) rfl hadopting ?_
              exact .of_step hret (by simp) rfl hadopting (ih rfl hadopting)
          | some x =>
              have hstep : step beh a (.poll 0) = some ({ a with
                  ready := Function.update a.ready id rest
                  pc := .item id x todo kept }, [.item id x]) := by
                simp [step, poll, hpc, hready]
              have hret : step beh { a with
                  ready := Function.update a.ready id rest
                  pc := .item id x todo kept } .ret = some ({ a with
                    ready := Function.update a.ready id rest
                    state := beh.item a.state x
                    pc := .polling todo (kept ++ [id]) true }, []) := by
                simp [step, ret, hadopting]
              refine .of_step hstep (by simp) rfl hadopting ?_
              exact .of_step hret (by simp) rfl hadopting (ih rfl hadopting)

theorem resumes_of_handling {m : M} (hpc : a.pc = .handling m) (hadopting : a.adopting = none) :
    Resumes beh a := by
  have hstep : step beh a .ret =
      some ({ a with state := beh.handle a.state m, pc := .looping }, [.handled m]) := by
    simp [step, ret, hpc, hadopting]
  exact .of_step hstep (by simp) rfl hadopting (resumes_of_looping rfl hadopting)

theorem resumes_of_item {id : ℕ} {x : I} {todo kept : List ℕ} (hpc : a.pc = .item id x todo kept)
    (hadopting : a.adopting = none) : Resumes beh a := by
  have hstep : step beh a .ret = some ({ a with
      state := beh.item a.state x
      pc := .polling todo (kept ++ [id]) true }, []) := by
    simp [step, ret, hpc, hadopting]
  exact .of_step hstep (by simp) rfl hadopting (resumes_of_polling rfl hadopting)

/-- In a handler for a message or for an item of a stream. -/
def InHandler (a : Actor S M I) : Prop := a.pc.site = some .handler ∨ a.pc.site = some .item

theorem resumes_of_inHandler (h : a.InHandler) : Resumes beh a := by
  -- a handler that has spawned a child adopts it first
  suffices hfree : ∀ a : Actor S M I, a.InHandler → a.adopting = none → Resumes beh a by
    cases hadopting : a.adopting with
    | none => exact hfree a h hadopting
    | some c =>
        have hstep : step beh a .adopt =
            some ({ a with adopting := none, children := a.children ++ [c] }, [.adopted c]) := by
          simp [step, hadopting]
        exact .of_step hstep (by simp) rfl rfl (hfree _ h rfl)
  intro a h hadopting
  cases hpc : a.pc with
  | handling m => exact resumes_of_handling hpc hadopting
  | item id x todo kept => exact resumes_of_item hpc hadopting
  | _ => simp [InHandler, hpc, Pc.site] at h

end Actor

namespace Timers

variable {beh : Behaviour S (Timed M) I} {s t : Timers S M I} {k : ℕ}

/-- The timers do nothing while the actor proceeds. -/
theorem run_actor {a b : Actor S (Timed M) I} {is : List (Input (Timed M) I)}
    (hrun : run (untraced (Actor.step beh)) a is = some b) (hquiet : ∀ m, .deliver m ∉ is)
    (timers : List (Timer M)) :
    run (untraced (step beh)) ⟨a, timers⟩ (is.map .actor) = some ⟨b, timers⟩ := by
  induction is generalizing a with
  | nil =>
      cases hrun
      rfl
  | cons i is ih =>
      obtain ⟨c, hfirst, hrest⟩ := run_cons_eq_some.mp hrun
      obtain ⟨⟨c', events⟩, hstep, rfl⟩ := Option.map_eq_some_iff.mp hfirst
      have hi : internal i = true := by
        cases i with
        | deliver m => exact absurd List.mem_cons_self (hquiet m)
        | _ => rfl
      refine run_cons_eq_some.mpr ⟨⟨c', timers⟩, ?_, ih hrest fun m hm ↦ ?_⟩
      · simp [untraced, step, hi, hstep]
      · exact hquiet m (List.mem_cons_of_mem i hm)

/-- In some continuation a handler is invoked for a message of the timer. -/
def Heard (beh : Behaviour S (Timed M) I) (s : Timers S M I) (k : ℕ) : Prop :=
  ∃ as t trace, run (traced (step beh)) (s, []) as = some (t, trace) ∧ ¬ Unheard k trace

theorem Heard.of_run {as : List (TimerAction M I)} (ht : Heard beh t k)
    (hrun : run (untraced (step beh)) s as = some t) : Heard beh s k := by
  obtain ⟨bs, u, trace, hrest, hheard⟩ := ht
  obtain ⟨before, hbefore⟩ := exists_traced hrun
  refine ⟨as ++ bs, u, before ++ trace, ?_, fun h ↦ hheard fun m st hm ↦ ?_⟩
  · refine run_append_eq_some.mpr ⟨(t, before), hbefore, ?_⟩
    rw [← run_traced_append hrest before, List.append_nil]
  · exact h m st (List.mem_append_right before hm)

theorem Heard.of_resumes (hactor : s.actor.Resumes beh)
    (h : ∀ b, s.actor.Proceeds beh b → b.pc = .selecting → Heard beh { s with actor := b } k) :
    Heard beh s k := by
  obtain ⟨b, hb, hpc⟩ := hactor
  obtain ⟨is, his, hquiet⟩ := hb.run
  exact (h b hb hpc).of_run (run_actor his hquiet s.timers)

theorem Heard.of_step {x : TimerAction M I} {events : List (Event S (Timed M) I)}
    (hstep : step beh s x = some (t, events)) (ht : Heard beh t k) : Heard beh s k := by
  have hrun : run (untraced (step beh)) s [x] = some t := by simp [run, untraced, hstep]
  exact ht.of_run hrun

/-- The message that is next in the mailbox is handed over. -/
theorem exists_take (beh : Behaviour S (Timed M) I) {m : Timed M} {rest : List (Timed M)}
    (hpc : s.actor.pc = .selecting)
    (hmailbox : s.actor.mailbox = m :: rest) :
    ∃ t, step beh s (.actor (.poll 0)) = some (t, [.handed m s.actor.state]) ∧
      t.timers = s.timers ∧ t.actor.pc = .handling m ∧ t.actor.adopting = s.actor.adopting ∧
      t.actor.mailbox = rest ∧ t.actor.capacity = s.actor.capacity := by
  refine ⟨{ s with actor := { s.actor.dropFutures with mailbox := rest, pc := .handling m } },
    ?_, rfl, rfl, rfl, rfl, rfl⟩
  simp [step, internal, Actor.step, Actor.poll, hpc, hmailbox]

/-- The messages before the one of the timer are handled first. -/
theorem heard_of_mailbox {before after : List (Timed M)} {m : Timed M}
    (hpc : s.actor.pc = .selecting) (hadopting : s.actor.adopting = none)
    (hmailbox : s.actor.mailbox = before ++ m :: after) (hm : m.timer = some k) :
    Heard beh s k := by
  induction before generalizing s with
  | nil =>
      obtain ⟨t, htake, -⟩ := exists_take beh hpc hmailbox
      refine ⟨[.actor (.poll 0)], t, [.handed m s.actor.state], ?_, fun h ↦ ?_⟩
      · exact run_cons_eq_some.mpr ⟨_, traced_eq_some.mpr ⟨_, htake, rfl⟩, rfl⟩
      · exact h m s.actor.state List.mem_cons_self hm
  | cons first before ih =>
      obtain ⟨t, htake, -, hhandling, hadopting', hrest, -⟩ := exists_take beh hpc hmailbox
      refine .of_step htake ?_
      refine .of_resumes (Actor.resumes_of_handling hhandling (hadopting'.trans hadopting)) ?_
      intro b hb hselecting
      exact ih hselecting hb.adopting (hb.mailbox.trans hrest)

/-- A timer that is past the look at its flag sends as soon as there is room. -/
theorem heard_of_sending {timer : Timer M} (hpc : s.actor.pc = .selecting)
    (hadopting : s.actor.adopting = none) (hcapacity : 0 < s.actor.capacity)
    (htimer : s.timers[k]? = some timer) (hsending : timer.pc = .sending) : Heard beh s k := by
  generalize hmailbox : s.actor.mailbox = mailbox
  induction mailbox generalizing s with
  | nil =>
      have hsend : step beh s (.send k) = some ({
          actor := { s.actor with mailbox := [⟨timer.msg, some k⟩] }
          timers := s.timers.set k timer.sent }, []) := by
        simp [step, htimer, hsending, Actor.step, hpc, Pc.alive, hmailbox, hcapacity]
      refine .of_step hsend ?_
      have hone : [(⟨timer.msg, some k⟩ : Timed M)] = [] ++ ⟨timer.msg, some k⟩ :: [] := rfl
      exact heard_of_mailbox hpc hadopting hone rfl
  | cons first rest ih =>
      obtain ⟨t, htake, htimers, hhandling, hadopting', hrest, hcapacity'⟩ :=
        exists_take beh hpc hmailbox
      refine .of_step htake ?_
      refine .of_resumes (Actor.resumes_of_handling hhandling (hadopting'.trans hadopting)) ?_
      intro b hb hselecting
      refine ih hselecting hb.adopting ?_ (by rw [htimers, htimer]) (hb.mailbox.trans hrest)
      rw [hb.capacity, hcapacity']
      exact hcapacity

/-! ## Cancelled timers -/

theorem capacity_of_run {role : Role} {capacity : ℕ} {as : List (TimerAction M I)}
    {trace : List (Event S (Timed M) I)}
    (hrun : run (traced (step beh)) (spawned beh role capacity, []) as = some (s, trace)) :
    s.actor.capacity = capacity := by
  refine traced_history (P := fun _ s _ ↦ s.actor.capacity = capacity) rfl ?_ hrun
  intro as s trace x t events hs hstep
  cases effect_of_step hstep with
  | create | update => exact hs
  | send _ _ b _ _ _ hdeliver =>
      exact (Actor.capacity_of_transition (Actor.transition_of_step hdeliver)).trans hs
  | actor i b _ _ hactor =>
      exact (Actor.capacity_of_transition (Actor.transition_of_step hactor)).trans hs

/-- When a handler cancels a timer, no later handler is invoked for a message of it, whatever
happens, if and only if no such message is in the mailbox and the timer is not past the look at its
flag. -/
theorem cancelled_timer_silent_iff {role : Role} {capacity : ℕ} {as : List (TimerAction M I)}
    {before events : List (Event S (Timed M) I)} (hcapacity : 0 < capacity)
    (hrun : run (traced (step beh)) (spawned beh role capacity, []) as = some (s, before))
    (hhandler : s.actor.InHandler) (hcancel : step beh s (.cancel k) = some (t, events)) :
    (∀ post u trace, run (traced (step beh)) (t, []) post = some (u, trace) → Unheard k trace) ↔
      (∀ m ∈ s.actor.mailbox, m.timer ≠ some k) ∧
        ∀ timer, s.timers[k]? = some timer → timer.pc ≠ .sending := by
  obtain ⟨timer, cancelled, htimer, hcancelled, rfl, -⟩ := update_eq_some hcancel
  cases hcancelled
  have hget : (s.timers.set k { timer with cancelled := true })[k]? =
      some { timer with cancelled := true } :=
    List.getElem?_set_self (List.getElem?_eq_some_iff.mp htimer).1
  constructor
  · intro h
    have hnever :
        ¬ Heard beh { s with timers := s.timers.set k { timer with cancelled := true } } k := by
      rintro ⟨post, u, trace, hpost, hheard⟩
      exact hheard (h post u trace hpost)
    constructor
    · intro m hm hof
      obtain ⟨first, rest, hmailbox⟩ := List.append_of_mem hm
      refine hnever (.of_resumes (Actor.resumes_of_inHandler hhandler) fun b hb hpc ↦ ?_)
      exact heard_of_mailbox hpc hb.adopting (hb.mailbox.trans hmailbox) hof
    · intro timer' htimer' hsending
      obtain rfl : timer = timer' := Option.some.inj (htimer.symm.trans htimer')
      refine hnever (.of_resumes (Actor.resumes_of_inHandler hhandler) fun b hb hpc ↦ ?_)
      refine heard_of_sending hpc hb.adopting ?_ hget hsending
      rw [hb.capacity, capacity_of_run hrun]
      exact hcapacity
  · rintro ⟨hmailbox, hsending⟩ post u trace hpost
    have hsilenced :
        Silenced { s with timers := s.timers.set k { timer with cancelled := true } } k :=
      ⟨⟨_, hget, rfl, hsending timer htimer⟩, hmailbox⟩
    exact hsilenced.of_run hpost

/-- An interval is started, and the actor gets a message before the first tick. -/
def beforeTick : List (TimerAction ℕ Empty) :=
  [.actor (.poll 0), .runInterval 5 9, .actor .ret, .start 0 0, .actor (.deliver ⟨1, none⟩),
    .actor (.poll 0), .actor (.poll 0)]

theorem early_cancel_silent :
    ∃ s t before, run (traced (step idle)) (spawned idle .topLevel 2, []) beforeTick =
        some (s, before) ∧ step idle s (.cancel 0) = some (t, []) ∧
      ∀ post u trace, run (traced (step idle)) (t, []) post = some (u, trace) →
        Unheard 0 trace := by
  have hrun : (run (traced (step idle)) (spawned idle .topLevel 2, []) beforeTick).map
      (fun x ↦ (x.1.actor.pc.site, x.1.actor.mailbox, x.1.timers)) =
      some (some .handler, [], [⟨.interval 5, 9, false, 0, .sleeping⟩]) := by
    decide +kernel
  obtain ⟨⟨s, before⟩, hrun, hs⟩ := Option.map_eq_some_iff.mp hrun
  obtain ⟨hsite, hs⟩ := Prod.mk.inj hs
  obtain ⟨hmailbox, htimers⟩ := Prod.mk.inj hs
  have hcancel : step idle s (.cancel 0) =
      some ({ s with timers := [⟨.interval 5, 9, true, 0, .sleeping⟩] }, []) := by
    dsimp only at htimers
    simp [step, update, htimers]
  refine ⟨s, _, before, hrun, hcancel, ?_⟩
  refine (cancelled_timer_silent_iff (by decide) hrun (.inl hsite) hcancel).mpr ⟨?_, ?_⟩
  · intro m hm
    rw [hmailbox] at hm
    cases hm
  · intro timer htimer
    rw [htimers] at htimer
    cases htimer
    decide

/-- Where the user's code is when the timer 0 is cancelled, and what is handed over after that. -/
def cancelBetween (capacity : ℕ) (pre post : List (TimerAction ℕ Empty)) :
    Option (Option Site × List (Timed ℕ)) := do
  let (s, _) ← run (traced (step idle)) (spawned idle .topLevel capacity, []) pre
  let (t, _) ← step idle s (.cancel 0)
  let (_, trace) ← run (traced (step idle)) (t, []) post
  return (s.actor.pc.site, handed trace)

/-- The tick is behind the message whose handler cancels, or its sender waits for room in the
mailbox then: it is handled all the same. -/
theorem late_cancel_not_heeded :
    cancelBetween 2
        [.actor (.poll 0), .runInterval 5 9, .actor .ret, .actor (.deliver ⟨1, none⟩), .start 0 0,
          .wake 0 0, .check 0, .send 0, .actor (.poll 0), .actor (.poll 0)]
        [.actor .ret, .actor (.poll 0), .actor (.poll 0)] =
      some (some .handler, [⟨9, some 0⟩]) ∧
    cancelBetween 1
        [.actor (.poll 0), .runLater 5 9, .actor .ret, .start 0 0, .actor (.deliver ⟨1, none⟩),
          .actor (.poll 0), .actor (.poll 0), .actor (.deliver ⟨2, none⟩), .wake 0 5, .check 0]
        [.actor .ret, .actor (.poll 0), .actor (.poll 0), .send 0, .actor .ret, .actor (.poll 0),
          .actor (.poll 0)] =
      some (some .handler, [⟨2, none⟩, ⟨9, some 0⟩]) := by
  decide +kernel

end Timers

end Cineyma.Runtime
