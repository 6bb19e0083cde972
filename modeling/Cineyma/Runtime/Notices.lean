import Cineyma.Runtime.Lifecycle

/-!
# The notification of watchers

A task notifies its watchers once, on the poll that finds it announcing, and it notifies those that
were added before. When that poll comes is the only difference between a top-level actor and a
child.
-/

namespace Cineyma.Runtime

open StepSystem

variable {S M I : Type}

/-- A notification of the watcher `w`. -/
def Event.isTerminated (w : ℕ) : Event S M I → Bool
  | .terminated v => v = w
  | _ => false

/-- How often `w` was notified. -/
def told (w : ℕ) (trace : List (Event S M I)) : ℕ := trace.countP (Event.isTerminated w)

theorem told_append (w : ℕ) (xs ys : List (Event S M I)) :
    told w (xs ++ ys) = told w xs + told w ys :=
  List.countP_append

theorem told_eq_zero_iff {w : ℕ} {trace : List (Event S M I)} :
    told w trace = 0 ↔ .terminated w ∉ trace := by
  rw [told, List.countP_eq_zero]
  constructor
  · intro h hmem
    simpa [Event.isTerminated] using h _ hmem
  · intro h e he
    cases e with
    | terminated v =>
        simp only [Event.isTerminated, decide_eq_true_eq]
        rintro rfl
        exact h he
    | _ => simp [Event.isTerminated]

theorem told_map_terminated (w : ℕ) (ws : List ℕ) :
    told w (ws.map (Event.terminated : ℕ → Event S M I)) = ws.count w := by
  rw [told, List.countP_map, List.count]
  congr 1

theorem registered_append (xs ys : List (Input M I)) :
    registered (xs ++ ys) = registered xs ++ registered ys :=
  List.filterMap_append

theorem mem_registered {w : ℕ} {as : List (Input M I)} :
    w ∈ registered as ↔ .watch w ∈ as := by
  rw [registered, List.mem_filterMap]
  constructor
  · rintro ⟨i, hi, hw⟩
    cases i <;> cases hw
    exact hi
  · exact fun h ↦ ⟨_, h, rfl⟩

namespace Actor

variable {beh : Behaviour S M I} {a b : Actor S M I} {i : Input M I}
  {events trace : List (Event S M I)} {as : List (Input M I)} {role : Role} {capacity w : ℕ}

/-! ## The one notification -/

/-- The watchers have been notified, or never will be. -/
def Past (a : Actor S M I) : Prop :=
  match a.pc with
  | .ended | .dead => True
  | .reaping _ | .stopping _ => a.role = .topLevel
  | _ => False

theorem Past.not_announcing (h : a.Past) : a.pc.phase ≠ .announcing := by
  unfold Past at h
  cases hpc : a.pc <;> simp_all [Pc.phase]

theorem past_of_over (h : a.pc.alive = false) : a.Past := by
  unfold Past
  cases hpc : a.pc <;> simp_all [Pc.alive]

theorem Past.step (h : a.Past) (hstep : Transition beh a i b events) : b.Past := by
  cases hstep with
  | deliver | requestStop | shutdown | escalation | oldEscalation | watch | streamReady | spawn |
    adopt | addStream =>
      exact h
  | announce | retStoppedTop | panicElsewhere => trivial
  | reap now failed hpc => simpa [Past, hpc] using h
  | announceTop now failed hpc => simp [Past, hpc] at h
  | _ => simp_all [Past]

/-- Watchers are notified by the poll that finds the task announcing, and all of them. -/
theorem terminated_of_transition (hstep : Transition beh a i b events) :
    ((∃ now, i = .poll now) ∧ a.pc.phase = .announcing ∧ events = a.watchers.map .terminated ∧
        b.Past) ∨
      ((∀ now, i = .poll now → a.pc.phase ≠ .announcing) ∧ ∀ w, .terminated w ∉ events) := by
  cases hstep with
  | announce now failed strategy hpc hrole =>
      exact .inl ⟨⟨now, rfl⟩, by rw [hpc]; rfl, rfl, trivial⟩
  | announceTop now failed hpc hrole => exact .inl ⟨⟨now, rfl⟩, by rw [hpc]; rfl, rfl, hrole⟩
  | deliver | requestStop | shutdown | escalation | oldEscalation | watch | streamReady | spawn |
    adopt | addStream | retStarted | retHandler | retItem | retFinished | retStopped |
    retStoppedTop | panicHandler | panicElsewhere =>
      exact .inr ⟨by simp, by simp⟩
  | _ => exact .inr ⟨fun _ _ ↦ by simp [*, Pc.phase], by simp⟩

/-- After `as` the task is about to notify its watchers. -/
def Announces (beh : Behaviour S M I) (role : Role) (capacity : ℕ) (as : List (Input M I)) :
    Prop :=
  ∃ t story, run (traced (step beh)) (spawned beh role capacity, []) as = some (t, story) ∧
    t.pc.phase = .announcing

/-- The inputs before the notification, if it has taken place. -/
inductive Notice (beh : Behaviour S M I) (role : Role) (capacity : ℕ) (as : List (Input M I))
    (a : Actor S M I) (trace : List (Event S M I)) : Prop
  | never (hnone : ∀ before now after, as = before ++ .poll now :: after →
      ¬ Announces beh role capacity before) (htrace : ∀ w, .terminated w ∉ trace)
  | once (before : List (Input M I)) (now : ℕ) (after : List (Input M I))
      (has : as = before ++ .poll now :: after) (hannounce : Announces beh role capacity before)
      (hunique : ∀ before' now' after', as = before' ++ .poll now' :: after' →
        Announces beh role capacity before' → before' = before)
      (htrace : ∀ w, told w trace = (registered before).count w) (hpast : a.Past)

theorem notice_of_run (hrun : run (traced (step beh)) (spawned beh role capacity, []) as =
    some (a, trace)) : Notice beh role capacity as a trace := by
  induction as using List.reverseRecOn generalizing a trace with
  | nil =>
      cases hrun
      exact .never (by simp) (by simp)
  | append_singleton as i ih =>
      obtain ⟨⟨t, story⟩, hbefore, hlast⟩ := run_concat_eq_some.mp hrun
      obtain ⟨events, hemit, rfl⟩ := traced_eq_some.mp hlast
      have hstep := transition_of_step hemit
      have hnow : Announces beh role capacity as ↔ t.pc.phase = .announcing := by
        constructor
        · rintro ⟨t', story', ht', hphase⟩
          cases hbefore.symm.trans ht'
          exact hphase
        · exact fun hphase ↦ ⟨t, story, hbefore, hphase⟩
      cases ih hbefore with
      | never hnone htrace =>
          rcases terminated_of_transition hstep with
            ⟨⟨now, rfl⟩, hphase, rfl, hpast⟩ | ⟨hphase, hevents⟩
          · refine .once as now [] rfl (hnow.mpr hphase) ?_ ?_ hpast
            · intro before' now' after' heq hannounce
              rcases concat_eq_append_cons heq with ⟨rest, hearlier⟩ | ⟨hbefore', -⟩
              · exact absurd hannounce (hnone before' now' rest hearlier)
              · exact hbefore'
            · intro w
              rw [told_append, told_eq_zero_iff.mpr (htrace w), zero_add, told_map_terminated,
                watchers_of_run hbefore]
          · refine .never ?_ fun w hw ↦ (List.mem_append.mp hw).elim (htrace w) (hevents w)
            intro before' now' after' heq hannounce
            rcases concat_eq_append_cons heq with ⟨rest, hearlier⟩ | ⟨rfl, rfl⟩
            · exact hnone before' now' rest hearlier hannounce
            · exact hphase now' rfl (hnow.mp hannounce)
      | once before now after has hannounce hunique htrace hpast =>
          have hevents : ∀ w, .terminated w ∉ events := by
            rcases terminated_of_transition hstep with ⟨-, hphase, -⟩ | ⟨-, hevents⟩
            · exact absurd hphase hpast.not_announcing
            · exact hevents
          refine .once before now (after ++ [i]) (by simp [has]) hannounce ?_ ?_ (hpast.step hstep)
          · intro before' now' after' heq hannounce'
            rcases concat_eq_append_cons heq with ⟨rest, hearlier⟩ | ⟨rfl, rfl⟩
            · exact hunique before' now' rest hearlier hannounce'
            · exact absurd (hnow.mp hannounce') hpast.not_announcing
          · intro w
            rw [told_append, told_eq_zero_iff.mpr (hevents w), add_zero, htrace w]

/-- No watcher is added before the poll at which the task notifies its watchers. -/
def Unwatched (beh : Behaviour S M I) (role : Role) (capacity : ℕ) (as : List (Input M I)) : Prop :=
  ∀ before now after, as = before ++ .poll now :: after → Announces beh role capacity before →
    ∀ w, .watch w ∉ before

theorem unwatched_iff (hrun : run (traced (step beh)) (spawned beh role capacity, []) as =
    some (a, trace)) : Unwatched beh role capacity as ↔ ∀ w, .terminated w ∉ trace := by
  cases notice_of_run hrun with
  | never hnone htrace =>
      refine iff_of_true ?_ htrace
      intro before now after has hannounce
      exact absurd hannounce (hnone before now after has)
  | once before now after has hannounce hunique htrace hpast =>
      have hwatch : ∀ w, .watch w ∉ before ↔ .terminated w ∉ trace := by
        intro w
        rw [← mem_registered, ← List.count_eq_zero, ← htrace, told_eq_zero_iff]
      constructor
      · intro h w
        exact (hwatch w).mp (h before now after has hannounce w)
      · intro h before' now' after' has' hannounce' w
        rw [hunique before' now' after' has' hannounce']
        exact (hwatch w).mpr (h w)

end Actor

end Cineyma.Runtime
