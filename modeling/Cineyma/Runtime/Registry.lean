import Cineyma.Foundations.Run

/-!
# The registry of an actor system

`register` leaves a task behind that polls the actor and, once it is dead, removes the name. It does
not look at what the name stands for by then, so a task of an earlier registration may remove a
later one. On the other hand an entry of `register` has a task as long as it is there, and none
outlives its actor for long. `Ty` are the actor types, and `lookup` is a downcast to one of them.

The task is spawned when the lock of the map has been released. It does nothing before its first
check, so that a call of `register` is one step here.
-/

namespace Cineyma.Runtime

open Std StepSystem

variable {Ty : Type}

/-- An address of the actor `id`, which is of type `type`. -/
structure Addr (Ty : Type) where
  id : ℕ
  type : Ty
  deriving DecidableEq

/-- An auto-unregister task: `leaving` once it has seen that the actor is dead. -/
structure Sweeper (Ty : Type) where
  name : String
  addr : Addr Ty
  leaving : Bool
  deriving DecidableEq

/-- The map of the registry, its tasks, and the actors whose mailbox is closed. -/
structure Registry (Ty : Type) where
  actors : ExtTreeMap String (Addr Ty)
  sweepers : List (Sweeper Ty)
  dead : List ℕ

namespace Registry

def new : Registry Ty := ⟨∅, [], []⟩

def registerManual (r : Registry Ty) (name : String) (addr : Addr Ty) : Registry Ty :=
  { r with actors := r.actors.insert name addr }

def register (r : Registry Ty) (name : String) (addr : Addr Ty) : Registry Ty :=
  { r.registerManual name addr with sweepers := r.sweepers ++ [⟨name, addr, false⟩] }

def lookup [DecidableEq Ty] (r : Registry Ty) (type : Ty) (name : String) : Option (Addr Ty) :=
  r.actors[name]?.filter fun addr ↦ addr.type = type

def unregister (r : Registry Ty) (name : String) : Registry Ty :=
  { r with actors := r.actors.erase name }

/-- What may happen: the calls, the death of an actor, and the two ends of the `i`-th task, the
check that fails and the removal. -/
inductive Action (Ty : Type) where
  | register (name : String) (addr : Addr Ty)
  | registerManual (name : String) (addr : Addr Ty)
  | unregister (name : String)
  | die (id : ℕ)
  | notice (i : ℕ)
  | sweep (i : ℕ)
  deriving DecidableEq

def step (r : Registry Ty) : Action Ty → Option (Registry Ty)
  | .register name addr => some (r.register name addr)
  | .registerManual name addr => some (r.registerManual name addr)
  | .unregister name => some (r.unregister name)
  | .die id => some { r with dead := id :: r.dead }
  | .notice i =>
      match r.sweepers[i]? with
      | some w =>
          if w.addr.id ∈ r.dead then
            some { r with sweepers := r.sweepers.set i { w with leaving := true } }
          else none
      | none => none
  | .sweep i =>
      match r.sweepers[i]? with
      | some w =>
          if w.leaving then some { r.unregister w.name with sweepers := r.sweepers.eraseIdx i }
          else none
      | none => none

variable {r s t : Registry Ty} {a : Action Ty} {as : List (Action Ty)} {name : String}
  {addr : Addr Ty} {i : ℕ}

theorem step_notice_eq_some :
    step r (.notice i) = some s ↔ ∃ w, r.sweepers[i]? = some w ∧ w.addr.id ∈ r.dead ∧
      s = { r with sweepers := r.sweepers.set i { w with leaving := true } } := by
  cases hw : r.sweepers[i]? with
  | none => simp [step, hw]
  | some w => simp [step, hw, eq_comm]

theorem step_sweep_eq_some :
    step r (.sweep i) = some s ↔ ∃ w, r.sweepers[i]? = some w ∧ w.leaving = true ∧
      s = { r.unregister w.name with sweepers := r.sweepers.eraseIdx i } := by
  cases hw : r.sweepers[i]? with
  | none => simp [step, hw]
  | some w => simp [step, hw, eq_comm (a := s)]

/-! ## Registrations that last -/

/-- The calls that register or unregister the name. -/
def Action.concerns (name : String) : Action Ty → Bool
  | .register n _ | .registerManual n _ | .unregister n => n = name
  | _ => false

/-- A task leaves its loop only when the actor is dead. -/
def Sound (r : Registry Ty) : Prop := ∀ w ∈ r.sweepers, w.leaving = true → w.addr.id ∈ r.dead

theorem Sound.step (h : r.Sound) (hstep : step r a = some s) : s.Sound := by
  cases a with
  | register n other =>
      cases hstep
      intro w hw hleaving
      rcases List.mem_append.mp hw with hw | hw
      · exact h w hw hleaving
      · cases List.mem_singleton.mp hw
        cases hleaving
  | registerManual n other =>
      cases hstep
      exact h
  | unregister n =>
      cases hstep
      exact h
  | die id =>
      cases hstep
      exact fun w hw hleaving ↦ List.mem_cons_of_mem id (h w hw hleaving)
  | notice i =>
      obtain ⟨w, hw, hdead, rfl⟩ := step_notice_eq_some.mp hstep
      intro w' hw' hleaving
      rcases List.mem_or_eq_of_mem_set hw' with hw' | rfl
      · exact h w' hw' hleaving
      · exact hdead
  | sweep i =>
      obtain ⟨w, hw, hleaving, rfl⟩ := step_sweep_eq_some.mp hstep
      exact fun w hw hleaving ↦ h w (List.mem_of_mem_eraseIdx hw) hleaving

theorem sound_of_run (hrun : run step new as = some r) : r.Sound := by
  refine run_invariant (P := Sound) (fun _ _ _ h hstep ↦ h.step hstep) ?_ hrun
  rintro w ⟨⟩

/-- The name stands for `addr` as long as that actor lives, and every task for the name is about
it. -/
structure Held (r : Registry Ty) (name : String) (addr : Addr Ty) : Prop where
  sound : r.Sound
  sweepers : ∀ w ∈ r.sweepers, w.name = name → w.addr.id = addr.id
  entry : addr.id ∉ r.dead → r.actors[name]? = some addr

theorem Held.step (h : r.Held name addr) (hstep : step r a = some s)
    (ha : a.concerns name = false) : s.Held name addr := by
  have hsound := h.sound.step hstep
  cases a with
  | register n other =>
      have hne : n ≠ name := by simpa [Action.concerns] using ha
      cases hstep
      refine ⟨hsound, fun w hw hname ↦ ?_, fun halive ↦ ?_⟩
      · rcases List.mem_append.mp hw with hw | hw
        · exact h.sweepers w hw hname
        · cases List.mem_singleton.mp hw
          exact absurd hname hne
      · simpa [register, registerManual, ExtTreeMap.getElem?_insert, hne] using h.entry halive
  | registerManual n other =>
      have hne : n ≠ name := by simpa [Action.concerns] using ha
      cases hstep
      refine ⟨hsound, h.sweepers, fun halive ↦ ?_⟩
      simpa [registerManual, ExtTreeMap.getElem?_insert, hne] using h.entry halive
  | unregister n =>
      have hne : n ≠ name := by simpa [Action.concerns] using ha
      cases hstep
      refine ⟨hsound, h.sweepers, fun halive ↦ ?_⟩
      simpa [unregister, ExtTreeMap.getElem?_erase, hne] using h.entry halive
  | die id =>
      cases hstep
      exact ⟨hsound, h.sweepers,
        fun halive ↦ h.entry fun hdead ↦ halive (List.mem_cons_of_mem id hdead)⟩
  | notice i =>
      obtain ⟨w, hw, hdead, rfl⟩ := step_notice_eq_some.mp hstep
      refine ⟨hsound, fun w' hw' hname ↦ ?_, h.entry⟩
      rcases List.mem_or_eq_of_mem_set hw' with hw' | rfl
      · exact h.sweepers w' hw' hname
      · exact h.sweepers w (List.mem_of_getElem? hw) hname
  | sweep i =>
      obtain ⟨w, hw, hleaving, rfl⟩ := step_sweep_eq_some.mp hstep
      have hmem := List.mem_of_getElem? hw
      refine ⟨hsound, fun w' hw' ↦ h.sweepers w' (List.mem_of_mem_eraseIdx hw'), fun halive ↦ ?_⟩
      -- a task for the name would be about the living actor, and has not left its loop
      have hne : w.name ≠ name := by
        intro hname
        have hdead := h.sound w hmem hleaving
        rw [h.sweepers w hmem hname] at hdead
        exact halive hdead
      simpa [unregister, ExtTreeMap.getElem?_erase, hne] using h.entry halive

theorem Held.of_run (h : r.Held name addr) (hrun : run Registry.step r as = some s)
    (has : ∀ a ∈ as, a.concerns name = false) : s.Held name addr :=
  run_invariant_of_mem (P := fun r ↦ r.Held name addr)
    (fun _ a _ ha hheld hstep ↦ hheld.step hstep (has a ha)) h hrun

/-- The action registers the name for the actor. -/
def Registers (name : String) (addr : Addr Ty) (a : Action Ty) : Prop :=
  a = .register name addr ∨ a = .registerManual name addr

/-- A new registration of a living actor is held if the tasks for the name are about that actor. -/
theorem held_of_registers (hsound : r.Sound)
    (hsweepers : ∀ w ∈ r.sweepers, w.name = name → w.addr.id = addr.id)
    (ha : Registers name addr a) (hstep : step r a = some s) : s.Held name addr := by
  have hsound := hsound.step hstep
  rcases ha with rfl | rfl <;> cases hstep
  · refine ⟨hsound, fun w hw hname ↦ ?_, fun _ ↦ by simp [register, registerManual]⟩
    rcases List.mem_append.mp hw with hw | hw
    · exact hsweepers w hw hname
    · cases List.mem_singleton.mp hw
      rfl
  · exact ⟨hsound, hsweepers, fun _ ↦ by simp [registerManual]⟩

/-- The actor of a task dies, and the task removes its name. -/
theorem exists_sweep {w : Sweeper Ty} (hw : w ∈ r.sweepers) :
    ∃ as s, run step r as = some s ∧ (∀ n, ∀ a ∈ as, a.concerns n = false) ∧
      s.actors[w.name]? = none ∧ s.dead = w.addr.id :: r.dead := by
  obtain ⟨i, hi, rfl⟩ := List.getElem_of_mem hw
  let dying : Registry Ty := { r with dead := r.sweepers[i].addr.id :: r.dead }
  let leaving : Registry Ty :=
    { dying with sweepers := r.sweepers.set i { r.sweepers[i] with leaving := true } }
  have hnotice : step dying (.notice i) = some leaving :=
    step_notice_eq_some.mpr ⟨_, List.getElem?_eq_getElem hi, List.mem_cons_self .., rfl⟩
  have hentry : leaving.sweepers[i]? = some { r.sweepers[i] with leaving := true } :=
    List.getElem?_set_self hi
  have hsweep := step_sweep_eq_some.mpr ⟨_, hentry, rfl, rfl⟩
  refine ⟨[.die r.sweepers[i].addr.id, .notice i, .sweep i], _,
    run_cons_eq_some.mpr ⟨dying, rfl, run_cons_eq_some.mpr ⟨leaving, hnotice, run_cons_eq_some.mpr
      ⟨_, hsweep, rfl⟩⟩⟩, ?_, ?_, rfl⟩
  · simp [Action.concerns]
  · simp [unregister]

section

variable [DecidableEq Ty]

/-- A registration of a living actor lasts as long as the actor lives and nobody unregisters the
name, if and only if no task of an earlier registration of the name is left that is about another
actor. -/
theorem registration_lasts_iff (hrun : run step new as = some r) (ha : Registers name addr a)
    (hstep : step r a = some s) (halive : addr.id ∉ r.dead) :
    (∀ post t, run step s post = some t → (∀ a ∈ post, a.concerns name = false) →
      addr.id ∉ t.dead → t.lookup addr.type name = some addr) ↔
    ∀ w ∈ r.sweepers, w.name = name → w.addr.id = addr.id := by
  constructor
  · intro h w hw hname
    by_contra hne
    have hmem : w ∈ s.sweepers := by
      rcases ha with rfl | rfl <;> cases hstep
      · exact List.mem_append_left _ hw
      · exact hw
    have hdead : s.dead = r.dead := by
      rcases ha with rfl | rfl <;> cases hstep <;> rfl
    obtain ⟨post, t, hpost, hquiet, hnone, htdead⟩ := exists_sweep hmem
    have hlookup := h post t hpost (hquiet name) (by simp [htdead, hdead, halive, Ne.symm hne])
    rw [lookup, ← hname, hnone] at hlookup
    cases hlookup
  · intro h post t hpost hquiet htalive
    have hheld := held_of_registers (sound_of_run hrun) h ha hstep
    rw [lookup, (hheld.of_run hpost hquiet).entry htalive]
    simp [Option.filter]

end

/-- The actor 0 dies, its name is given to the actor 1, and the task of the first registration
removes it. -/
theorem old_task_removes_new_registration :
    (run step (new : Registry Unit) [.register "n" ⟨0, ()⟩, .die 0, .register "n" ⟨1, ()⟩,
      .notice 0, .sweep 0]).map (fun r ↦ (r.lookup () "n", decide (1 ∈ r.dead))) =
    some (none, false) := by
  decide +kernel

/-- The task of the actor 0 is over when the name is given to the actor 1. -/
theorem late_registration_lasts :
    ∃ r s t : Registry Unit,
      run step new [.register "n" ⟨0, ()⟩, .die 0, .notice 0, .sweep 0] = some r ∧
      step r (.register "n" ⟨1, ()⟩) = some s ∧
      run step s [.register "m" ⟨2, ()⟩, .unregister "m", .die 2] = some t ∧
      t.lookup () "n" = some ⟨1, ()⟩ := by
  have hrun : (run step (new : Registry Unit)
      [.register "n" ⟨0, ()⟩, .die 0, .notice 0, .sweep 0]).map
      (fun r ↦ (r.sweepers, r.dead)) = some ([], [0]) := by
    decide +kernel
  obtain ⟨r, hrun, hr⟩ := Option.map_eq_some_iff.mp hrun
  simp only [Prod.mk.injEq] at hr
  refine ⟨r, _, _, hrun, rfl, rfl, ?_⟩
  refine (registration_lasts_iff hrun (.inl rfl) rfl (by simp [hr.2])).mpr (by simp [hr.1])
    [.register "m" ⟨2, ()⟩, .unregister "m", .die 2] _ rfl ?_ ?_
  · simp [Action.concerns]
  · simp [unregister, register, registerManual, hr.2]

/-! ## Entries of dead actors -/

/-- The calls that insert an entry for the name. -/
def Action.inserts (name : String) : Action Ty → Bool
  | .register n _ | .registerManual n _ => n = name
  | _ => false

/-- The last of them was a `register`. -/
def AutoRegistered (as : List (Action Ty)) (name : String) : Prop :=
  ∃ pre addr post, as = pre ++ .register name addr :: post ∧ ∀ a ∈ post, a.inserts name = false

/-- If there is an entry for the name, there is a task for it. -/
def Guarded (r : Registry Ty) (name : String) : Prop :=
  ∀ addr, r.actors[name]? = some addr → ∃ w ∈ r.sweepers, w.name = name ∧ w.addr = addr

theorem guarded_register (r : Registry Ty) (name : String) (addr : Addr Ty) :
    (r.register name addr).Guarded name := by
  intro found hfound
  obtain rfl : addr = found := by simpa [register, registerManual] using hfound
  exact ⟨⟨name, addr, false⟩, by simp [register], rfl, rfl⟩

theorem Guarded.step (h : r.Guarded name) (hstep : step r a = some s)
    (ha : a.inserts name = false) : s.Guarded name := by
  intro found hfound
  cases a with
  | register n other =>
      have hne : n ≠ name := by simpa [Action.inserts] using ha
      cases hstep
      have hbefore : r.actors[name]? = some found := by
        simpa [register, registerManual, ExtTreeMap.getElem?_insert, hne] using hfound
      obtain ⟨w, hw, hname⟩ := h found hbefore
      exact ⟨w, List.mem_append_left _ hw, hname⟩
  | registerManual n other =>
      have hne : n ≠ name := by simpa [Action.inserts] using ha
      cases hstep
      exact h found (by simpa [registerManual, ExtTreeMap.getElem?_insert, hne] using hfound)
  | unregister n =>
      cases hstep
      by_cases hname : n = name
      · simp [unregister, hname] at hfound
      · exact h found (by simpa [unregister, ExtTreeMap.getElem?_erase, hname] using hfound)
  | die id =>
      cases hstep
      exact h found hfound
  | notice i =>
      obtain ⟨w, hw, -, rfl⟩ := step_notice_eq_some.mp hstep
      obtain ⟨w', hw', hname⟩ := h found hfound
      obtain ⟨j, hj⟩ := List.mem_iff_getElem?.mp hw'
      by_cases hij : i = j
      · subst hij
        obtain rfl : w = w' := Option.some.inj (hw.symm.trans hj)
        have hi : i < r.sweepers.length := (List.getElem?_eq_some_iff.mp hw).1
        exact ⟨{ w with leaving := true }, List.mem_set hi _, hname⟩
      · refine ⟨w', List.mem_of_getElem? (i := j) ?_, hname⟩
        rw [List.getElem?_set_ne hij]
        exact hj
  | sweep i =>
      obtain ⟨w, hw, -, rfl⟩ := step_sweep_eq_some.mp hstep
      -- the task that is over took its name with it, so the one for this entry is another
      have hne : w.name ≠ name := by
        intro hname
        simp [unregister, hname] at hfound
      have hbefore : r.actors[name]? = some found := by
        simpa [unregister, ExtTreeMap.getElem?_erase, hne] using hfound
      obtain ⟨w', hw', hname, haddr⟩ := h found hbefore
      obtain ⟨j, hj⟩ := List.mem_iff_getElem?.mp hw'
      have hji : j ≠ i := by
        rintro rfl
        obtain rfl : w = w' := Option.some.inj (hw.symm.trans hj)
        exact hne hname
      exact ⟨w', List.mem_eraseIdx_iff_getElem?.mpr ⟨j, hji, hj⟩, hname, haddr⟩

theorem Guarded.of_run (h : r.Guarded name) (hrun : run Registry.step r as = some s)
    (has : ∀ a ∈ as, a.inserts name = false) : s.Guarded name :=
  run_invariant_of_mem (P := fun r ↦ r.Guarded name)
    (fun _ a _ ha hguarded hstep ↦ hguarded.step hstep (has a ha)) h hrun

theorem guarded_of_autoRegistered (hrun : run step new as = some r) (h : AutoRegistered as name) :
    r.Guarded name := by
  obtain ⟨pre, addr, post, rfl, hpost⟩ := h
  obtain ⟨s, -, hrest⟩ := run_append_eq_some.mp hrun
  obtain ⟨t, hregister, hrest⟩ := run_cons_eq_some.mp hrest
  cases hregister
  exact (guarded_register s name addr).of_run hrest hpost

/-- Once the task of every dead actor is over, no name that `register` was the last to give stands
for a dead actor. -/
theorem autoRegistered_alive [DecidableEq Ty] (hrun : run step new as = some r)
    (hswept : ∀ w ∈ r.sweepers, w.addr.id ∉ r.dead) (hname : AutoRegistered as name) (type : Ty)
    (hlookup : r.lookup type name = some addr) : addr.id ∉ r.dead := by
  have hentry : r.actors[name]? = some addr := (Option.filter_eq_some_iff.mp hlookup).1
  obtain ⟨w, hw, -, rfl⟩ := guarded_of_autoRegistered hrun hname addr hentry
  exact hswept w hw

/-- The actor 0 dies and its task removes the name, which the actor 1 has got meanwhile. Registered
once more, the actor 1 is found and alive. -/
theorem registered_again_alive :
    ∃ r : Registry Unit, run step new [.register "n" ⟨0, ()⟩, .die 0, .register "n" ⟨1, ()⟩,
        .notice 0, .sweep 0, .register "n" ⟨1, ()⟩] = some r ∧
      r.lookup () "n" = some ⟨1, ()⟩ ∧ (⟨1, ()⟩ : Addr Unit).id ∉ r.dead := by
  have hrun : (run step (new : Registry Unit) [.register "n" ⟨0, ()⟩, .die 0, .register "n" ⟨1, ()⟩,
      .notice 0, .sweep 0, .register "n" ⟨1, ()⟩]).map
      (fun r ↦ (r.lookup () "n", decide (∀ w ∈ r.sweepers, w.addr.id ∉ r.dead))) =
      some (some ⟨1, ()⟩, true) := by
    decide +kernel
  obtain ⟨r, hrun, hr⟩ := Option.map_eq_some_iff.mp hrun
  obtain ⟨hlookup, hswept⟩ := Prod.mk.inj hr
  have hname : AutoRegistered [.register "n" ⟨0, ()⟩, .die 0, .register "n" ⟨1, ()⟩, .notice 0,
      .sweep 0, .register "n" (⟨1, ()⟩ : Addr Unit)] "n" :=
    ⟨[.register "n" ⟨0, ()⟩, .die 0, .register "n" ⟨1, ()⟩, .notice 0, .sweep 0], _, [], rfl,
      by simp⟩
  exact ⟨r, hrun, hlookup, autoRegistered_alive hrun (of_decide_eq_true hswept) hname () hlookup⟩

end Registry

end Cineyma.Runtime
