import Cineyma.Foundations.Run

/-!
# Linearizability

Calls overlap, and each takes effect at one moment between its begin and its return.  When these
moments are known, the effects in their order are a linearization of the history that the callers
see: a legal run of the object that respects the order of calls that do not overlap.  A call that
fails has no effect, and effects may also belong to nobody.
-/

namespace Linearizability

open StepSystem

variable {κ ο ρ σ : Type*}

inductive Moment (κ ο ρ : Type*) where
  | call (c : κ) (o : ο)
  | effect (c : Option κ) (o : ο) (r : ρ)
  | ret (c : κ) (r : ρ)
  | fail (c : κ)
  deriving DecidableEq

/-- What the callers see. -/
def Moment.visible : Moment κ ο ρ → Bool
  | .effect .. => false
  | _ => true

def Moment.effect? : Moment κ ο ρ → Option (Option κ × ο × ρ)
  | .effect c o r => some (c, o, r)
  | _ => none

def history (w : List (Moment κ ο ρ)) : List (Moment κ ο ρ) := w.filter Moment.visible

def log (w : List (Moment κ ο ρ)) : List (Option κ × ο × ρ) := w.filterMap Moment.effect?

/-- The object may go from `s` to `t` by the operations, with these results. -/
def Legal (spec : σ → ο → ρ → σ → Prop) : σ → List (ο × ρ) → σ → Prop
  | s, [], t => s = t
  | s, (o, r) :: l, t => ∃ u, spec s o r u ∧ Legal spec u l t

/-- The entries of `l` are an order of the operations of the history in which they might have been
executed one after the other. -/
structure Linearizes (spec : σ → ο → ρ → σ → Prop) (s : σ) (h : List (Moment κ ο ρ))
    (l : List (Option κ × ο × ρ)) : Prop where
  legal : ∃ t, Legal spec s (l.map Prod.snd) t
  returned : ∀ c r, .ret c r ∈ h → ∃ o, .call c o ∈ h ∧ (some c, o, r) ∈ l
  failed : ∀ c o r, .fail c ∈ h → (some c, o, r) ∉ l
  genuine : ∀ c o r, (some c, o, r) ∈ l → .call c o ∈ h
  once : (l.filterMap Prod.fst).Nodup
  realTime : ∀ c d r o, [.ret c r, .call d o].Sublist h →
    ∀ o₁ r₁ o₂ r₂, (some c, o₁, r₁) ∈ l → (some d, o₂, r₂) ∈ l →
      [(some c, o₁, r₁), (some d, o₂, r₂)].Sublist l

section

variable {spec : σ → ο → ρ → σ → Prop} {s t : σ} {l l' : List (ο × ρ)}

theorem legal_append : Legal spec s (l ++ l') t ↔ ∃ u, Legal spec s l u ∧ Legal spec u l' t := by
  induction l generalizing s with
  | nil => simp [Legal]
  | cons x l ih =>
      obtain ⟨o, r⟩ := x
      simp only [List.cons_append, Legal, ih]
      constructor
      · rintro ⟨u, hspec, v, hl, hl'⟩
        exact ⟨v, ⟨u, hspec, hl⟩, hl'⟩
      · rintro ⟨v, ⟨u, hspec, hl⟩, hl'⟩
        exact ⟨u, hspec, v, hl, hl'⟩

end

/-! ## The moments at which calls take effect -/

variable {w w' pre post : List (Moment κ ο ρ)} {m : Moment κ ο ρ} {c d : κ} {o : ο} {r : ρ}

/-- The moment may come after those of `w`. -/
def Admissible (w : List (Moment κ ο ρ)) : Moment κ ο ρ → Prop
  | .call c _ => ∀ o, .call c o ∉ w
  | .effect (some c) o _ =>
      .call c o ∈ w ∧ (∀ o r, .effect (some c) o r ∉ w) ∧ .fail c ∉ w
  | .effect none _ _ => True
  | .ret c r => ∃ o, .effect (some c) o r ∈ w
  | .fail c => ∀ o r, .effect (some c) o r ∉ w

/-- Every call takes effect at most once, after its begin and before its return. -/
def Pointed (w : List (Moment κ ο ρ)) : Prop :=
  ∀ pre m post, w = pre ++ m :: post → Admissible pre m

theorem pointed_nil : Pointed ([] : List (Moment κ ο ρ)) := by
  intro pre m post h
  simp at h

theorem Pointed.concat (hw : Pointed w) (hm : Admissible w m) : Pointed (w ++ [m]) := by
  intro pre m' post h
  rcases concat_eq_append_cons h with ⟨rest, rfl⟩ | ⟨rfl, rfl⟩
  · exact hw pre m' rest rfl
  · exact hm

theorem Pointed.of_append (h : Pointed (w ++ w')) : Pointed w := by
  rintro pre m post rfl
  exact h pre m (post ++ w') (by simp)

@[simp] theorem log_append : log (w ++ w') = log w ++ log w' :=
  List.filterMap_append

theorem mem_history : m ∈ history w ↔ m ∈ w ∧ m.visible = true :=
  List.mem_filter

theorem mem_log {x : Option κ × ο × ρ} : x ∈ log w ↔ .effect x.1 x.2.1 x.2.2 ∈ w := by
  obtain ⟨c, o, r⟩ := x
  simp only [log, List.mem_filterMap]
  constructor
  · rintro ⟨m, hm, heffect⟩
    cases m with
    | effect => cases heffect; exact hm
    | _ => cases heffect
  · intro h
    exact ⟨_, h, rfl⟩

theorem Pointed.call_mem (hw : Pointed w) (h : .effect (some c) o r ∈ w) : .call c o ∈ w := by
  obtain ⟨pre, post, rfl⟩ := List.append_of_mem h
  exact List.mem_append_left _ (hw pre _ post rfl).1

theorem Pointed.call_unique {o' : ο} (hw : Pointed w) (h : .call c o ∈ w) (h' : .call c o' ∈ w) :
    o = o' := by
  obtain ⟨pre, post, rfl⟩ := List.append_of_mem h
  rcases List.mem_append.mp h' with hpre | hpost
  · exact absurd hpre (hw pre _ post rfl o')
  · rcases List.mem_cons.mp hpost with heq | hpost
    · cases heq
      rfl
    · obtain ⟨mid, rest, rfl⟩ := List.append_of_mem hpost
      have hlater := hw (pre ++ .call c o :: mid) (.call c o') rest (by simp)
      exact absurd (by simp) (hlater o)

/-- The one effect of a call. -/
theorem Pointed.effect_unique {o' : ο} {r' : ρ} (hw : Pointed w) (h : .effect (some c) o r ∈ w)
    (h' : .effect (some c) o' r' ∈ w) : o = o' ∧ r = r' := by
  obtain ⟨pre, post, rfl⟩ := List.append_of_mem h
  rcases List.mem_append.mp h' with hpre | hpost
  · exact absurd hpre ((hw pre _ post rfl).2.1 o' r')
  · rcases List.mem_cons.mp hpost with heq | hpost
    · cases heq
      exact ⟨rfl, rfl⟩
    · obtain ⟨mid, rest, rfl⟩ := List.append_of_mem hpost
      have hlater := hw (pre ++ .effect (some c) o r :: mid) (.effect (some c) o' r') rest (by simp)
      exact absurd (by simp) (hlater.2.1 o r)

/-- A call begins once: its effect is after every begin. -/
theorem Pointed.effect_after_call {o' : ο} (hw : Pointed (pre ++ post)) (hcall : .call c o ∈ post)
    (heffect : .effect (some c) o' r ∈ pre ++ post) : .effect (some c) o' r ∈ post := by
  rcases List.mem_append.mp heffect with hpre | hpost
  · obtain ⟨mid, rest, rfl⟩ := List.append_of_mem hcall
    have honce := hw (pre ++ mid) (.call c o) rest (by simp)
    exact absurd (List.mem_append_left mid (hw.of_append.call_mem hpre)) (honce o')
  · exact hpost

theorem Pointed.once (hw : Pointed w) : ((log w).filterMap Prod.fst).Nodup := by
  induction w using List.reverseRecOn with
  | nil => exact List.nodup_nil
  | append_singleton w m ih =>
      rw [log_append, List.filterMap_append]
      refine List.Nodup.append (ih hw.of_append) ?_ ?_
      · cases m with
        | effect c =>
            cases c with
            | none => exact List.nodup_nil
            | some c => exact List.nodup_singleton c
        | _ => exact List.nodup_nil
      · intro c hc hlast
        obtain ⟨⟨x, o, r⟩, hx, rfl⟩ := List.mem_filterMap.mp hc
        cases m with
        | effect d o' r' =>
            obtain rfl : d = some c := by
              cases d <;> simp_all [log, Moment.effect?]
            exact (hw w _ [] rfl).2.1 o r (mem_log.mp hx)
        | _ => simp [log, Moment.effect?] at hlast

/-- The order of the effects is a linearization of what the callers see. -/
theorem Pointed.linearizes {spec : σ → ο → ρ → σ → Prop} {s t : σ} (hw : Pointed w)
    (hlegal : Legal spec s ((log w).map Prod.snd) t) : Linearizes spec s (history w) (log w) where
  legal := ⟨t, hlegal⟩
  returned := by
    intro c r hret
    obtain ⟨pre, post, rfl⟩ := List.append_of_mem (mem_history.mp hret).1
    obtain ⟨o, ho⟩ := hw pre _ post rfl
    have heffect : .effect (some c) o r ∈ pre ++ .ret c r :: post := List.mem_append_left _ ho
    exact ⟨o, mem_history.mpr ⟨hw.call_mem heffect, rfl⟩, mem_log.mpr heffect⟩
  failed := by
    intro c o r hfail heffect
    obtain ⟨pre, post, rfl⟩ := List.append_of_mem (mem_history.mp hfail).1
    rcases List.mem_append.mp (mem_log.mp heffect) with hpre | hpost
    · exact hw pre _ post rfl o r hpre
    · rcases List.mem_cons.mp hpost with heq | hpost
      · cases heq
      · obtain ⟨mid, rest, rfl⟩ := List.append_of_mem hpost
        have hlater := hw (pre ++ .fail c :: mid) (.effect (some c) o r) rest (by simp)
        exact absurd (by simp) hlater.2.2
  genuine := by
    intro c o r heffect
    exact mem_history.mpr ⟨hw.call_mem (mem_log.mp heffect), rfl⟩
  once := hw.once
  realTime := by
    intro c d r o hbefore o₁ r₁ o₂ r₂ hc hd
    obtain ⟨first, second, rfl, hret, hcall⟩ :=
      List.cons_sublist_iff.mp (hbefore.trans List.filter_sublist)
    rw [mem_log] at hc hd
    -- the effect of `c` is before its return, and that of `d` after its begin
    have hfirst : .effect (some c) o₁ r₁ ∈ first := by
      obtain ⟨pre, post, rfl⟩ := List.append_of_mem hret
      obtain ⟨o', ho'⟩ := hw.of_append pre _ post rfl
      have hmem : .effect (some c) o' r ∈ pre ++ .ret c r :: post := List.mem_append_left _ ho'
      obtain ⟨rfl, rfl⟩ := hw.effect_unique (List.mem_append_left second hmem) hc
      exact hmem
    have hsecond : .effect (some d) o₂ r₂ ∈ second :=
      hw.effect_after_call (List.singleton_sublist.mp hcall) hd
    rw [log_append]
    refine List.cons_sublist_iff.mpr ⟨log first, log second, rfl, mem_log.mpr hfirst, ?_⟩
    exact List.singleton_sublist.mpr (mem_log.mpr hsecond)

/-! ## Linearizations by another object -/

section Simulation

variable {τ : Type*} {spec : σ → ο → ρ → σ → Prop} {spec' : τ → ο → ρ → τ → Prop}
  {R : σ → τ → Prop} {s t : σ} {a : τ}

/-- The object `spec'` follows `spec` step by step. -/
theorem Legal.simulate
    (hsim : ∀ s a o r t, R s a → spec s o r t → ∃ b, spec' a o r b ∧ R t b) {l : List (ο × ρ)}
    (hR : R s a) (h : Legal spec s l t) : ∃ b, Legal spec' a l b ∧ R t b := by
  induction l generalizing s a with
  | nil =>
      cases h
      exact ⟨a, rfl, hR⟩
  | cons x l ih =>
      obtain ⟨u, hspec, hrest⟩ := h
      obtain ⟨b, hb, hub⟩ := hsim s a x.1 x.2 u hR hspec
      obtain ⟨b', hlegal, hR'⟩ := ih hub hrest
      exact ⟨b', ⟨b, hb, hlegal⟩, hR'⟩

theorem Linearizes.simulate
    (hsim : ∀ s a o r t, R s a → spec s o r t → ∃ b, spec' a o r b ∧ R t b)
    {h : List (Moment κ ο ρ)} {l : List (Option κ × ο × ρ)} (hR : R s a)
    (hl : Linearizes spec s h l) : Linearizes spec' a h l := by
  obtain ⟨⟨t, hlegal⟩, hreturned, hfailed, hgenuine, honce, hrealTime⟩ := hl
  obtain ⟨b, hlegal', -⟩ := hlegal.simulate hsim hR
  exact ⟨⟨b, hlegal'⟩, hreturned, hfailed, hgenuine, honce, hrealTime⟩

end Simulation

/-! ## Reasoning from a linearization -/

theorem split_of_pair_sublist {α : Type*} {xs : List α} {a b : α} (h : [a, b].Sublist xs) :
    ∃ l₁ l₂ l₃, xs = l₁ ++ a :: l₂ ++ b :: l₃ := by
  obtain ⟨first, second, rfl, ha, hb⟩ := List.cons_sublist_iff.mp h
  obtain ⟨l₁, l₂, rfl⟩ := List.append_of_mem ha
  obtain ⟨l₂', l₃, rfl⟩ := List.append_of_mem (List.singleton_sublist.mp hb)
  exact ⟨l₁, l₂ ++ l₂', l₃, by simp⟩

theorem not_sublist_swap {α : Type*} {xs : List α} {a b : α} (hxs : xs.Nodup)
    (hab : [a, b].Sublist xs) : ¬ [b, a].Sublist xs := by
  obtain ⟨first, second, rfl, ha, hb⟩ := List.cons_sublist_iff.mp hab
  rw [List.singleton_sublist] at hb
  have hdisjoint := List.disjoint_of_nodup_append hxs
  intro hba
  obtain ⟨left, right, heq, hleft, hright⟩ := List.sublist_append_iff.mp hba
  cases left with
  | nil =>
      rw [List.nil_append] at heq
      subst heq
      exact hdisjoint ha (hright.subset (by simp))
  | cons x left =>
      obtain ⟨rfl, -⟩ := List.cons_eq_cons.mp heq
      exact hdisjoint (hleft.subset (by simp)) hb

section

variable {spec : σ → ο → ρ → σ → Prop} {s : σ} {h : List (Moment κ ο ρ)}
  {l l₁ l₂ l₃ : List (Option κ × ο × ρ)} {o₁ o₂ o₃ : ο} {r₁ r₂ r₃ : ρ} {b : κ}

theorem Linearizes.not_swapped (hl : Linearizes spec s h l)
    (hbefore : [(some c, o₁, r₁), (some d, o₂, r₂)].Sublist l) (r : ρ) (o : ο) :
    ¬ [.ret d r, .call c o].Sublist h := by
  intro hh
  have hswap := hl.realTime d c r o hh o₂ r₂ o₁ r₁ (hbefore.subset (by simp))
    (hbefore.subset (by simp))
  exact not_sublist_swap hl.once (hbefore.filterMap Prod.fst) (hswap.filterMap Prod.fst)

/-- An operation that takes effect between those of two calls overlaps one of them or the time
between. -/
theorem Linearizes.of_between (hl : Linearizes spec s h l)
    (hsplit : l = l₁ ++ (some c, o₁, r₁) :: l₂ ++ (some d, o₂, r₂) :: l₃)
    (hb : (some b, o₃, r₃) ∈ l₂) :
    b ≠ c ∧ b ≠ d ∧ .call b o₃ ∈ h ∧ .fail b ∉ h ∧ (∀ r o, ¬ [.ret b r, .call c o].Sublist h) ∧
      ∀ r o, ¬ [.ret d r, .call b o].Sublist h := by
  have hcb : [(some c, o₁, r₁), (some b, o₃, r₃)].Sublist l := by
    rw [hsplit, List.append_assoc]
    refine List.sublist_append_of_sublist_right (List.Sublist.cons_cons _ ?_)
    exact List.singleton_sublist.mpr (List.mem_append_left _ hb)
  have hbd : [(some b, o₃, r₃), (some d, o₂, r₂)].Sublist l := by
    rw [hsplit]
    refine List.cons_sublist_iff.mpr ⟨_, _, rfl, ?_, List.singleton_sublist.mpr (by simp)⟩
    exact List.mem_append_right _ (List.mem_cons_of_mem _ hb)
  have hne : ∀ {x y : κ} {o o' : ο} {r r' : ρ},
      [(some x, o, r), (some y, o', r')].Sublist l → x ≠ y := by
    rintro x y o o' r r' hxy rfl
    have hnodup := hl.once.sublist (hxy.filterMap Prod.fst)
    simp at hnodup
  have hmem : (some b, o₃, r₃) ∈ l := hbd.subset (by simp)
  refine ⟨(hne hcb).symm, hne hbd, hl.genuine b o₃ r₃ hmem, fun hfail ↦ ?_, ?_, ?_⟩
  · exact hl.failed b o₃ r₃ hfail hmem
  · exact hl.not_swapped hcb
  · exact hl.not_swapped hbd

end

end Linearizability
