import Mathlib

/-!
# Sliding windows

A limiter answers events one by one. `grant` grants an event if fewer than `limit` of those granted
so far fit into the window that ends with it; it decides by the whole history. `record` decides by a
log from which it deletes whatever no longer fits. On events in the order of time nobody can tell
them apart, and no window contains more than `limit` granted events.
-/

namespace SlidingWindow

variable {σ ρ τ : Type*}

/-! ## Limiters -/

/-- The state after some events. -/
def after (f : σ → τ → σ × Bool) (s : σ) (times : List τ) : σ :=
  times.foldl (fun s now ↦ (f s now).1) s

def answers (f : σ → τ → σ × Bool) : σ → List τ → List Bool
  | _, [] => []
  | s, now :: times => (f s now).2 :: answers f (f s now).1 times

/-- The events that were granted. -/
def granted (f : σ → τ → σ × Bool) : σ → List τ → List τ
  | _, [] => []
  | s, now :: times =>
      if (f s now).2 then now :: granted f (f s now).1 times else granted f (f s now).1 times

section

variable {f : σ → τ → σ × Bool} {s : σ} {times : List τ} {now : τ}

@[simp] theorem after_concat : after f s (times ++ [now]) = (f (after f s times) now).1 := by
  rw [after, List.foldl_append]
  rfl

theorem granted_concat :
    granted f s (times ++ [now]) =
      granted f s times ++ if (f (after f s times) now).2 then [now] else [] := by
  induction times generalizing s with
  | nil =>
      by_cases hnow : (f s now).2 = true <;> simp [granted, after, hnow]
  | cons first times ih =>
      have hafter : after f s (first :: times) = after f (f s first).1 times := rfl
      rw [List.cons_append, granted, granted, ih, hafter]
      split <;> rfl

theorem answers_concat :
    answers f s (times ++ [now]) = answers f s times ++ [(f (after f s times) now).2] := by
  induction times generalizing s with
  | nil => rfl
  | cons first times ih =>
      rw [List.cons_append, answers, answers, ih]
      rfl

theorem granted_sublist : (granted f s times).Sublist times := by
  induction times generalizing s with
  | nil => exact List.Sublist.refl []
  | cons first times ih =>
      rw [granted]
      split
      · exact ih.cons_cons first
      · exact ih.cons first

/-- A limiter with another representation of the state. -/
theorem after_map {g : ρ → τ → ρ × Bool} {rep : ρ → σ}
    (h : ∀ r now, f (rep r) now = (rep (g r now).1, (g r now).2)) (r : ρ) (times : List τ) :
    after f (rep r) times = rep (after g r times) := by
  induction times generalizing r with
  | nil => rfl
  | cons first times ih =>
      change after f (f (rep r) first).1 times = rep (after g (g r first).1 times)
      rw [h, ih]

theorem granted_map {g : ρ → τ → ρ × Bool} {rep : ρ → σ}
    (h : ∀ r now, f (rep r) now = (rep (g r now).1, (g r now).2)) (r : ρ) (times : List τ) :
    granted f (rep r) times = granted g r times := by
  induction times generalizing r with
  | nil => rfl
  | cons first times ih => rw [granted, granted, h, ih]

theorem answers_map {g : ρ → τ → ρ × Bool} {rep : ρ → σ}
    (h : ∀ r now, f (rep r) now = (rep (g r now).1, (g r now).2)) (r : ρ) (times : List τ) :
    answers f (rep r) times = answers g r times := by
  induction times generalizing r with
  | nil => rfl
  | cons first times ih => rw [answers, answers, h, ih]

end

/-! ## The two limiters -/

variable (fits : τ → τ → Bool) (limit : ℕ)

def grant (history : List τ) (now : τ) : List τ × Bool :=
  if history.countP (fits now) < limit then (history ++ [now], true) else (history, false)

def record (log : List τ) (now : τ) : List τ × Bool :=
  let recent := log.filter (fits now)
  if recent.length < limit then (recent ++ [now], true) else (recent, false)

variable {fits limit} {log times pre post : List τ} {now later : τ}

theorem record_snd :
    (record fits limit log now).2 = decide ((log.filter (fits now)).length < limit) := by
  simp only [record]
  split <;> simp [*]

theorem record_fst :
    (record fits limit log now).1 =
      log.filter (fits now) ++ if (record fits limit log now).2 then [now] else [] := by
  simp only [record]
  split <;> simp

theorem length_record_le (hlog : log.length ≤ limit) :
    (record fits limit log now).1.length ≤ limit := by
  simp only [record]
  split
  · rw [List.length_append]
    assumption
  · exact (List.length_filter_le _ _).trans hlog

theorem length_after_record_le (fits : τ → τ → Bool) (limit : ℕ) (times : List τ) :
    (after (record fits limit) [] times).length ≤ limit := by
  induction times using List.reverseRecOn with
  | nil => exact Nat.zero_le limit
  | append_singleton times now ih =>
      rw [after_concat]
      exact length_record_le ih

/-- The history of `grant` is what it granted. -/
theorem after_grant (fits : τ → τ → Bool) (limit : ℕ) (times : List τ) :
    after (grant fits limit) [] times = granted (grant fits limit) [] times := by
  induction times using List.reverseRecOn with
  | nil => rfl
  | append_singleton times now ih =>
      rw [after_concat, granted_concat, ← ih, grant]
      split <;> simp

/-! ## Events in the order of time -/

section

variable [Preorder τ]

/-- What fits later fits earlier. -/
def Ageing (fits : τ → τ → Bool) : Prop :=
  ∀ now later t, now ≤ later → fits later t = true → fits now t = true

variable (hfits : Ageing fits)

include hfits

theorem filter_filter_fits (hle : now ≤ later) (log : List τ) :
    (log.filter (fits now)).filter (fits later) = log.filter (fits later) := by
  rw [List.filter_filter]
  apply List.filter_congr
  intro t _
  cases hlater : fits later t with
  | false => rfl
  | true => simp [hfits now later t hle hlater]

/-- To delete what no longer fits makes no difference to a later event. -/
theorem record_filter (hle : now ≤ later) (log : List τ) :
    record fits limit (log.filter (fits now)) later = record fits limit log later := by
  simp only [record, filter_filter_fits hfits hle]

/-- A refused event leaves no trace in the answers to later ones. -/
theorem answers_after_refusal (hrefused : (record fits limit log now).2 = false)
    (hpost : ∀ t ∈ post, now ≤ t) :
    answers (record fits limit) (record fits limit log now).1 post =
      answers (record fits limit) log post := by
  have hlog : (record fits limit log now).1 = log.filter (fits now) := by
    rw [record_fst, hrefused]
    simp
  cases post with
  | nil => rfl
  | cons later post =>
      rw [hlog, answers, answers, record_filter hfits (hpost later (by simp))]

/-- The log agrees with the history as far as the window of an event can see. -/
theorem filter_after_record (hordered : times.Pairwise (· ≤ ·)) (hnow : ∀ t ∈ times, t ≤ now) :
    (after (record fits limit) [] times).filter (fits now) =
      (granted (record fits limit) [] times).filter (fits now) := by
  induction times using List.reverseRecOn generalizing now with
  | nil => rfl
  | append_singleton times last ih =>
      obtain ⟨hbefore, -, hlast⟩ := List.pairwise_append.mp hordered
      have hle : last ≤ now := hnow last (by simp)
      have hagree := ih hbefore fun t ht ↦ hlast t ht last (by simp)
      rw [after_concat, granted_concat, record_fst, List.filter_append, List.filter_append,
        hagree, filter_filter_fits hfits hle]

/-- An event is granted if and only if fewer than `limit` of all that were granted before it fit. -/
theorem record_snd_iff (hordered : pre.Pairwise (· ≤ ·)) (hnow : ∀ t ∈ pre, t ≤ now) :
    (record fits limit (after (record fits limit) [] pre) now).2 = true ↔
      (granted (record fits limit) [] pre).countP (fits now) < limit := by
  rw [record_snd, decide_eq_true_eq, filter_after_record hfits hordered hnow,
    List.countP_eq_length_filter]

/-- The log is the part of the history that fits into the window of the last event. -/
theorem after_record_concat (hrefl : fits now now = true) (hordered : pre.Pairwise (· ≤ ·))
    (hnow : ∀ t ∈ pre, t ≤ now) :
    after (record fits limit) [] (pre ++ [now]) =
      (granted (record fits limit) [] (pre ++ [now])).filter (fits now) := by
  rw [after_concat, granted_concat, record_fst, filter_after_record hfits hordered hnow,
    List.filter_append]
  split <;> simp [hrefl]

theorem record_snd_eq (hordered : pre.Pairwise (· ≤ ·)) (hnow : ∀ t ∈ pre, t ≤ now)
    (hgranted : granted (record fits limit) [] pre = granted (grant fits limit) [] pre) :
    (record fits limit (after (record fits limit) [] pre) now).2 =
      (grant fits limit (after (grant fits limit) [] pre) now).2 := by
  rw [Bool.eq_iff_iff, record_snd_iff hfits hordered hnow, after_grant, hgranted, grant]
  split <;> simp [*]

theorem granted_record (hordered : times.Pairwise (· ≤ ·)) :
    granted (record fits limit) [] times = granted (grant fits limit) [] times := by
  induction times using List.reverseRecOn with
  | nil => rfl
  | append_singleton times now ih =>
      obtain ⟨hbefore, -, hlast⟩ := List.pairwise_append.mp hordered
      have hnow : ∀ t ∈ times, t ≤ now := fun t ht ↦ hlast t ht now (by simp)
      rw [granted_concat, granted_concat, ih hbefore, record_snd_eq hfits hbefore hnow (ih hbefore)]

/-- To forget what no longer fits is not noticed. -/
theorem answers_record (hordered : times.Pairwise (· ≤ ·)) :
    answers (record fits limit) [] times = answers (grant fits limit) [] times := by
  induction times using List.reverseRecOn with
  | nil => rfl
  | append_singleton times now ih =>
      obtain ⟨hbefore, -, hlast⟩ := List.pairwise_append.mp hordered
      have hnow : ∀ t ∈ times, t ≤ now := fun t ht ↦ hlast t ht now (by simp)
      rw [answers_concat, answers_concat, ih hbefore,
        record_snd_eq hfits hbefore hnow (granted_record hfits hbefore)]

/-- A window holds at most `limit` granted events: when the last of them came, the others fit. -/
theorem countP_granted_le {window : τ → Bool}
    (hwindow : ∀ a b, a ≤ b → window a = true → window b = true → fits b a = true)
    (hordered : times.Pairwise (· ≤ ·)) :
    (granted (record fits limit) [] times).countP window ≤ limit := by
  induction times using List.reverseRecOn with
  | nil => exact Nat.zero_le limit
  | append_singleton times now ih =>
      obtain ⟨hbefore, -, hlast⟩ := List.pairwise_append.mp hordered
      have hnow : ∀ t ∈ times, t ≤ now := fun t ht ↦ hlast t ht now (by simp)
      rw [granted_concat, List.countP_append]
      by_cases hin : (record fits limit (after (record fits limit) [] times) now).2 = true ∧
          window now = true
      · have hroom := (record_snd_iff hfits hbefore hnow).mp hin.1
        have hsub : (granted (record fits limit) [] times).countP window ≤
            (granted (record fits limit) [] times).countP (fits now) := by
          apply List.countP_mono_left
          intro t ht hwt
          exact hwindow t now (hnow t (granted_sublist.subset ht)) hwt hin.2
        rw [if_pos hin.1, List.countP_singleton, if_pos hin.2]
        omega
      · have hnone : (if (record fits limit (after (record fits limit) [] times) now).2 then [now]
            else []).countP window = 0 := by
          split <;> simp_all
        rw [hnone]
        exact ih hbefore

end

end SlidingWindow
