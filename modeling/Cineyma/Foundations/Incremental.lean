import Mathlib

/-!
# Parsers that are fed in pieces

A parser takes one item off the front of its buffer, or waits until more input has come. When an
item does not depend on what follows it, the items of an input and what is left of it in the end do
not depend on how the input was cut.
-/

namespace Incremental

variable {β ρ : Type*}

/-- `next` is the item at the front of the buffer, with the rest, if it is complete. -/
structure Parser (β ρ : Type*) where
  next : List β → Option (ρ × List β)
  shrinks : ∀ {s : List β} {r : ρ} {t : List β}, next s = some (r, t) → t.length < s.length
  stable : ∀ {s : List β} {r : ρ} {t : List β} (u : List β), next s = some (r, t) →
    next (s ++ u) = some (r, t ++ u)

namespace Parser

variable (P : Parser β ρ)

theorem next_nil : P.next [] = none := by
  cases h : P.next [] with
  | none => rfl
  | some p => exact absurd (P.shrinks h) (Nat.not_lt_zero _)

/-- All complete items of the buffer, and what is left. -/
def drain (s : List β) : List ρ × List β :=
  match _h : P.next s with
  | none => ([], s)
  | some (r, t) => (r :: (drain t).1, (drain t).2)
termination_by s.length
decreasing_by all_goals exact P.shrinks (by assumption)

variable {P} {s t u : List β} {r : ρ}

theorem drain_of_none (h : P.next s = none) : P.drain s = ([], s) := by
  rw [drain]
  split
  · rfl
  · rename_i h'
    cases h.symm.trans h'

theorem drain_of_some (h : P.next s = some (r, t)) :
    P.drain s = (r :: (P.drain t).1, (P.drain t).2) := by
  rw [drain]
  split
  · rename_i h'
    cases h.symm.trans h'
  · rename_i h'
    cases h.symm.trans h'
    rfl

/-- The loop of a drain, for proofs by induction. -/
theorem drain_induction {motive : List β → Prop} (hnone : ∀ s, P.next s = none → motive s)
    (hsome : ∀ s r t, P.next s = some (r, t) → motive t → motive s) (s : List β) : motive s := by
  induction hlength : s.length using Nat.strong_induction_on generalizing s with
  | _ n ih =>
      cases h : P.next s with
      | none => exact hnone s h
      | some p =>
          obtain ⟨r, t⟩ := p
          exact hsome s r t h (ih t.length (hlength ▸ P.shrinks h) t rfl)

theorem next_drain (s : List β) : P.next (P.drain s).2 = none := by
  induction s using P.drain_induction with
  | hnone s h => rwa [drain_of_none h]
  | hsome s r t h ih => rwa [drain_of_some h]

/-- What was left is taken up again when more input has come. -/
theorem drain_append (s u : List β) :
    P.drain (s ++ u) =
      ((P.drain s).1 ++ (P.drain ((P.drain s).2 ++ u)).1, (P.drain ((P.drain s).2 ++ u)).2) := by
  induction s using P.drain_induction with
  | hnone s h => rw [drain_of_none h, List.nil_append]
  | hsome s r t h ih => rw [drain_of_some (P.stable u h), ih, drain_of_some h, List.cons_append]

variable (P)

/-- Each chunk is appended to the buffer, which is then drained. -/
def feed : List β → List (List β) → List ρ × List β
  | buffer, [] => ([], buffer)
  | buffer, chunk :: chunks =>
      ((P.drain (buffer ++ chunk)).1 ++ (feed (P.drain (buffer ++ chunk)).2 chunks).1,
        (feed (P.drain (buffer ++ chunk)).2 chunks).2)

variable {P}

theorem feed_of_none {buffer : List β} (h : P.next buffer = none) (chunks : List (List β)) :
    P.feed buffer chunks = P.drain (buffer ++ chunks.flatten) := by
  induction chunks generalizing buffer with
  | nil => rw [List.flatten_nil, List.append_nil, drain_of_none h, feed]
  | cons chunk chunks ih =>
      rw [feed, ih (next_drain _), List.flatten_cons, ← List.append_assoc,
        drain_append (buffer ++ chunk)]

theorem feed_nil (chunks : List (List β)) : P.feed [] chunks = P.drain chunks.flatten :=
  feed_of_none P.next_nil chunks

/-- Items one after the other are parsed one after the other. -/
theorem drain_flatMap {α : Type*} {f : α → List β} {g : α → ρ} {xs : List α}
    (h : ∀ x ∈ xs, P.next (f x) = some (g x, [])) : P.drain (xs.flatMap f) = (xs.map g, []) := by
  induction xs with
  | nil => exact drain_of_none P.next_nil
  | cons x xs ih =>
      have hnext := P.stable (xs.flatMap f) (h x (List.mem_cons_self ..))
      rw [List.flatMap_cons, drain_of_some hnext, List.nil_append,
        ih fun y hy ↦ h y (List.mem_cons_of_mem x hy), List.map_cons]

/-- What is parsed from the front of some items is the first of them. -/
theorem next_of_append {α : Type*} {f : α → List β} {g : α → ρ} {xs : List α}
    (h : ∀ x ∈ xs, P.next (f x) = some (g x, [])) (hs : s ++ u = xs.flatMap f)
    (hnext : P.next s = some (r, t)) :
    ∃ x ys, xs = x :: ys ∧ r = g x ∧ t ++ u = ys.flatMap f := by
  have hall := P.stable u hnext
  rw [hs] at hall
  cases xs with
  | nil =>
      rw [List.flatMap_nil, next_nil] at hall
      cases hall
  | cons x ys =>
      have hx := P.stable (ys.flatMap f) (h x (List.mem_cons_self ..))
      rw [List.flatMap_cons, hx, List.nil_append, Option.some_inj, Prod.mk.injEq] at hall
      exact ⟨x, ys, rfl, hall.1.symm, hall.2.symm⟩

end Parser

end Incremental
