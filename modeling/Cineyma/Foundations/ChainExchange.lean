import Mathlib

/-!
# Pairwise exchange along a chain

Views are combined by an operation `op x y` in which `x` has the last word: it is
associative, idempotent, and a view that was already overridden adds nothing when
it comes again.  When neighbours on a chain combine their views from left to right
and then from right to left, all end with the combination of all views.  Nothing is
assumed about commutativity.
-/

namespace ChainExchange

variable {V : Type*}

/-- A left regular band. -/
structure LeftRegular (op : V → V → V) : Prop where
  assoc : ∀ x y z, op (op x y) z = op x (op y z)
  idem : ∀ x, op x x = x
  absorb : ∀ x y, op (op x y) x = op x y

/-- Each party combines its view with the next one, and both keep the result. -/
def forward (op : V → V → V) : V → List V → List V
  | x, [] => [x]
  | x, y :: rest => op x y :: forward op (op x y) rest

/-- Each party combines its view with the previous one, starting from the last. -/
def backward (op : V → V → V) : List V → List V
  | [] => []
  | x :: rest => match backward op rest with
    | [] => [x]
    | y :: rest' => op y x :: op y x :: rest'

variable {op : V → V → V}

theorem backward_cons_of_eq_cons (x : V) {y : V} {rest out : List V}
    (h : backward op rest = y :: out) :
    backward op (x :: rest) = op y x :: op y x :: out := by
  rw [backward, h]

theorem LeftRegular.absorb_op (h : LeftRegular op) {x y : V} (z : V) (hxy : op x y = x) :
    op (op x z) y = op x z := by
  calc
    op (op x z) y = op (op (op x y) z) y := by rw [hxy]
    _ = op x (op (op y z) y) := by rw [h.assoc x y z, h.assoc x (op y z) y]
    _ = op (op x y) z := by rw [h.absorb, h.assoc]
    _ = op x z := by rw [hxy]

theorem LeftRegular.foldl_absorb (h : LeftRegular op) (x : V) (rest : List V) :
    op (rest.foldl op x) x = rest.foldl op x := by
  induction rest using List.reverseRecOn with
  | nil => exact h.idem x
  | append_singleton rest y ih =>
      rw [List.foldl_append, List.foldl_cons, List.foldl_nil]
      exact h.absorb_op y ih

/-- After the forward pass every view is part of the combination of all of them,
and the last party has that combination. -/
theorem forward_spec (h : LeftRegular op) (x : V) (rest : List V) :
    (forward op x rest).getLast? = some (rest.foldl op x) ∧
      ∀ v ∈ forward op x rest, op (rest.foldl op x) v = rest.foldl op x := by
  induction rest generalizing x with
  | nil => simp [forward, h.idem]
  | cons y rest ih =>
      obtain ⟨hlast, hall⟩ := ih (op x y)
      refine ⟨?_, ?_⟩
      · rw [forward, List.foldl_cons, List.getLast?_cons, hlast, Option.getD_some]
      · intro v hv
        rw [List.foldl_cons]
        rcases List.mem_cons.mp hv with rfl | hv
        · exact h.foldl_absorb (op x y) rest
        · exact hall v hv

/-- The backward pass spreads the view of the last party over the chain. -/
theorem backward_spec {views : List V} {full : V}
    (hlast : views.getLast? = some full) (hall : ∀ v ∈ views, op full v = full) :
    backward op views = List.replicate views.length full := by
  induction views with
  | nil => rfl
  | cons x rest ih =>
      cases rest with
      | nil =>
          rw [List.getLast?_singleton, Option.some.injEq] at hlast
          subst hlast
          rfl
      | cons y rest =>
          have hrest := ih hlast fun v hv ↦ hall v (List.mem_cons_of_mem x hv)
          rw [List.length_cons, List.replicate_succ] at hrest
          rw [backward_cons_of_eq_cons x hrest, hall x List.mem_cons_self]
          rfl

theorem backward_forward (h : LeftRegular op) (x : V) (rest : List V) :
    backward op (forward op x rest) =
      List.replicate (forward op x rest).length (rest.foldl op x) :=
  backward_spec (forward_spec h x rest).1 (forward_spec h x rest).2

end ChainExchange
