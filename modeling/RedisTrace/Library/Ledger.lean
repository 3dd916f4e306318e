import Mathlib.Data.List.Basic

/-!
The lives of a place that is acquired, filled and cleared by turns, and
released. A record of what was done to the place is read by an automaton; the
automaton gets through it, and ends where it began, exactly when the record is
a sequence of whole lives.
-/

namespace Ledger

inductive Act where
  | acquire
  | fill
  | clear
  | release
  deriving DecidableEq, Repr

inductive Phase where
  | gone
  | empty
  | full
  deriving DecidableEq, Repr

/-- What an act makes of the place, where it is allowed. -/
def next : Phase → Act → Option Phase
  | .gone, .acquire => some .empty
  | .empty, .fill => some .full
  | .full, .clear => some .empty
  | .empty, .release => some .gone
  | _, _ => none

def after : Phase → List Act → Option Phase
  | p, [] => some p
  | p, act :: acts => (next p act).bind (fun q => after q acts)

/-- A whole life, with `n` contents. -/
def life (n : Nat) : List Act :=
  .acquire :: (List.replicate n [.fill, .clear]).flatten ++ [.release]

theorem after_append (p : Phase) (acts acts' : List Act) :
    after p (acts ++ acts') = (after p acts).bind (fun q => after q acts') := by
  induction acts generalizing p with
  | nil => rfl
  | cons act acts ih =>
      simp only [List.cons_append, after]
      cases next p act with
      | none => rfl
      | some q => exact ih q

theorem after_turns (n : Nat) (acts : List Act) :
    after .empty ((List.replicate n [.fill, .clear]).flatten ++ acts) = after .empty acts := by
  induction n with
  | zero => rfl
  | succ n ih => simpa [List.replicate_succ, after, next] using ih

theorem after_lives (ns : List Nat) : after .gone (ns.flatMap life) = some .gone := by
  induction ns with
  | nil => rfl
  | cons n ns ih =>
      have hlife : after .gone (life n) = some .gone := by
        have hturns := after_turns n [.release]
        simpa [life, after, next] using hturns
      rw [List.flatMap_cons, after_append, hlife]
      exact ih

/-- What may follow when the place is to be gone in the end. -/
def Rest : Phase → List Act → Prop
  | .gone, acts => ∃ ns : List Nat, acts = ns.flatMap life
  | .empty, acts => ∃ (n : Nat) (ns : List Nat), acts =
      (List.replicate n [.fill, .clear]).flatten ++ .release :: ns.flatMap life
  | .full, acts => ∃ (n : Nat) (ns : List Nat), acts =
      .clear :: (List.replicate n [.fill, .clear]).flatten ++ .release :: ns.flatMap life

/-- The induction is on the record; the first act decides which phase the rest
is read in. -/
theorem rest_of_after {p : Phase} {acts : List Act} (hafter : after p acts = some .gone) :
    Rest p acts := by
  induction acts generalizing p with
  | nil =>
      cases hafter
      exact ⟨[], rfl⟩
  | cons act acts ih =>
      cases p with
      | gone =>
          cases act with
          | acquire =>
              obtain ⟨n, ns, rfl⟩ := ih hafter
              exact ⟨n :: ns, by simp [life]⟩
          | fill | clear | release => cases hafter
      | empty =>
          cases act with
          | fill =>
              obtain ⟨n, ns, rfl⟩ := ih hafter
              exact ⟨n + 1, ns, by simp [List.replicate_succ]⟩
          | release =>
              obtain ⟨ns, rfl⟩ := ih hafter
              exact ⟨0, ns, rfl⟩
          | acquire | clear => cases hafter
      | full =>
          cases act with
          | clear =>
              obtain ⟨n, ns, rfl⟩ := ih hafter
              exact ⟨n, ns, rfl⟩
          | acquire | fill | release => cases hafter

theorem after_gone_iff (acts : List Act) :
    after .gone acts = some .gone ↔ ∃ ns : List Nat, acts = ns.flatMap life := by
  constructor
  · exact rest_of_after
  · rintro ⟨ns, rfl⟩
    exact after_lives ns

end Ledger
