import Mathlib.Data.List.Infix

/-!
Cutting a list at the first place where two given symbols stand next to each
other: what stands before them and what stands behind. For different symbols
the cut is characterised by the list itself, and it does not depend on what
follows the pair.
-/

namespace Cut

universe u

variable {α : Type u} [DecidableEq α]

/-- The lists before and behind the first `a, b`. -/
def cut (a b : α) : List α → Option (List α × List α)
  | [] => none
  | x :: xs =>
      if x = a ∧ xs.head? = some b then some ([], xs.tail)
      else (cut a b xs).map (fun (before, after) => (x :: before, after))

section Cuts

variable {a b : α} {xs ys before after : List α}

omit [DecidableEq α] in
theorem pair_prefix_iff {x : α} :
    [a, b] <+: x :: xs ↔ x = a ∧ xs.head? = some b := by
  rw [List.cons_prefix_cons]
  cases xs with
  | nil => simp
  | cons y ys => simp [List.cons_prefix_cons, eq_comm]

theorem cut_eq_none_iff : cut a b xs = none ↔ ¬ [a, b] <:+: xs := by
  induction xs with
  | nil => simp [cut]
  | cons x xs ih =>
      rw [List.infix_cons_iff, pair_prefix_iff, cut]
      by_cases hhere : x = a ∧ xs.head? = some b
      · simp [hhere]
      · rw [if_neg hhere, Option.map_eq_none_iff, ih]
        simp [hhere]

/-- The pair that is found is the first one. -/
theorem cut_eq_some_iff (hab : a ≠ b) :
    cut a b xs = some (before, after) ↔
      xs = before ++ a :: b :: after ∧ ¬ [a, b] <:+: before := by
  induction xs generalizing before with
  | nil => simp [cut]
  | cons x xs ih =>
      rw [cut]
      by_cases hhere : x = a ∧ xs.head? = some b
      · obtain ⟨rfl, hhead⟩ := hhere
        obtain ⟨rest, rfl⟩ : ∃ rest, xs = b :: rest := List.head?_eq_some_iff.mp hhead
        simp only [List.head?_cons, and_self, if_true, List.tail_cons, Option.some.injEq,
          Prod.mk.injEq]
        constructor
        · rintro ⟨rfl, rfl⟩
          simp
        · rintro ⟨heq, hnone⟩
          cases before with
          | nil => simpa using heq
          | cons y before =>
              obtain ⟨rfl, htail⟩ := List.cons.inj heq
              cases before with
              | nil => exact absurd (List.cons.inj htail).1.symm hab
              | cons z before =>
                  have hz : z = b := (List.cons.inj htail).1.symm
                  exact absurd ⟨[], before, by rw [hz]; rfl⟩ hnone
      · rw [if_neg hhere, Option.map_eq_some_iff]
        constructor
        · rintro ⟨⟨before', after'⟩, hcut, heq⟩
          obtain ⟨rfl, rfl⟩ := Prod.mk.inj heq
          obtain ⟨rfl, hnone⟩ := ih.mp hcut
          refine ⟨rfl, ?_⟩
          rw [List.infix_cons_iff, pair_prefix_iff, not_or]
          refine ⟨?_, hnone⟩
          rintro ⟨rfl, hhead⟩
          apply hhere
          refine ⟨rfl, ?_⟩
          cases before' with
          | nil => cases hhead
          | cons y before' => exact hhead
        · rintro ⟨heq, hnone⟩
          cases before with
          | nil =>
              obtain ⟨rfl, rfl⟩ := List.cons.inj heq
              exact absurd ⟨rfl, rfl⟩ hhere
          | cons y before =>
              obtain ⟨rfl, rfl⟩ := List.cons.inj heq
              rw [List.infix_cons_iff, not_or] at hnone
              exact ⟨(before, after), ih.mpr ⟨rfl, hnone.2⟩, rfl⟩

theorem cut_append (hab : a ≠ b) (hcut : cut a b xs = some (before, after)) (ys : List α) :
    cut a b (xs ++ ys) = some (before, after ++ ys) := by
  obtain ⟨rfl, hnone⟩ := (cut_eq_some_iff hab).mp hcut
  exact (cut_eq_some_iff hab).mpr ⟨by simp, hnone⟩

/-- One more symbol can complete a pair, or it comes too late to matter. -/
theorem cut_concat (hab : a ≠ b) {y : α} (hcut : cut a b (xs ++ [y]) = some (before, after)) :
    (after = [] ∧ xs = before ++ [a]) ∨
      ∃ after', after = after' ++ [y] ∧ cut a b xs = some (before, after') := by
  obtain ⟨heq, hnone⟩ := (cut_eq_some_iff hab).mp hcut
  rcases List.eq_nil_or_concat after with rfl | ⟨after', z, rfl⟩
  · left
    have hends : xs ++ [y] = (before ++ [a]) ++ [b] := by simpa using heq
    exact ⟨rfl, (List.append_inj' hends rfl).1⟩
  · right
    have hends : xs ++ [y] = (before ++ a :: b :: after') ++ [z] := by simpa using heq
    obtain ⟨hxs, hlast⟩ := List.append_inj' hends rfl
    obtain rfl := List.singleton_inj.mp hlast
    exact ⟨after', by simp, (cut_eq_some_iff hab).mpr ⟨hxs, hnone⟩⟩

end Cuts

end Cut
