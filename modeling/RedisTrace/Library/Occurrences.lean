import Mathlib.Data.List.Infix
import Mathlib.Order.Nat
import Mathlib.Order.Bounds.Basic

/-!
Where one list stands in another: the positions of its occurrences, the least
of them, and the searches that look at the positions below a bound. A search
that stops short of the last possible position misses exactly the list that
stands at the end and nowhere else.
-/

namespace Occurrences

variable {α : Type*} {sub xs : List α} {i n : Nat}

/-- `sub` stands in `xs` from position `i` on. -/
def OccursAt (sub xs : List α) (i : Nat) : Prop := sub <+: xs.drop i

instance [DecidableEq α] (sub xs : List α) (i : Nat) : Decidable (OccursAt sub xs i) :=
  inferInstanceAs (Decidable (sub <+: xs.drop i))

theorem OccursAt.add_length_le (hne : sub ≠ []) (hocc : OccursAt sub xs i) :
    i + sub.length ≤ xs.length := by
  have hle := hocc.length_le
  have hpos := List.length_pos_iff.mpr hne
  rw [List.length_drop] at hle
  omega

/-- The last possible occurrence is the one as a suffix. -/
theorem suffix_iff_occursAt : sub <:+ xs ↔ OccursAt sub xs (xs.length - sub.length) := by
  constructor
  · intro hsuffix
    rw [OccursAt, ← List.suffix_iff_eq_drop.mp hsuffix]
  · intro hocc
    have hle := hocc.length_le
    rw [List.length_drop] at hle
    have hall := hocc.eq_of_length_le (by rw [List.length_drop]; omega)
    rw [hall]
    exact List.drop_suffix _ xs

section Search

variable [DecidableEq α]

/-- The least of the positions below `n` at which `sub` stands in `xs`. -/
def firstBelow (sub xs : List α) (n : Nat) : Option Nat :=
  (List.range n).find? (fun i => OccursAt sub xs i)

theorem firstBelow_eq_some_iff :
    firstBelow sub xs n = some i ↔ i < n ∧ IsLeast {i | OccursAt sub xs i} i := by
  rw [firstBelow, List.find?_range_eq_some]
  constructor
  · rintro ⟨hocc, hlt, hbefore⟩
    refine ⟨List.mem_range.mp hlt, of_decide_eq_true hocc, ?_⟩
    intro j hj
    by_contra hji
    have hno := hbefore j (Nat.not_le.mp hji)
    exact (by simpa using hno : ¬ OccursAt sub xs j) hj
  · rintro ⟨hlt, hocc, hleast⟩
    refine ⟨decide_eq_true hocc, List.mem_range.mpr hlt, ?_⟩
    intro j hji
    have hno : ¬ OccursAt sub xs j := fun hj => absurd (hleast hj) (Nat.not_le.mpr hji)
    simpa using hno

theorem firstBelow_eq_none_iff :
    firstBelow sub xs n = none ↔ ∀ i < n, ¬ OccursAt sub xs i := by
  simp [firstBelow]

/-- Among all positions there is a least occurrence as soon as there is one. -/
theorem exists_least (hocc : OccursAt sub xs i) : ∃ j ≤ i, IsLeast {i | OccursAt sub xs i} j := by
  have hex : ∃ j, OccursAt sub xs j := ⟨i, hocc⟩
  exact ⟨Nat.find hex, Nat.find_le hocc, Nat.isLeast_find hex⟩

/-- The search that leaves the last position out finds the least occurrence, and
nothing only where there is none, exactly for the lists that do not stand at the
end alone. -/
theorem firstBelow_exact_iff (hne : sub ≠ []) :
    ((∀ i, IsLeast {i | OccursAt sub xs i} i →
        firstBelow sub xs (xs.length - sub.length) = some i) ∧
      ((∀ i, ¬ OccursAt sub xs i) ↔ firstBelow sub xs (xs.length - sub.length) = none)) ↔
    (sub <:+ xs → ∃ i, OccursAt sub xs i ∧ i + sub.length < xs.length) := by
  constructor
  · rintro ⟨hfound, -⟩ hsuffix
    obtain ⟨j, -, hleast⟩ := exists_least (suffix_iff_occursAt.mp hsuffix)
    obtain ⟨hlt, -⟩ := firstBelow_eq_some_iff.mp (hfound j hleast)
    exact ⟨j, hleast.1, by omega⟩
  · intro hearly
    have hinside : ∀ i, OccursAt sub xs i → ∃ j, IsLeast {i | OccursAt sub xs i} j ∧
        j < xs.length - sub.length := by
      intro i hocc
      have hle := hocc.add_length_le hne
      obtain ⟨k, hk, hlt⟩ : ∃ k, OccursAt sub xs k ∧ k + sub.length < xs.length := by
        rcases Nat.lt_or_ge (i + sub.length) xs.length with hlt | hge
        · exact ⟨i, hocc, hlt⟩
        · apply hearly
          apply suffix_iff_occursAt.mpr
          have hi : xs.length - sub.length = i := by omega
          rw [hi]
          exact hocc
      obtain ⟨j, hjk, hleast⟩ := exists_least hk
      exact ⟨j, hleast, by omega⟩
    constructor
    · intro i hi
      obtain ⟨j, hj, hlt⟩ := hinside i hi.1
      rw [hi.unique hj]
      exact firstBelow_eq_some_iff.mpr ⟨hlt, hj⟩
    · rw [firstBelow_eq_none_iff]
      constructor
      · intro hnone i _
        exact hnone i
      · intro hnone i hocc
        obtain ⟨j, hj, hlt⟩ := hinside i hocc
        exact hnone j hlt hj.1

end Search

end Occurrences
