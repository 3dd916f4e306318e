import Mathlib.Data.List.Basic
import Mathlib.Data.Set.Function

/-!
Texts made of blocks. When no block is the beginning of another one, a text can
be taken apart into its blocks in only one way.
-/

namespace Blocks

variable {α β : Type} {f : α → List β} {S : Set α} {as bs : List α}

/-- A text that begins with the block of a member begins with that of no other. -/
def PrefixFree (f : α → List β) (S : Set α) : Prop :=
  ∀ a ∈ S, ∀ b ∈ S, ∀ x y, f a ++ x = f b ++ y → a = b

/-- The blocks of a text are determined by it; the induction is on them. -/
theorem PrefixFree.flatMap_inj (hfree : PrefixFree f S) (hne : ∀ a ∈ S, f a ≠ [])
    (has : ∀ a ∈ as, a ∈ S) (hbs : ∀ b ∈ bs, b ∈ S) (heq : as.flatMap f = bs.flatMap f) :
    as = bs := by
  induction as generalizing bs with
  | nil =>
      cases bs with
      | nil => rfl
      | cons b bs =>
          rw [List.flatMap_nil, List.flatMap_cons] at heq
          exact absurd (List.append_eq_nil_iff.mp heq.symm).1 (hne b (hbs b (by simp)))
  | cons a as ih =>
      cases bs with
      | nil =>
          rw [List.flatMap_nil, List.flatMap_cons] at heq
          exact absurd (List.append_eq_nil_iff.mp heq).1 (hne a (has a (by simp)))
      | cons b bs =>
          rw [List.flatMap_cons, List.flatMap_cons] at heq
          obtain rfl := hfree a (has a (by simp)) b (hbs b (by simp)) _ _ heq
          rw [ih (fun a ha => has a (by simp [ha])) (fun b hb => hbs b (by simp [hb]))
            (List.append_cancel_left heq)]

/-- What stands before and after the first separator. -/
theorem split_first {x x' z z' : List β} {c : β} (hx : c ∉ x) (hx' : c ∉ x')
    (heq : x ++ c :: z = x' ++ c :: z') : x = x' ∧ z = z' := by
  rcases List.append_eq_append_iff.mp heq with ⟨d, hlong, hrest⟩ | ⟨d, hlong, hrest⟩
  · cases d with
    | nil => exact ⟨by simpa using hlong.symm, by simpa using hrest⟩
    | cons e d =>
        obtain ⟨rfl, -⟩ := List.cons.inj hrest
        exact absurd (by simp [hlong]) hx'
  · cases d with
    | nil => exact ⟨by simpa using hlong, by simpa using hrest.symm⟩
    | cons e d =>
        obtain ⟨rfl, -⟩ := List.cons.inj hrest
        exact absurd (by simp [hlong]) hx

/-- What stands before and after the last separator. -/
theorem split_last {x x' z z' : List β} {c : β} (hz : c ∉ z) (hz' : c ∉ z')
    (heq : x ++ c :: z = x' ++ c :: z') : x = x' ∧ z = z' := by
  have hreversed : z.reverse ++ c :: x.reverse = z'.reverse ++ c :: x'.reverse := by
    simpa using congrArg List.reverse heq
  obtain ⟨hz, hx⟩ := split_first (by simpa using hz) (by simpa using hz') hreversed
  exact ⟨List.reverse_injective hx, List.reverse_injective hz⟩

/-- Blocks that end at their first `stop`. -/
theorem prefixFree_of_stop {stop : β} (hstop : ∀ a ∈ S, stop ∉ f a) (hinj : S.InjOn f) :
    PrefixFree (fun a => f a ++ [stop]) S := by
  intro a ha b hb x y heq
  simp only [List.append_assoc, List.singleton_append] at heq
  exact hinj ha hb (split_first (hstop a ha) (hstop b hb) heq).1

/-- Blocks of one length. -/
theorem prefixFree_of_length {n : Nat} (hlength : ∀ a ∈ S, (f a).length = n)
    (hinj : S.InjOn f) : PrefixFree f S := by
  intro a ha b hb x y heq
  have hsame : (f a).length = (f b).length := (hlength a ha).trans (hlength b hb).symm
  exact hinj ha hb (List.append_inj heq hsame).1

end Blocks
