import Mathlib.Data.Set.Insert
import RedisTrace.Library.CircularList

/-!
Several circular lists in one memory. A family names its heads and the sequence
behind each; no cell belongs to two of its lists. What one operation does to
one list is then said once, and the other lists follow.
-/

namespace CircularList

variable {A : Type*}

/-- Heads, and the members of the list of each. -/
structure Family (A : Type*) where
  heads : Set A
  members : A → List A

/-- The cell is on none of the lists, neither as a head nor as a member. -/
def Family.Free (s : Family A) (e : A) : Prop := ∀ h ∈ s.heads, e ∉ h :: s.members h

/-- The memory holds the family: each head anchors the ring of its members, and
the rings have no cell in common. -/
structure Rings (m : Mem A) (s : Family A) : Prop where
  ring : ∀ h ∈ s.heads, Ring m h (s.members h)
  apart : ∀ h ∈ s.heads, ∀ k ∈ s.heads, h ≠ k → ∀ q ∈ h :: s.members h, q ∉ k :: s.members k

section Updates

variable [DecidableEq A]

/-- The family with another sequence behind one of its heads. -/
def Family.set (s : Family A) (h : A) (xs : List A) : Family A :=
  {s with members := Function.update s.members h xs}

/-- The family with one more head. -/
def Family.add (s : Family A) (h : A) (xs : List A) : Family A :=
  ⟨insert h s.heads, Function.update s.members h xs⟩

@[simp] theorem Family.members_set_self (s : Family A) (h : A) (xs : List A) :
    (s.set h xs).members h = xs := Function.update_self _ _ _

theorem Family.members_set_ne (s : Family A) {h k : A} (xs : List A) (hkh : k ≠ h) :
    (s.set h xs).members k = s.members k := Function.update_of_ne hkh _ _

@[simp] theorem Family.members_add_self (s : Family A) (h : A) (xs : List A) :
    (s.add h xs).members h = xs := Function.update_self _ _ _

theorem Family.members_add_ne (s : Family A) {h k : A} (xs : List A) (hkh : k ≠ h) :
    (s.add h xs).members k = s.members k := Function.update_of_ne hkh _ _

variable {m m' : Mem A} {s : Family A} {h : A} {xs : List A}

/-- One list of the family is replaced. Its new members were on it before, or
on no list; the cells of the other lists are as they were. -/
theorem Rings.set (hr : Rings m s) (hh : h ∈ s.heads) (hring : Ring m' h xs)
    (hmembers : ∀ q ∈ xs, q ∈ s.members h ∨ s.Free q)
    (hsame : ∀ k ∈ s.heads, k ≠ h → ∀ q ∈ k :: s.members k, m' q = m q) :
    Rings m' (s.set h xs) := by
  have hout : ∀ k ∈ s.heads, k ≠ h → ∀ q ∈ h :: xs, q ∉ k :: s.members k := by
    intro k hk hkh q hq
    rcases List.mem_cons.mp hq with rfl | hq
    · exact hr.apart q hh k hk hkh.symm q (by simp)
    · rcases hmembers q hq with hold | hfree
      · exact hr.apart h hh k hk hkh.symm q (List.mem_cons_of_mem _ hold)
      · exact hfree k hk
  constructor
  · intro k hk
    rcases eq_or_ne k h with rfl | hkh
    · rw [s.members_set_self]
      exact hring
    · rw [s.members_set_ne xs hkh]
      exact (hr.ring k hk).congr (hsame k hk hkh)
  · intro k hk l hl hkl q hq
    rcases eq_or_ne k h with rfl | hkh
    · rw [s.members_set_self] at hq
      rw [s.members_set_ne xs hkl.symm]
      exact hout l hl hkl.symm q hq
    · rw [s.members_set_ne xs hkh] at hq
      rcases eq_or_ne l h with rfl | hlh
      · rw [s.members_set_self]
        intro hmem
        exact hout k hk hkh q hmem hq
      · rw [s.members_set_ne xs hlh]
        exact hr.apart k hk l hl hkl q hq

/-- A new list beside the old ones, made of cells on no list. -/
theorem Rings.add (hr : Rings m s) (hring : Ring m' h xs) (hfree : ∀ q ∈ h :: xs, s.Free q)
    (hsame : ∀ k ∈ s.heads, ∀ q ∈ k :: s.members k, m' q = m q) :
    Rings m' (s.add h xs) := by
  have hne : ∀ k ∈ s.heads, k ≠ h := by
    rintro k hk rfl
    exact hfree k (by simp) k hk (by simp)
  constructor
  · intro k hk
    rcases Set.mem_insert_iff.mp hk with rfl | hold
    · rw [s.members_add_self]
      exact hring
    · rw [s.members_add_ne xs (hne k hold)]
      exact (hr.ring k hold).congr (hsame k hold)
  · intro k hk l hl hkl q hq
    rcases Set.mem_insert_iff.mp hk with rfl | hold
    · have hl' : l ∈ s.heads := (Set.mem_insert_iff.mp hl).resolve_left hkl.symm
      rw [s.members_add_self] at hq
      rw [s.members_add_ne xs (hne l hl')]
      exact hfree q hq l hl'
    · rw [s.members_add_ne xs (hne k hold)] at hq
      rcases Set.mem_insert_iff.mp hl with rfl | hold'
      · rw [s.members_add_self]
        intro hmem
        exact hfree q hmem k hold hq
      · rw [s.members_add_ne xs (hne l hold')]
        exact hr.apart k hold l hold' hkl q hq

end Updates

end CircularList
