import Mathlib.Data.List.Chain
import Mathlib.Data.List.Nodup
import Mathlib.Logic.Function.Basic

/-!
Circular doubly linked lists in a partial memory. An address either holds a
pair of links or is not mapped at all, so a freed cell and a null pointer are
the same thing: reading them has no result. A `Ring` is the cyclic sequence
anchored at a head address; its members are the cells met after the head, in
order. The lemmas below say how splicing a cell in or out of the cycle, and
writes elsewhere, act on rings.
-/

namespace CircularList

variable {A : Type*}

structure Links (A : Type*) where
  next : A
  prev : A
  deriving DecidableEq, Repr

abbrev Mem (A : Type*) := A → Option (Links A)

def nextOf (m : Mem A) (p : A) : Option A := (m p).map Links.next

def prevOf (m : Mem A) (p : A) : Option A := (m p).map Links.prev

/-- Both directions of one step of a list agree: `v` follows `u` and `u`
precedes `v`. -/
def Linked (m : Mem A) (u v : A) : Prop :=
  nextOf m u = some v ∧ prevOf m v = some u

/-- The cycle anchored at `h` whose members, in order, are `xs`. -/
structure Ring (m : Mem A) (h : A) (xs : List A) : Prop where
  nodup : (h :: xs).Nodup
  links : List.IsChain (Linked m) (h :: xs ++ [h])

section Updates

variable [DecidableEq A]

def setNext (m : Mem A) (p v : A) : Mem A :=
  fun q => if q = p then (m p).map (fun l => {l with next := v}) else m q

def setPrev (m : Mem A) (p v : A) : Mem A :=
  fun q => if q = p then (m p).map (fun l => {l with prev := v}) else m q

@[simp] theorem nextOf_setPrev (m : Mem A) (p v q : A) :
    nextOf (setPrev m p v) q = nextOf m q := by
  unfold nextOf setPrev
  split
  · next h => subst h; cases m q <;> rfl
  · rfl

@[simp] theorem prevOf_setNext (m : Mem A) (p v q : A) :
    prevOf (setNext m p v) q = prevOf m q := by
  unfold prevOf setNext
  split
  · next h => subst h; cases m q <;> rfl
  · rfl

theorem nextOf_setNext_ne (m : Mem A) {p q : A} (v : A) (h : q ≠ p) :
    nextOf (setNext m p v) q = nextOf m q := by
  simp [nextOf, setNext, h]

theorem prevOf_setPrev_ne (m : Mem A) {p q : A} (v : A) (h : q ≠ p) :
    prevOf (setPrev m p v) q = prevOf m q := by
  simp [prevOf, setPrev, h]

@[simp] theorem isSome_setNext (m : Mem A) (p v q : A) :
    (setNext m p v q).isSome = (m q).isSome := by
  unfold setNext
  split
  · next h => subst h; cases m q <;> rfl
  · rfl

@[simp] theorem isSome_setPrev (m : Mem A) (p v q : A) :
    (setPrev m p v q).isSome = (m q).isSome := by
  unfold setPrev
  split
  · next h => subst h; cases m q <;> rfl
  · rfl

theorem nextOf_setNext_self (m : Mem A) {p : A} (v : A) (h : (m p).isSome) :
    nextOf (setNext m p v) p = some v := by
  obtain ⟨l, hl⟩ := Option.isSome_iff_exists.mp h
  simp [nextOf, setNext, hl]

theorem prevOf_setPrev_self (m : Mem A) {p : A} (v : A) (h : (m p).isSome) :
    prevOf (setPrev m p v) p = some v := by
  obtain ⟨l, hl⟩ := Option.isSome_iff_exists.mp h
  simp [prevOf, setPrev, hl]

theorem nextOf_setNext (m : Mem A) (p v q : A) :
    nextOf (setNext m p v) q = if q = p ∧ (m p).isSome then some v else nextOf m q := by
  rcases eq_or_ne q p with rfl | hqp
  · cases hq : m q <;> simp [nextOf, setNext, hq]
  · simp [nextOf_setNext_ne m v hqp, hqp]

theorem prevOf_setPrev (m : Mem A) (p v q : A) :
    prevOf (setPrev m p v) q = if q = p ∧ (m p).isSome then some v else prevOf m q := by
  rcases eq_or_ne q p with rfl | hqp
  · cases hq : m q <;> simp [prevOf, setPrev, hq]
  · simp [prevOf_setPrev_ne m v hqp, hqp]

theorem setNext_ne (m : Mem A) {p q : A} (v : A) (h : q ≠ p) :
    setNext m p v q = m q := by
  simp [setNext, h]

theorem setPrev_ne (m : Mem A) {p q : A} (v : A) (h : q ≠ p) :
    setPrev m p v q = m q := by
  simp [setPrev, h]

end Updates

theorem isSome_of_nextOf {m : Mem A} {p v : A} (h : nextOf m p = some v) :
    (m p).isSome := by
  cases hp : m p with
  | none => simp [nextOf, hp] at h
  | some l => rfl

theorem isSome_of_prevOf {m : Mem A} {p v : A} (h : prevOf m p = some v) :
    (m p).isSome := by
  cases hp : m p with
  | none => simp [prevOf, hp] at h
  | some l => rfl

/-- Both links of a cell together are the cell. -/
theorem mem_congr {m m' : Mem A} {q : A} (hnext : nextOf m' q = nextOf m q)
    (hprev : prevOf m' q = prevOf m q) : m' q = m q := by
  cases hq : m q with
  | none =>
      cases hq' : m' q with
      | none => rfl
      | some l => simp [nextOf, hq, hq'] at hnext
  | some l =>
      cases hq' : m' q with
      | none => simp [nextOf, hq, hq'] at hnext
      | some l' =>
          have hn : l'.next = l.next := by simpa [nextOf, hq, hq'] using hnext
          have hp : l'.prev = l.prev := by simpa [prevOf, hq, hq'] using hprev
          cases l
          cases l'
          simp only at hn hp
          rw [hn, hp]

/-- In `m'` the cell `e` stands between `u` and `v`; all other links are those
of `m`. -/
structure Spliced (m m' : Mem A) (u e v : A) : Prop where
  before : Linked m' u e
  behind : Linked m' e v
  next : ∀ q, q ≠ u → q ≠ e → nextOf m' q = nextOf m q
  prev : ∀ q, q ≠ v → q ≠ e → prevOf m' q = prevOf m q

/-- In `m'` the cell `v` follows `u`; all other links are those of `m`. -/
structure Joined (m m' : Mem A) (u v : A) : Prop where
  linked : Linked m' u v
  next : ∀ q, q ≠ u → nextOf m' q = nextOf m q
  prev : ∀ q, q ≠ v → prevOf m' q = prevOf m q

theorem Spliced.outside {m m' : Mem A} {u e v q : A} (hs : Spliced m m' u e v)
    (hu : q ≠ u) (he : q ≠ e) (hv : q ≠ v) : m' q = m q :=
  mem_congr (hs.next q hu he) (hs.prev q hv he)

theorem Joined.outside {m m' : Mem A} {u v q : A} (hj : Joined m m' u v)
    (hu : q ≠ u) (hv : q ≠ v) : m' q = m q :=
  mem_congr (hj.next q hu) (hj.prev q hv)

/-- A path of links survives any change that keeps the forward links of its
sources and the backward links of its targets. -/
theorem linked_chain_congr {m m' : Mem A} {path : List A}
    (hchain : List.IsChain (Linked m) path)
    (hnext : ∀ q ∈ path.dropLast, nextOf m' q = nextOf m q)
    (hprev : ∀ q ∈ path.tail, prevOf m' q = prevOf m q) :
    List.IsChain (Linked m') path := by
  induction path with
  | nil => exact List.isChain_nil
  | cons u rest ih =>
      cases rest with
      | nil => exact List.isChain_singleton u
      | cons v more =>
          obtain ⟨hstep, htail⟩ := List.isChain_cons_cons.mp hchain
          have hu : nextOf m' u = nextOf m u := hnext u (by simp)
          have hv : prevOf m' v = prevOf m v := hprev v (by simp)
          have hrest : List.IsChain (Linked m') (v :: more) := by
            apply ih htail
            · intro q hq
              exact hnext q (by simp [hq])
            · intro q hq
              exact hprev q (by simp only [List.tail_cons] at hq ⊢; simp [hq])
          exact List.isChain_cons_cons.mpr
            ⟨⟨hu.trans hstep.1, hv.trans hstep.2⟩, hrest⟩

/-- Joining two paths by a new middle part. The two paths themselves are
carried over to a memory that only changed the forward link of the last cell
`u` of the first and the backward link of the first cell `v` of the second,
and cells on neither. -/
theorem linked_ends {m m' : Mem A} {left right : List A} {u v : A}
    (hleft : List.IsChain (Linked m) (left ++ [u]))
    (hright : List.IsChain (Linked m) (v :: right))
    (hsources : (left ++ u :: v :: right).dropLast.Nodup)
    (htargets : (left ++ u :: v :: right).tail.Nodup)
    (hnext : ∀ q ∈ left ++ u :: v :: right, q ≠ u → nextOf m' q = nextOf m q)
    (hprev : ∀ q ∈ left ++ u :: v :: right, q ≠ v → prevOf m' q = prevOf m q) :
    List.IsChain (Linked m') (left ++ [u]) ∧
      List.IsChain (Linked m') (v :: right) := by
  have hdrop : (left ++ u :: v :: right).dropLast =
      left ++ u :: (v :: right).dropLast := by simp
  have htail : (left ++ u :: v :: right).tail =
      (left ++ [u]).tail ++ v :: right := by
    cases left <;> simp
  rw [hdrop] at hsources
  rw [htail] at htargets
  obtain ⟨_, husources, hapart⟩ := List.nodup_append.mp hsources
  obtain ⟨_, hvtargets, hapart'⟩ := List.nodup_append.mp htargets
  constructor
  · apply linked_chain_congr hleft
    · intro q hq
      have hql : q ∈ left := by simpa using hq
      exact hnext q (by simp [hql]) (hapart q hql u (by simp))
    · intro q hq
      have hmem : q ∈ left ++ u :: v :: right := by
        have := List.mem_of_mem_tail hq
        simp only [List.mem_append, List.mem_singleton] at this
        rcases this with h | h <;> simp [h]
      exact hprev q hmem (hapart' q hq v (by simp))
  · apply linked_chain_congr hright
    · intro q hq
      have hqu : q ≠ u := fun h => (List.nodup_cons.mp husources).1 (h ▸ hq)
      have hmem : q ∈ v :: right := List.dropLast_subset _ hq
      exact hnext q (by
        simp only [List.mem_append, List.mem_cons] at hmem ⊢
        tauto) hqu
    · intro q hq
      have hqr : q ∈ right := by simpa using hq
      have hqv : q ≠ v := fun h => (List.nodup_cons.mp hvtargets).1 (h ▸ hqr)
      exact hprev q (by simp [hqr]) hqv

/-- Splicing `e` into the step `u → v` of a path. -/
theorem linked_chain_insert {m m' : Mem A} {left right : List A} {u v e : A}
    (hchain : List.IsChain (Linked m) (left ++ u :: v :: right))
    (hsources : (left ++ u :: v :: right).dropLast.Nodup)
    (htargets : (left ++ u :: v :: right).tail.Nodup)
    (hnext : ∀ q ∈ left ++ u :: v :: right, q ≠ u → nextOf m' q = nextOf m q)
    (hprev : ∀ q ∈ left ++ u :: v :: right, q ≠ v → prevOf m' q = prevOf m q)
    (hue : Linked m' u e) (hev : Linked m' e v) :
    List.IsChain (Linked m') (left ++ u :: e :: v :: right) := by
  obtain ⟨hleft, _, hright⟩ := List.isChain_append_cons_cons.mp hchain
  obtain ⟨hleft', hright'⟩ := linked_ends hleft hright hsources htargets hnext hprev
  exact List.isChain_append_cons_cons.mpr
    ⟨hleft', hue, List.isChain_cons_cons.mpr ⟨hev, hright'⟩⟩

/-- Splicing the cell `x` out of a path: its two neighbours are joined. -/
theorem linked_chain_erase {m m' : Mem A} {left right : List A} {u x v : A}
    (hchain : List.IsChain (Linked m) (left ++ u :: x :: v :: right))
    (hsources : (left ++ u :: v :: right).dropLast.Nodup)
    (htargets : (left ++ u :: v :: right).tail.Nodup)
    (hnext : ∀ q ∈ left ++ u :: v :: right, q ≠ u → nextOf m' q = nextOf m q)
    (hprev : ∀ q ∈ left ++ u :: v :: right, q ≠ v → prevOf m' q = prevOf m q)
    (huv : Linked m' u v) :
    List.IsChain (Linked m') (left ++ u :: v :: right) := by
  obtain ⟨hleft, _, hrest⟩ := List.isChain_append_cons_cons.mp hchain
  obtain ⟨_, hright⟩ := List.isChain_cons_cons.mp hrest
  obtain ⟨hleft', hright'⟩ := linked_ends hleft hright hsources htargets hnext hprev
  exact List.isChain_append_cons_cons.mpr ⟨hleft', huv, hright'⟩

section Rings

variable {m m' : Mem A} {h : A} {xs : List A}

theorem Ring.head_not_mem (hring : Ring m h xs) : h ∉ xs :=
  (List.nodup_cons.mp hring.nodup).1

theorem Ring.members_nodup (hring : Ring m h xs) : xs.Nodup :=
  (List.nodup_cons.mp hring.nodup).2

theorem Ring.sources_nodup (hring : Ring m h xs) :
    (h :: xs ++ [h]).dropLast.Nodup := by
  rw [List.dropLast_concat]
  exact hring.nodup

theorem Ring.targets_nodup (hring : Ring m h xs) :
    (h :: xs ++ [h]).tail.Nodup := by
  have hperm : (xs ++ [h]).Perm (h :: xs) := List.perm_append_singleton h xs
  exact hperm.nodup_iff.mpr hring.nodup

/-- A ring only depends on the cells it runs through. -/
theorem Ring.congr (hring : Ring m h xs) (hsame : ∀ q ∈ h :: xs, m' q = m q) :
    Ring m' h xs := by
  refine ⟨hring.nodup, linked_chain_congr hring.links ?_ ?_⟩
  · intro q hq
    rw [List.dropLast_concat] at hq
    simp [nextOf, hsame q hq]
  · intro q hq
    have hmem : q ∈ h :: xs := by
      simp only [List.cons_append, List.tail_cons, List.mem_append,
        List.mem_singleton] at hq
      rcases hq with hq | hq <;> simp [hq]
    simp [prevOf, hsame q hmem]

/-- Neighbours along the cycle are linked both ways. -/
theorem Ring.linked (hring : Ring m h xs) (left right : List A) {u v : A}
    (hsplit : h :: xs ++ [h] = left ++ u :: v :: right) : Linked m u v := by
  have hlinks := hring.links
  rw [hsplit] at hlinks
  exact (List.isChain_append_cons_cons.mp hlinks).2.1

theorem Ring.first (hring : Ring m h xs) :
    nextOf m h = some ((xs ++ [h]).head (by simp)) := by
  cases xs with
  | nil => exact (hring.linked [] [] rfl).1
  | cons x rest =>
      exact (hring.linked [] (rest ++ [h]) rfl).1

theorem Ring.last (hring : Ring m h xs) :
    prevOf m h = some ((h :: xs).getLast (by simp)) := by
  have hcut : h :: xs = (h :: xs).dropLast ++ [(h :: xs).getLast (by simp)] :=
    (List.dropLast_append_getLast (by simp)).symm
  have hsplit : h :: xs ++ [h] =
      (h :: xs).dropLast ++ (h :: xs).getLast (by simp) :: h :: [] := by
    conv_lhs => rw [hcut]
    simp
  exact (hring.linked _ _ hsplit).2

/-- The two cells where the cycle is cut into `h :: left` and `right`. -/
theorem Ring.junction {left right : List A} (hring : Ring m h (left ++ right)) :
    Linked m ((h :: left).getLast (by simp)) ((right ++ [h]).head (by simp)) := by
  have hleft : h :: left = (h :: left).dropLast ++ [(h :: left).getLast (by simp)] :=
    (List.dropLast_append_getLast (by simp)).symm
  have hright : right ++ [h] =
      (right ++ [h]).head (by simp) :: (right ++ [h]).tail :=
    (List.cons_head_tail (by simp)).symm
  apply hring.linked (h :: left).dropLast (right ++ [h]).tail
  have : h :: (left ++ right) ++ [h] = (h :: left) ++ (right ++ [h]) := by simp
  rw [this]
  conv_lhs => rw [hleft, hright]
  simp

/-- The cells on the two sides of a member. -/
theorem Ring.neighbours {left right : List A} {x : A}
    (hring : Ring m h (left ++ x :: right)) :
    Linked m ((h :: left).getLast (by simp)) x ∧
      Linked m x ((right ++ [h]).head (by simp)) := by
  have hleft : h :: left = (h :: left).dropLast ++ [(h :: left).getLast (by simp)] :=
    (List.dropLast_append_getLast (by simp)).symm
  have hright : right ++ [h] =
      (right ++ [h]).head (by simp) :: (right ++ [h]).tail :=
    (List.cons_head_tail (by simp)).symm
  constructor
  · apply hring.linked (h :: left).dropLast (right ++ [h])
    have : h :: (left ++ x :: right) ++ [h] = (h :: left) ++ x :: (right ++ [h]) := by
      simp
    rw [this]
    conv_lhs => rw [hleft]
    simp
  · apply hring.linked (h :: left) (right ++ [h]).tail
    have : h :: (left ++ x :: right) ++ [h] = (h :: left) ++ x :: (right ++ [h]) := by
      simp
    rw [this]
    conv_lhs => rw [hright]

/-- The two neighbours of a member are the same cell only when it is the
only member. -/
theorem Ring.neighbours_eq_iff {left right : List A} {x : A}
    (hring : Ring m h (left ++ x :: right)) :
    (right ++ [h]).head (by simp) = (h :: left).getLast (by simp) ↔
      left ++ right = [] := by
  constructor
  · intro heq
    cases right with
    | nil =>
        cases left with
        | nil => rfl
        | cons y ys =>
            have hlast : (h :: y :: ys).getLast (by simp) ∈ y :: ys := by
              rw [List.getLast_cons (by simp)]
              exact List.getLast_mem _
            rw [← heq] at hlast
            exact absurd (List.mem_append_left _ hlast) hring.head_not_mem
    | cons z zs =>
        have hz : z ∈ h :: left := by
          simp only [List.cons_append, List.head_cons] at heq
          rw [heq]
          exact List.getLast_mem _
        rcases List.mem_cons.mp hz with hzh | hzl
        · exact absurd (by simp [hzh]) hring.head_not_mem
        · have hapart := (List.nodup_append.mp hring.members_nodup).2.2
          exact absurd rfl (hapart z hzl z (by simp))
  · intro hnil
    obtain ⟨hl, hr⟩ := List.append_eq_nil_iff.mp hnil
    subst hl hr
    rfl

theorem Ring.mapped (hring : Ring m h xs) {q : A} (hq : q ∈ h :: xs) :
    (m q).isSome := by
  obtain ⟨left, right, hcut⟩ := List.append_of_mem hq
  cases right with
  | nil =>
      have hsplit : h :: xs ++ [h] = left ++ q :: h :: [] := by simp [hcut]
      exact isSome_of_nextOf (hring.linked _ _ hsplit).1
  | cons v rest =>
      have hsplit : h :: xs ++ [h] = left ++ q :: v :: (rest ++ [h]) := by
        simp [hcut]
      exact isSome_of_nextOf (hring.linked _ _ hsplit).1

/-- Reading the members backwards follows the backward links. -/
theorem Ring.backward (hring : Ring m h xs) :
    List.IsChain (fun u v => prevOf m u = some v) (h :: xs.reverse ++ [h]) := by
  have hrev : h :: xs.reverse ++ [h] = (h :: xs ++ [h]).reverse := by simp
  rw [hrev, List.isChain_reverse]
  exact hring.links.imp (fun _ _ hlinked => hlinked.2)

/-- Splicing `e` into the cycle, behind the cells `h :: left`. -/
theorem Ring.insert {left right : List A} {e : A} (hring : Ring m h (left ++ right))
    (he : e ∉ h :: (left ++ right))
    (hs : Spliced m m' ((h :: left).getLast (by simp)) e ((right ++ [h]).head (by simp))) :
    Ring m' h (left ++ e :: right) := by
  have hleft : h :: left = (h :: left).dropLast ++ [(h :: left).getLast (by simp)] :=
    (List.dropLast_append_getLast (by simp)).symm
  have hright : right ++ [h] =
      (right ++ [h]).head (by simp) :: (right ++ [h]).tail :=
    (List.cons_head_tail (by simp)).symm
  have hsplit : h :: (left ++ right) ++ [h] =
      (h :: left).dropLast ++ (h :: left).getLast (by simp) ::
        (right ++ [h]).head (by simp) :: (right ++ [h]).tail := by
    have : h :: (left ++ right) ++ [h] = (h :: left) ++ (right ++ [h]) := by simp
    rw [this]
    conv_lhs => rw [hleft, hright]
    simp
  have hnew : h :: (left ++ e :: right) ++ [h] =
      (h :: left).dropLast ++ (h :: left).getLast (by simp) :: e ::
        (right ++ [h]).head (by simp) :: (right ++ [h]).tail := by
    have : h :: (left ++ e :: right) ++ [h] = (h :: left) ++ e :: (right ++ [h]) := by simp
    rw [this]
    conv_lhs => rw [hleft, hright]
    simp
  have hne : ∀ q ∈ h :: (left ++ right) ++ [h], q ≠ e := by
    rintro q hq rfl
    apply he
    simp only [List.mem_append, List.mem_cons, List.not_mem_nil, or_false] at hq ⊢
    tauto
  constructor
  · have hperm : ((h :: left) ++ e :: right).Perm (e :: ((h :: left) ++ right)) :=
      List.perm_middle
    exact hperm.nodup_iff.mpr (List.nodup_cons.mpr ⟨he, hring.nodup⟩)
  · rw [hnew]
    apply linked_chain_insert (m := m) (hsplit ▸ hring.links)
      (hsplit ▸ hring.sources_nodup) (hsplit ▸ hring.targets_nodup) _ _ hs.before hs.behind
    · intro q hq hqu
      exact hs.next q hqu (hne q (hsplit ▸ hq))
    · intro q hq hqv
      exact hs.prev q hqv (hne q (hsplit ▸ hq))

/-- Splicing the member `x` out of the cycle. The cell before it is the last
one of `h :: left` and the cell after it the first one of `right ++ [h]`. -/
theorem Ring.erase {left right : List A} {x : A}
    (hring : Ring m h (left ++ x :: right))
    (hj : Joined m m' ((h :: left).getLast (by simp)) ((right ++ [h]).head (by simp))) :
    Ring m' h (left ++ right) := by
  have hleft : h :: left = (h :: left).dropLast ++ [(h :: left).getLast (by simp)] :=
    (List.dropLast_append_getLast (by simp)).symm
  have hright : right ++ [h] =
      (right ++ [h]).head (by simp) :: (right ++ [h]).tail :=
    (List.cons_head_tail (by simp)).symm
  have hsplit : h :: (left ++ x :: right) ++ [h] =
      (h :: left).dropLast ++ (h :: left).getLast (by simp) :: x ::
        (right ++ [h]).head (by simp) :: (right ++ [h]).tail := by
    have : h :: (left ++ x :: right) ++ [h] = (h :: left) ++ x :: (right ++ [h]) := by
      simp
    rw [this]
    conv_lhs => rw [hleft, hright]
    simp
  have hnew : h :: (left ++ right) ++ [h] =
      (h :: left).dropLast ++ (h :: left).getLast (by simp) ::
        (right ++ [h]).head (by simp) :: (right ++ [h]).tail := by
    have : h :: (left ++ right) ++ [h] = (h :: left) ++ (right ++ [h]) := by simp
    rw [this]
    conv_lhs => rw [hleft, hright]
    simp
  have hnodup : (h :: (left ++ right)).Nodup :=
    List.Nodup.sublist
      ((List.Sublist.append_left (List.sublist_cons_self x right) left).cons_cons h)
      hring.nodup
  have hsources : (h :: (left ++ right) ++ [h]).dropLast.Nodup := by
    rw [List.dropLast_concat]
    exact hnodup
  have htargets : (h :: (left ++ right) ++ [h]).tail.Nodup :=
    (List.perm_append_singleton h (left ++ right)).nodup_iff.mpr hnodup
  refine ⟨hnodup, ?_⟩
  rw [hnew]
  apply linked_chain_erase (m := m) (hsplit ▸ hring.links)
    (hnew ▸ hsources) (hnew ▸ htargets) _ _ hj.linked
  · intro q _ hne
    exact hj.next q hne
  · intro q _ hne
    exact hj.prev q hne

/-- The whole cycle under another head: the first member's backward link and
the last member's forward link lead to the new head. -/
theorem Ring.rehead {k : A} (hring : Ring m h xs) (hne : xs ≠ []) (hk : k ∉ xs)
    (hfirst : Linked m' k (xs.head hne)) (hlast : Linked m' (xs.getLast hne) k)
    (hnext : ∀ q ∈ xs, q ≠ xs.getLast hne → nextOf m' q = nextOf m q)
    (hprev : ∀ q ∈ xs, q ≠ xs.head hne → prevOf m' q = prevOf m q) :
    Ring m' k xs := by
  have hchain : List.IsChain (Linked m') xs := by
    have hmiddle : List.IsChain (Linked m) xs := hring.links.infix ⟨[h], [h], rfl⟩
    have hnodup := hring.members_nodup
    apply linked_chain_congr hmiddle
    · intro q hq
      apply hnext q (List.dropLast_subset _ hq)
      rintro rfl
      rw [← List.dropLast_append_getLast hne] at hnodup
      exact (List.nodup_append.mp hnodup).2.2 _ hq _ (by simp) rfl
    · intro q hq
      apply hprev q (List.mem_of_mem_tail hq)
      rintro rfl
      rw [← List.cons_head_tail hne] at hnodup
      exact (List.nodup_cons.mp hnodup).1 hq
  refine ⟨List.nodup_cons.mpr ⟨hk, hring.members_nodup⟩, ?_⟩
  rw [List.cons_append]
  apply List.IsChain.cons
  · apply hchain.append (List.isChain_singleton k)
    intro x hx y hy
    rw [List.getLast?_eq_some_getLast hne] at hx
    cases hx
    cases hy
    exact hlast
  · intro y hy
    rw [List.head?_append_of_ne_nil _ hne, List.head?_eq_some_head hne] at hy
    cases hy
    exact hfirst

end Rings

end CircularList
