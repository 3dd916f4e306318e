import RedisTrace.Library.Run
import RedisTrace.Library.RingFamily
import RedisTrace.List

/-!
The functions of `list.c` on a memory that holds any number of lists. What each
does to the sequences is stated first, without a memory; the functions then do
exactly that to a memory holding the sequences, and touch no other cell.
-/

namespace RedisTrace

open CircularList Run

/-- A call of one of the functions on entries at addresses `A`. -/
inductive ListOp (A : Type) where
  | isListEmpty (ListHead : A)
  | insertTailList (ListHead Entry : A)
  | insertHeadList (ListHead Entry : A)
  | insertBeforeEntry (BaseEntry InsertEntry : A)
  | removeEntryList (Entry : A)
  | removeHeadList (ListHead : A)
  | removeTailList (ListHead : A)
  | changeHead (pOldhead pNewhead : A)
  deriving DecidableEq, Repr

/-- What a call returns. -/
inductive ListReply (A : Type) where
  | nothing
  | flag (value : Bool)
  | entry (Entry : A)
  deriving DecidableEq, Repr

section Sequences

variable {A : Type}

/-- The entry a call brings onto a list. -/
def ListOp.arriving : ListOp A → Option A
  | .insertTailList _ e | .insertHeadList _ e | .insertBeforeEntry _ e | .changeHead _ e => some e
  | .isListEmpty _ | .removeEntryList _ | .removeHeadList _ | .removeTailList _ => none

variable {m m' : Mem A} {s : Family A} {h e : A}

/-- Only the cells of one list and the arriving one differ: what is left for the
other lists. -/
theorem same_elsewhere (hr : Rings m s) (hh : h ∈ s.heads)
    (hframe : Footprint m m' (e :: h :: s.members h)) (he : s.Free e) :
    ∀ k ∈ s.heads, k ≠ h → ∀ q ∈ k :: s.members k, m' q = m q := by
  intro k hk hkh q hq
  apply hframe.outside
  intro hmem
  rcases List.mem_cons.mp hmem with rfl | hmem
  · exact he k hk hq
  · exact hr.apart k hk h hh hkh q hq hmem

/-- The same for a call that brings no entry. -/
theorem same_elsewhere_of_own (hr : Rings m s) (hh : h ∈ s.heads) {cells : List A}
    (hframe : Footprint m m' cells) (hown : ∀ q ∈ cells, q ∈ h :: s.members h) :
    ∀ k ∈ s.heads, k ≠ h → ∀ q ∈ k :: s.members k, m' q = m q := by
  intro k hk hkh q hq
  apply hframe.outside
  intro hmem
  exact hr.apart k hk h hh hkh q hq (hown q hmem)

variable [DecidableEq A]

def listStep : ListOp A → ListM A (ListReply A)
  | .isListEmpty h => return .flag (← isListEmpty h)
  | .insertTailList h e => do
      insertTailList h e
      return .nothing
  | .insertHeadList h e => do
      insertHeadList h e
      return .nothing
  | .insertBeforeEntry b e => do
      insertBeforeEntry b e
      return .nothing
  | .removeEntryList e => return .flag (← removeEntryList e)
  | .removeHeadList h => return .entry (← removeHeadList h)
  | .removeTailList h => return .entry (← removeTailList h)
  | .changeHead old new => do
      changeHead old new
      return .nothing

/-- What a call does to the sequences. `SeqStep s op h reply s'` says that the
call may be made on the lists `s`, concerns the list of `h`, returns `reply`
and leaves the lists `s'`. -/
inductive SeqStep (s : Family A) : ListOp A → A → ListReply A → Family A → Prop where
  | isListEmpty {h : A} (head : h ∈ s.heads) :
      SeqStep s (.isListEmpty h) h (.flag (decide (s.members h = []))) s
  | insertTail {h e : A} (head : h ∈ s.heads) (free : s.Free e) :
      SeqStep s (.insertTailList h e) h .nothing (s.set h (s.members h ++ [e]))
  | insertHead {h e : A} (head : h ∈ s.heads) (free : s.Free e) :
      SeqStep s (.insertHeadList h e) h .nothing (s.set h (e :: s.members h))
  | insertBeforeMember {h x e : A} {left right : List A} (head : h ∈ s.heads) (free : s.Free e)
      (base : s.members h = left ++ x :: right) :
      SeqStep s (.insertBeforeEntry x e) h .nothing (s.set h (left ++ e :: x :: right))
  | insertBeforeHead {h e : A} (head : h ∈ s.heads) (free : s.Free e) :
      SeqStep s (.insertBeforeEntry h e) h .nothing (s.set h (s.members h ++ [e]))
  | removeEntry {h x : A} {left right : List A} (head : h ∈ s.heads)
      (member : s.members h = left ++ x :: right) :
      SeqStep s (.removeEntryList x) h (.flag (decide (left ++ right = [])))
        (s.set h (left ++ right))
  | removeHead {h x : A} {rest : List A} (head : h ∈ s.heads) (first : s.members h = x :: rest) :
      SeqStep s (.removeHeadList h) h (.entry x) (s.set h rest)
  | removeTail {h x : A} {front : List A} (head : h ∈ s.heads)
      (last : s.members h = front ++ [x]) :
      SeqStep s (.removeTailList h) h (.entry x) (s.set h front)
  | changeHead {old new : A} (head : old ∈ s.heads) (free : s.Free new) :
      SeqStep s (.changeHead old new) old .nothing ((s.set old []).add new (s.members old))

/-- Putting a free entry anywhere on one of the lists leaves the other lists
alone. -/
theorem family_inserted (hr : Rings m s) (hh : h ∈ s.heads) (he : s.Free e)
    {left right : List A} (hcut : s.members h = left ++ right)
    (hring : Ring m' h (left ++ e :: right))
    (hframe : Footprint m m' (e :: h :: (left ++ right))) :
    Rings m' (s.set h (left ++ e :: right)) ∧
      ∀ k ∈ s.heads, k ≠ h → (s.set h (left ++ e :: right)).members k = s.members k ∧
        ∀ q ∈ k :: s.members k, m' q = m q := by
  rw [← hcut] at hframe
  have hsame := same_elsewhere hr hh hframe he
  constructor
  · apply hr.set hh hring _ hsame
    intro q hq
    simp only [List.mem_append, List.mem_cons] at hq
    rcases hq with hq | rfl | hq
    · exact .inl (hcut ▸ List.mem_append_left _ hq)
    · exact .inr he
    · exact .inl (hcut ▸ List.mem_append_right _ hq)
  · intro k hk hkh
    exact ⟨s.members_set_ne _ hkh, hsame k hk hkh⟩

/-- And so does taking a member out of one of them. -/
theorem family_removed (hr : Rings m s) (hh : h ∈ s.heads) {left right : List A} {x : A}
    (hcut : s.members h = left ++ x :: right) (hring : Ring m' h (left ++ right))
    (hframe : Footprint m m' (h :: (left ++ right))) :
    Rings m' (s.set h (left ++ right)) ∧
      ∀ k ∈ s.heads, k ≠ h → (s.set h (left ++ right)).members k = s.members k ∧
        ∀ q ∈ k :: s.members k, m' q = m q := by
  have hsub : ∀ q ∈ left ++ right, q ∈ s.members h := by
    intro q hq
    rw [hcut]
    rcases List.mem_append.mp hq with hq | hq <;> simp [hq]
  have hown : ∀ q ∈ h :: (left ++ right), q ∈ h :: s.members h := by
    intro q hq
    rcases List.mem_cons.mp hq with rfl | hq
    · simp
    · exact List.mem_cons_of_mem _ (hsub q hq)
  have hsame := same_elsewhere_of_own hr hh hframe hown
  constructor
  · exact hr.set hh hring (fun q hq => .inl (hsub q hq)) hsame
  · intro k hk hkh
    exact ⟨s.members_set_ne _ hkh, hsame k hk hkh⟩

/-- A whole list goes to a free head. -/
theorem family_moved (hr : Rings m s) (hh : h ∈ s.heads) (he : s.Free e)
    (hnew : Ring m' e (s.members h)) (hold : Ring m' h [])
    (hframe : Footprint m m' (e :: h :: s.members h)) :
    Rings m' ((s.set h []).add e (s.members h)) ∧
      ∀ k ∈ s.heads, k ≠ h → ((s.set h []).add e (s.members h)).members k = s.members k ∧
        ∀ q ∈ k :: s.members k, m' q = m q := by
  have hsame := same_elsewhere hr hh hframe he
  have hleft : Rings m' (s.set h []) := hr.set hh hold (by simp) hsame
  -- the cells that move are on none of the lists left, the old head's included
  have hfree : ∀ q ∈ e :: s.members h, (s.set h []).Free q := by
    intro q hq k hk
    rcases eq_or_ne k h with rfl | hkh
    · rw [s.members_set_self]
      intro hmem
      rw [List.mem_singleton.mp hmem] at hq
      rcases List.mem_cons.mp hq with heq | hq
      · exact he k hk (by simp [heq])
      · exact (hr.ring k hk).head_not_mem hq
    · rw [s.members_set_ne [] hkh]
      rcases List.mem_cons.mp hq with rfl | hq
      · exact he k hk
      · exact hr.apart h hh k hk hkh.symm q (List.mem_cons_of_mem _ hq)
  constructor
  · exact hleft.add hnew hfree (fun _ _ _ _ => rfl)
  · intro k hk hkh
    have hke : k ≠ e := by
      rintro rfl
      exact he k hk (by simp)
    exact ⟨(Family.members_add_ne _ _ hke).trans (s.members_set_ne _ hkh), hsame k hk hkh⟩

/-- Every call that may be made on the lists a memory holds returns what it
should, and leaves a memory that holds the lists it should: well-formed rings
again, with every cell outside the list concerned as it was. -/
theorem listStep_refines {op : ListOp A} {reply : ListReply A} {s' : Family A}
    (hr : Rings m s) (hstep : SeqStep s op h reply s')
    (hentry : ∀ e, op.arriving = some e → (m e).isSome) :
    ∃ m', (listStep op).run m = some (reply, m') ∧ Rings m' s' ∧
      (∀ k ∈ s.heads, k ≠ h → s'.members k = s.members k ∧
        ∀ q ∈ k :: s.members k, m' q = m q) ∧
      ∀ q, (m' q).isSome = (m q).isSome := by
  cases hstep with
  | isListEmpty head =>
      refine ⟨m, ?_, hr, fun _ _ _ => ⟨rfl, fun _ _ => rfl⟩, fun _ => rfl⟩
      simp [listStep, isListEmpty_spec (hr.ring _ head)]
  | @insertTail _ e head free =>
      obtain ⟨m', hrun, hring, hframe⟩ :=
        insertTailList_spec (hr.ring _ head) (free _ head) (hentry e rfl)
      have hcut : s.members h = s.members h ++ [] := (List.append_nil _).symm
      obtain ⟨hrings, hothers⟩ := family_inserted hr head free hcut hring (by simpa using hframe)
      exact ⟨m', by simp [listStep, hrun], hrings, hothers, hframe.mapped⟩
  | @insertHead _ e head free =>
      obtain ⟨m', hrun, hring, hframe⟩ :=
        insertHeadList_spec (hr.ring _ head) (free _ head) (hentry e rfl)
      have hcut : s.members h = [] ++ s.members h := rfl
      obtain ⟨hrings, hothers⟩ := family_inserted hr head free hcut hring hframe
      exact ⟨m', by simp [listStep, hrun], hrings, hothers, hframe.mapped⟩
  | @insertBeforeMember _ x e left right head free base =>
      have hring := hr.ring _ head
      have hfree := free _ head
      rw [base] at hring hfree
      obtain ⟨m', hrun, hring', hframe⟩ :=
        insertBeforeEntry_spec hring hfree (hentry e rfl)
      have hrun' : (insertBeforeEntry x e).run m = some ((), m') := hrun
      obtain ⟨hrings, hothers⟩ := family_inserted hr head free base hring' hframe
      exact ⟨m', by simp [listStep, hrun'], hrings, hothers, hframe.mapped⟩
  | @insertBeforeHead _ e head free =>
      have hcut : s.members h = s.members h ++ [] := (List.append_nil _).symm
      have hring := hr.ring _ head
      have hfree := free _ head
      rw [hcut] at hring hfree
      obtain ⟨m', hrun, hring', hframe⟩ :=
        insertBeforeEntry_spec hring hfree (hentry e rfl)
      have hrun' : (insertBeforeEntry h e).run m = some ((), m') := hrun
      obtain ⟨hrings, hothers⟩ := family_inserted hr head free hcut hring' hframe
      exact ⟨m', by simp [listStep, hrun'], hrings, hothers, hframe.mapped⟩
  | @removeEntry _ x left right head member =>
      have hring := hr.ring _ head
      rw [member] at hring
      obtain ⟨m', hrun, hring', hframe⟩ := removeEntryList_spec hring
      obtain ⟨hrings, hothers⟩ := family_removed hr head member hring' hframe
      exact ⟨m', by simp [listStep, hrun], hrings, hothers, hframe.mapped⟩
  | @removeHead _ x rest head first =>
      have hring := hr.ring _ head
      rw [first] at hring
      obtain ⟨m', hrun, hring', hframe⟩ := removeHeadList_spec hring
      have hcut : s.members h = [] ++ x :: rest := first
      obtain ⟨hrings, hothers⟩ := family_removed hr head hcut hring' hframe
      exact ⟨m', by simp [listStep, hrun], hrings, hothers, hframe.mapped⟩
  | @removeTail _ x front head last =>
      have hring := hr.ring _ head
      rw [last] at hring
      obtain ⟨m', hrun, hring', hframe⟩ := removeTailList_spec hring
      rw [← List.append_nil front] at hring' hframe ⊢
      obtain ⟨hrings, hothers⟩ := family_removed hr head last hring' hframe
      exact ⟨m', by simp [listStep, hrun], hrings, hothers, hframe.mapped⟩
  | @changeHead _ new head free =>
      obtain ⟨m', hrun, hnew, hold, hframe⟩ :=
        changeHead_spec (hr.ring _ head) (free _ head) (hentry new rfl)
      obtain ⟨hrings, hothers⟩ := family_moved hr head free hnew hold hframe
      exact ⟨m', by simp [listStep, hrun], hrings, hothers, hframe.mapped⟩

/-- And so does every run of calls each of which may be made when its turn
comes. -/
theorem listRun_refines {ops : List (ListOp A)} {replies : List (ListReply A)} {s' : Family A}
    (hsteps : Steps (fun s op reply s' => ∃ h, SeqStep s op h reply s') s ops replies s')
    (hr : Rings m s) (hentry : ∀ op ∈ ops, ∀ e, op.arriving = some e → (m e).isSome) :
    ∃ m', (ops.mapM listStep).run m = some (replies, m') ∧ Rings m' s' := by
  induction hsteps generalizing m with
  | nil s => exact ⟨m, rfl, hr⟩
  | cons first rest ih =>
      obtain ⟨h, hstep⟩ := first
      obtain ⟨m₁, hrun, hr₁, _, hmapped⟩ := listStep_refines hr hstep (hentry _ (by simp))
      obtain ⟨m', hrest, hr'⟩ := ih hr₁ (by
        intro op hop e he
        rw [hmapped]
        exact hentry op (by simp [hop]) e he)
      exact ⟨m', by simp [hrun, hrest], hr'⟩

end Sequences

section Example

/-- Two lists, the one of 0 with the member 1 and the empty one of 2, and the
entry 3 beside them. -/
def twoLists : Mem Nat
  | 0 => some ⟨1, 1⟩
  | 1 => some ⟨0, 0⟩
  | 2 => some ⟨2, 2⟩
  | 3 => some ⟨3, 3⟩
  | _ => none

def twoFamily : Family Nat where
  heads := {0, 2}
  members := fun h => if h = 0 then [1] else []

theorem rings_twoLists : Rings twoLists twoFamily := by
  have hheads : ∀ h ∈ twoFamily.heads, h = 0 ∨ h = 2 := fun h hh => hh
  constructor
  · intro h hh
    rcases hheads h hh with rfl | rfl
    · exact ⟨by decide, by simp [twoFamily, Linked, nextOf, prevOf, twoLists]⟩
    · exact ⟨by decide, by simp [twoFamily, Linked, nextOf, prevOf, twoLists]⟩
  · intro h hh k hk hne q hq
    rcases hheads h hh with rfl | rfl <;> rcases hheads k hk with rfl | rfl <;>
      simp [twoFamily] at hne hq ⊢ <;> omega

theorem listStep_refines_inserted :
    ∃ m', (listStep (.insertBeforeEntry 1 3)).run twoLists = some (.nothing, m') ∧
      Rings m' (twoFamily.set 0 [3, 1]) := by
  have hfree : twoFamily.Free 3 := by
    intro h hh
    rcases (show h = 0 ∨ h = 2 from hh) with rfl | rfl <;> decide
  have hbase : twoFamily.members 0 = [] ++ 1 :: [] := rfl
  obtain ⟨m', hrun, hr, _⟩ := listStep_refines rings_twoLists
    (.insertBeforeMember (.inl rfl) hfree hbase) (by rintro e ⟨⟩; rfl)
  exact ⟨m', hrun, hr⟩

end Example

end RedisTrace
