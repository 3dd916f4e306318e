import Mathlib.Algebra.BigOperators.Group.Finset.Basic
import Mathlib.Data.List.Induction
import Mathlib.Data.Set.Card
import RedisTrace.Library.Machine

/-!
Exchanges. A machine is idle, or keeps one open request. An input may open a
request when none is open; while one is open, an input either closes it, which
is answered, or renews it. The inputs of such a machine fall into ignored ones,
complete exchanges, and at the end at most one exchange that is still open; and
there is only one way to see them so.
-/

namespace Exchange

open Machine

universe u

variable {ι π ρ : Type u}

/-- What an input does to an open request; renewing it does not change what
closes it. -/
structure Protocol (ι π ρ : Type u) where
  opens : ι → Option π
  closes : π → ι → Bool
  renewed : π → ι → π
  answer : π → ι → ρ
  closes_renewed : ∀ p i j, closes (renewed p i) j = closes p j

variable (e : Protocol ι π ρ)

def Protocol.step (i : ι) : Option π → Option π × Option ρ
  | none => (e.opens i, none)
  | some p => if e.closes p i then (none, some (e.answer p i)) else (some (e.renewed p i), none)

/-- `Complete e is rs`: the inputs are ignored ones and complete exchanges, and
`rs` are the answers to the latter. -/
inductive Complete : List ι → List ρ → Prop where
  | nil : Complete [] []
  | ignored {i : ι} {is : List ι} {rs : List ρ} (unopened : e.opens i = none)
      (rest : Complete is rs) : Complete (i :: is) rs
  | exchange {i j : ι} {between is : List ι} {p : π} {rs : List ρ}
      (opened : e.opens i = some p) (kept : ∀ x ∈ between, e.closes p x = false)
      (closed : e.closes p j = true) (rest : Complete is rs) :
      Complete (i :: between ++ j :: is) (e.answer (between.foldl e.renewed p) j :: rs)

/-- Complete exchanges, and then one that is open and has come to be `q`. -/
def Pending (is : List ι) (rs : List ρ) (q : π) : Prop :=
  ∃ before i between p, is = before ++ i :: between ∧ Complete e before rs ∧
    e.opens i = some p ∧ (∀ x ∈ between, e.closes p x = false) ∧
    q = between.foldl e.renewed p

section Grammar

variable {e} {is js : List ι} {rs ss : List ρ} {p q : π} {i : ι}

theorem closes_foldl (p : π) (between : List ι) (j : ι) :
    e.closes (between.foldl e.renewed p) j = e.closes p j := by
  induction between generalizing p with
  | nil => rfl
  | cons i between ih => rw [List.foldl_cons, ih, e.closes_renewed]

theorem Complete.append (hcomplete : Complete e is rs) (hrest : Complete e js ss) :
    Complete e (is ++ js) (rs ++ ss) := by
  induction hcomplete with
  | nil => exact hrest
  | ignored unopened rest ih => exact .ignored unopened ih
  | @exchange i j between is p rs opened kept closed rest ih =>
      have hmore := Complete.exchange opened kept closed ih
      simpa using hmore

/-- An open request stays open over inputs that do not close it. -/
theorem run_kept (hkept : ∀ x ∈ is, e.closes p x = false) :
    (run e.step is (some p)).1 = some (is.foldl e.renewed p) ∧
      answers e.step is (some p) = [] := by
  induction is generalizing p with
  | nil => exact ⟨rfl, rfl⟩
  | cons i is ih =>
      have hstep : e.step i (some p) = (some (e.renewed p i), none) := by
        simp [Protocol.step, hkept i (by simp)]
      obtain ⟨hstate, hnone⟩ := ih (p := e.renewed p i) (by
        intro x hx
        rw [e.closes_renewed]
        exact hkept x (by simp [hx]))
      constructor
      · rw [run, hstep]
        exact hstate
      · rw [answers_cons, hstep]
        exact hnone

theorem Complete.run (hcomplete : Complete e is rs) :
    (run e.step is none).1 = none ∧ answers e.step is none = rs := by
  induction hcomplete with
  | nil => exact ⟨rfl, rfl⟩
  | ignored unopened rest ih =>
      rw [Machine.run, answers_cons, Protocol.step, unopened]
      exact ih
  | @exchange i j between is p rs opened kept closed rest ih =>
      obtain ⟨hstate, hnone⟩ := run_kept kept
      have hclose : e.step j (some (between.foldl e.renewed p)) =
          (none, some (e.answer (between.foldl e.renewed p) j)) := by
        rw [Protocol.step, closes_foldl, closed]
        rfl
      rw [List.cons_append, Machine.run, answers_cons, Protocol.step, opened, run_append,
        answers_append, hstate, hnone, Machine.run, answers_cons, hclose]
      refine ⟨ih.1, ?_⟩
      rw [ih.2]
      rfl

theorem Pending.run (hpending : Pending e is rs q) :
    (run e.step is none).1 = some q ∧ answers e.step is none = rs := by
  obtain ⟨before, i, between, p, rfl, hbefore, hopens, hkept, rfl⟩ := hpending
  obtain ⟨hstate, hanswers⟩ := hbefore.run
  obtain ⟨hkeeps, hnone⟩ := run_kept hkept
  rw [run_append, answers_append, hstate, hanswers, Machine.run, answers_cons, Protocol.step,
    hopens]
  refine ⟨hkeeps, ?_⟩
  rw [hnone]
  simp

/-- One more input behind complete exchanges. -/
theorem Complete.snoc (hcomplete : Complete e is rs) (i : ι) :
    (e.opens i = none ∧ Complete e (is ++ [i]) rs) ∨
      ∃ p, e.opens i = some p ∧ Pending e (is ++ [i]) rs p := by
  cases hopens : e.opens i with
  | none =>
      have hmore := hcomplete.append (Complete.ignored hopens .nil)
      rw [List.append_nil] at hmore
      exact .inl ⟨rfl, hmore⟩
  | some p => exact .inr ⟨p, rfl, is, i, [], p, rfl, hcomplete, hopens, by simp, rfl⟩

/-- One more input behind an open exchange. -/
theorem Pending.snoc (hpending : Pending e is rs q) (i : ι) :
    (e.closes q i = true ∧ Complete e (is ++ [i]) (rs ++ [e.answer q i])) ∨
      (e.closes q i = false ∧ Pending e (is ++ [i]) rs (e.renewed q i)) := by
  obtain ⟨before, j, between, p, rfl, hbefore, hopens, hkept, rfl⟩ := hpending
  rw [closes_foldl]
  cases hcloses : e.closes p i with
  | true =>
      have hmore := hbefore.append (Complete.exchange hopens hkept hcloses .nil)
      refine .inl ⟨rfl, ?_⟩
      simpa using hmore
  | false =>
      refine .inr ⟨rfl, before, j, between ++ [i], p, by simp, hbefore, hopens, ?_, by simp⟩
      intro x hx
      rcases List.mem_append.mp hx with hx | hx
      · exact hkept x hx
      · rw [List.mem_singleton.mp hx]
        exact hcloses

/-- Whatever the inputs are, they are complete exchanges or end in an open one;
the induction adds them at the end. -/
theorem run_described (is : List ι) :
    ((run e.step is none).1 = none ∧ Complete e is (answers e.step is none)) ∨
      ∃ q, (run e.step is none).1 = some q ∧ Pending e is (answers e.step is none) q := by
  induction is using List.reverseRecOn with
  | nil => exact .inl ⟨rfl, .nil⟩
  | append_singleton is i ih =>
      rcases ih with ⟨-, hcomplete⟩ | ⟨q, -, hpending⟩
      · rcases hcomplete.snoc i with ⟨-, hmore⟩ | ⟨p, -, hopen⟩
        · rw [hmore.run.2]
          exact .inl ⟨hmore.run.1, hmore⟩
        · rw [hopen.run.2]
          exact .inr ⟨p, hopen.run.1, hopen⟩
      · rcases hpending.snoc i with ⟨-, hmore⟩ | ⟨-, hopen⟩
        · rw [hmore.run.2]
          exact .inl ⟨hmore.run.1, hmore⟩
        · rw [hopen.run.2]
          exact .inr ⟨_, hopen.run.1, hopen⟩

theorem complete_iff :
    Complete e is rs ↔ (run e.step is none).1 = none ∧ answers e.step is none = rs := by
  constructor
  · exact Complete.run
  · rintro ⟨hstate, rfl⟩
    rcases run_described is with ⟨-, hcomplete⟩ | ⟨q, hopen, -⟩
    · exact hcomplete
    · rw [hstate] at hopen
      cases hopen

theorem pending_iff :
    Pending e is rs q ↔ (run e.step is none).1 = some q ∧ answers e.step is none = rs := by
  constructor
  · exact Pending.run
  · rintro ⟨hstate, rfl⟩
    rcases run_described is with ⟨hidle, -⟩ | ⟨q', hopen, hpending⟩
    · rw [hstate] at hidle
      cases hidle
    · rw [hstate] at hopen
      cases hopen
      exact hpending

/-- Inputs that do not close requests like `p`, and open none but such. -/
def Protocol.Keeps (e : Protocol ι π ρ) (p : π) (is : List ι) : Prop :=
  ∀ x ∈ is, e.closes p x = false ∧ ∀ q, e.opens x = some q → ∀ j, e.closes q j = e.closes p j

/-- Where no request is open they are not answered, and leave one like `p`, if
they leave one. -/
theorem run_none_of_keeps (hkeeps : e.Keeps p is) :
    answers e.step is none = [] ∧
      ∀ q, (run e.step is none).1 = some q → ∀ j, e.closes q j = e.closes p j := by
  induction is with
  | nil => exact ⟨rfl, fun q hq => by cases hq⟩
  | cons i is ih =>
      have hrest : e.Keeps p is := fun x hx => hkeeps x (by simp [hx])
      cases hopens : e.opens i with
      | none =>
          rw [answers_cons, run, Protocol.step, hopens]
          exact ih hrest
      | some q =>
          have hlike := (hkeeps i (by simp)).2 q hopens
          obtain ⟨hstate, hnone⟩ :=
            run_kept (fun x hx => (hlike x).trans (hrest x hx).1 : ∀ x ∈ is, e.closes q x = false)
          rw [answers_cons, run, Protocol.step, hopens]
          refine ⟨by rw [hnone]; rfl, ?_⟩
          intro q' hq' j
          rw [hstate] at hq'
          obtain rfl := Option.some.inj hq'
          rw [closes_foldl, hlike]

/-- A run that has missed an open request comes together with one that has not
at the input that closes it. -/
theorem rejoin {g : ι} (hkeeps : e.Keeps p is) (hcloses : e.closes p g = true)
    (hunopened : e.opens g = none) (js : List ι) :
    ∃ r got, answers e.step (is ++ g :: js) (some p) = r :: answers e.step js none ∧
      answers e.step (is ++ g :: js) none = got ++ answers e.step js none ∧ got.length ≤ 1 := by
  obtain ⟨hstate, hnone⟩ := run_kept (fun x hx => (hkeeps x hx).1)
  obtain ⟨hnone', hlike⟩ := run_none_of_keeps hkeeps
  have hclosed : e.closes (is.foldl e.renewed p) g = true := by rw [closes_foldl, hcloses]
  rw [answers_append, hstate, hnone, answers_append, hnone', answers_cons, answers_cons,
    Protocol.step, hclosed, if_pos rfl]
  refine ⟨_, ((e.step g (run e.step is none).1).2).toList, rfl, ?_, ?_⟩
  · cases hopen : (run e.step is none).1 with
    | none => simp [Protocol.step, hunopened]
    | some q => simp [Protocol.step, hlike q hopen g, hcloses]
  · exact Option.length_toList_le

end Grammar

section Sides

/-- The inputs have two sides: those of the one open requests, and the other
side's close them. -/
def Protocol.Sided (e : Protocol ι π ρ) (asks : ι → Bool) (is : List ι) : Prop :=
  ∀ i ∈ is, ∀ p, e.opens i = some p → asks i = true ∧ ∀ j ∈ is, e.closes p j = !asks j

/-- How many requests are closed, counted by the sides alone. -/
def closings (opens asks : ι → Bool) : List ι → Bool → ℕ
  | [], _ => 0
  | i :: is, isOpen =>
      if asks i then closings opens asks is (isOpen || opens i)
      else isOpen.toNat + closings opens asks is false

variable {e : Protocol ι π ρ} {opens asks : ι → Bool} {is js : List ι}

theorem Protocol.Sided.sublist (hsided : e.Sided asks is) (hsub : js.Sublist is) :
    e.Sided asks js := by
  intro i hi p hopens
  obtain ⟨hasks, hcloses⟩ := hsided i (hsub.subset hi) p hopens
  exact ⟨hasks, fun j hj => hcloses j (hsub.subset hj)⟩

theorem length_answers (hsided : e.Sided asks is) (s : Option π)
    (hs : ∀ p, s = some p → ∀ j ∈ is, e.closes p j = !asks j) :
    (answers e.step is s).length =
      closings (fun i => (e.opens i).isSome) asks is s.isSome := by
  induction is generalizing s with
  | nil => rfl
  | cons i is ih =>
      have hrest := hsided.sublist (List.sublist_cons_self i is)
      rw [answers_cons, closings]
      cases s with
      | none =>
          cases hopens : e.opens i with
          | none =>
              have hnone := ih hrest none (fun p hp => by cases hp)
              simpa [Protocol.step, hopens] using hnone
          | some p =>
              obtain ⟨hasks, hcloses⟩ := hsided i (by simp) p hopens
              have hopen := ih hrest (some p) (fun q hq j hj => by
                obtain rfl := Option.some.inj hq
                exact hcloses j (by simp [hj]))
              simpa [Protocol.step, hopens, hasks] using hopen
      | some p =>
          have hcloses := hs p rfl i (by simp)
          cases hasks : asks i with
          | true =>
              have hopen := ih hrest (some (e.renewed p i)) (fun q hq j hj => by
                obtain rfl := Option.some.inj hq
                rw [e.closes_renewed]
                exact hs p rfl j (by simp [hj]))
              simpa [Protocol.step, hcloses, hasks] using hopen
          | false =>
              have hnone := ih hrest none (fun q hq => by cases hq)
              simpa [Protocol.step, hcloses, hasks, Nat.add_comm] using hnone

theorem closings_ask {i : ι} (hasks : asks i = true) (is : List ι) (isOpen : Bool) :
    closings opens asks (i :: is) isOpen = closings opens asks is (isOpen || opens i) :=
  if_pos hasks

theorem closings_reply {i : ι} (hasks : asks i = false) (is : List ι) (isOpen : Bool) :
    closings opens asks (i :: is) isOpen = isOpen.toNat + closings opens asks is false :=
  if_neg (by simp [hasks])

/-- An open request is worth at most one answer. -/
theorem closings_open (opens asks : ι → Bool) (is : List ι) :
    closings opens asks is false ≤ closings opens asks is true ∧
      closings opens asks is true ≤ closings opens asks is false + 1 := by
  induction is with
  | nil => exact ⟨le_rfl, Nat.zero_le 1⟩
  | cons i is ih =>
      cases hasks : asks i with
      | true =>
          rw [closings_ask hasks, closings_ask hasks]
          cases opens i with
          | true => exact ⟨le_rfl, Nat.le_succ _⟩
          | false => exact ih
      | false =>
          rw [closings_reply hasks, closings_reply hasks]
          simp [Nat.add_comm]

theorem closings_idle (opens asks : ι → Bool) (is : List ι) (isOpen : Bool) :
    closings opens asks is false ≤ closings opens asks is isOpen ∧
      closings opens asks is isOpen ≤ closings opens asks is false + isOpen.toNat := by
  cases isOpen with
  | true => exact closings_open opens asks is
  | false => exact ⟨le_rfl, le_rfl⟩

theorem closings_more (opens asks : ι → Bool) (is : List ι) (isOpen more : Bool) :
    closings opens asks is isOpen ≤ closings opens asks is (isOpen || more) ∧
      closings opens asks is (isOpen || more) ≤ closings opens asks is isOpen + 1 := by
  have hopen := closings_open opens asks is
  cases isOpen with
  | true => exact ⟨le_rfl, Nat.le_succ _⟩
  | false =>
      cases more with
      | true => exact hopen
      | false => exact ⟨le_rfl, Nat.le_succ _⟩

/-- An input that is missing costs at most one answer; there are never more. -/
theorem closings_sublist (hsub : js.Sublist is) (isOpen : Bool) :
    closings opens asks js isOpen ≤ closings opens asks is isOpen ∧
      closings opens asks is isOpen + js.length ≤ closings opens asks js isOpen + is.length := by
  induction hsub generalizing isOpen with
  | slnil => exact ⟨le_rfl, le_rfl⟩
  | @cons js is i hsub ih =>
      rw [List.length_cons]
      cases hasks : asks i with
      | true =>
          have hmore := closings_more opens asks js isOpen (opens i)
          have hrest := ih (isOpen || opens i)
          rw [closings_ask hasks]
          omega
      | false =>
          have hidle := closings_idle opens asks js isOpen
          have hrest := ih false
          have hworth : isOpen.toNat ≤ 1 := Bool.toNat_le isOpen
          rw [closings_reply hasks]
          omega
  | @cons_cons js is i hsub ih =>
      rw [List.length_cons, List.length_cons]
      cases hasks : asks i with
      | true =>
          have hrest := ih (isOpen || opens i)
          rw [closings_ask hasks, closings_ask hasks]
          omega
      | false =>
          have hrest := ih false
          rw [closings_reply hasks, closings_reply hasks]
          omega

end Sides

section Owners

/-- The elements of a list, counted by their owners. -/
theorem sum_owned {ρ κ : Type} [DecidableEq κ] (owner : ρ → κ) {s : Finset κ} {rs : List ρ}
    (hs : ∀ r ∈ rs, owner r ∈ s) :
    ∑ k ∈ s, (rs.filter (fun r => owner r = k)).length = rs.length := by
  have hsum : ∑ k ∈ s, (↑(rs.map owner) : Multiset κ).count k = (rs.map owner).length :=
    Multiset.sum_count_eq_card (by simpa using hs)
  rw [List.length_map] at hsum
  rw [← hsum]
  apply Finset.sum_congr rfl
  intro k _
  rw [Multiset.coe_count, List.count_eq_countP, List.countP_map, List.countP_eq_length_filter]
  congr 1

end Owners

section Conservation

variable {κ : Type u} [DecidableEq κ] (route : ι → Option κ)

/-- The members that have a request open. -/
def waiting (s : κ → Option π) : Set κ := {k | (s k).isSome}

/-- The family of such machines, watched for the inputs that open a request. -/
def opening (i : ι) (s : κ → Option π) : (κ → Option π) × Option ι :=
  ((family route e.step i s).1,
    match route i with
    | some k => if (s k).isNone && (e.opens i).isSome then some i else none
    | none => none)

variable {e route} {i : ι} {k : κ} {s : κ → Option π}

theorem waiting_set (p : π) : waiting (fun k' => if k' = k then some p else s k') =
    insert k (waiting s) := by
  ext k'
  rcases eq_or_ne k' k with rfl | hne
  · simp [waiting]
  · simp [waiting, hne]

theorem waiting_clear : waiting (fun k' => if k' = k then none else s k') =
    waiting s \ {k} := by
  ext k'
  rcases eq_or_ne k' k with rfl | hne
  · simp [waiting]
  · simp [waiting, hne]

variable (e route) in
/-- What is opened is open until it is answered. -/
theorem waiting_step (i : ι) (hfinite : (waiting s).Finite) :
    (waiting (family route e.step i s).1).Finite ∧
      (waiting (family route e.step i s).1).ncard +
          (family route e.step i s).2.toList.length =
        (waiting s).ncard + (opening e route i s).2.toList.length := by
  cases hroute : route i with
  | none => simp [family_unrouted s hroute, opening, hroute, hfinite]
  | some k =>
      rw [family_state s hroute, family_answer s hroute, opening, hroute]
      cases hk : s k with
      | none =>
          have hmem : k ∉ waiting s := by simp [waiting, hk]
          cases hopens : e.opens i with
          | none =>
              have hstep : e.step i none = (none, none) := by simp [Protocol.step, hopens]
              simp only [hstep, waiting_clear, Set.sdiff_singleton_eq_self hmem]
              simpa using hfinite
          | some p =>
              have hstep : e.step i none = (some p, none) := by simp [Protocol.step, hopens]
              simp only [hstep, waiting_set]
              refine ⟨hfinite.insert k, ?_⟩
              rw [Set.ncard_insert_of_notMem hmem hfinite]
              simp [hk]
      | some p =>
          have hmem : k ∈ waiting s := by simp [waiting, hk]
          cases hcloses : e.closes p i with
          | true =>
              have hstep : e.step i (some p) = (none, some (e.answer p i)) := by
                simp [Protocol.step, hcloses]
              simp only [hstep, waiting_clear]
              refine ⟨hfinite.sdiff, ?_⟩
              have hcard := Set.ncard_sdiff_singleton_add_one hmem hfinite
              simpa [hk] using hcard
          | false =>
              have hstep : e.step i (some p) = (some (e.renewed p i), none) := by
                simp [Protocol.step, hcloses]
              simp only [hstep, waiting_set, Set.insert_eq_of_mem hmem]
              simpa [hk] using hfinite

variable (e route) in
/-- Over a whole run: the requests opened are those answered and those that are
still open. -/
theorem conserved (is : List ι) (hfinite : (waiting s).Finite) :
    (waiting (run (family route e.step) is s).1).ncard +
        (answers (family route e.step) is s).length =
      (waiting s).ncard + (answers (opening e route) is s).length := by
  induction is generalizing s with
  | nil => rfl
  | cons i is ih =>
      obtain ⟨hfinite', hstep⟩ := waiting_step e route i hfinite
      have hrest := ih hfinite'
      have hopening : (opening e route i s).1 = (family route e.step i s).1 := rfl
      rw [answers_cons, answers_cons, hopening, List.length_append, List.length_append]
      dsimp only [run]
      omega

end Conservation

end Exchange
