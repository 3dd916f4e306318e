import Mathlib.Data.List.Forall2
import Mathlib.Data.List.ReduceOption
import RedisTrace.Library.Run

/-!
Deterministic machines that read one input at a time and may answer it, and
families of them working side by side: every input of the family is routed to
at most one member. A member's part of a run is what the member does on its own
inputs alone.
-/

namespace Machine

open Run

universe u

variable {κ ι σ ρ : Type u}

/-- The final state and the answers, one place for each input. -/
def run (step : ι → σ → σ × Option ρ) : List ι → σ → σ × List (Option ρ)
  | [], s => (s, [])
  | i :: is, s => ((run step is (step i s).1).1, (step i s).2 :: (run step is (step i s).1).2)

/-- `ok` holds of every input in the state that reads it. -/
def Along (step : ι → σ → σ × Option ρ) (ok : ι → σ → Prop) : List ι → σ → Prop
  | [], _ => True
  | i :: is, s => ok i s ∧ Along step ok is (step i s).1

/-- The condition on an input that may not be routed can be decided. -/
instance decidableRouted (o : Option κ) (p : κ → Prop) [DecidablePred p] :
    Decidable (∀ k, o = some k → p k) :=
  match o with
  | none => isTrue (fun _ h => by cases h)
  | some k => decidable_of_iff (p k) ⟨fun hp _ h => Option.some.inj h ▸ hp, fun h => h k rfl⟩

instance decidableAlong (step : ι → σ → σ × Option ρ) (ok : ι → σ → Prop)
    [∀ i s, Decidable (ok i s)] : ∀ is s, Decidable (Along step ok is s)
  | [], _ => isTrue trivial
  | i :: is, s =>
      have := decidableAlong step ok is (step i s).1
      inferInstanceAs (Decidable (ok i s ∧ Along step ok is (step i s).1))

/-- The answers given, without the places that hold none. -/
def answers (step : ι → σ → σ × Option ρ) (is : List ι) (s : σ) : List ρ :=
  (run step is s).2.reduceOption

section Single

variable (step : ι → σ → σ × Option ρ)

theorem along_append (ok : ι → σ → Prop) (is js : List ι) (s : σ) :
    Along step ok (is ++ js) s ↔
      Along step ok is s ∧ Along step ok js (run step is s).1 := by
  induction is generalizing s with
  | nil => simp [Along, run]
  | cons i is ih => simp [Along, run, ih, and_assoc]

theorem along_of_mem {step : ι → σ → σ × Option ρ} {ok : ι → σ → Prop} {is : List ι}
    (hok : ∀ i ∈ is, ∀ s, ok i s) (s : σ) : Along step ok is s := by
  induction is generalizing s with
  | nil => trivial
  | cons i is ih => exact ⟨hok i (by simp) s, ih (fun j hj => hok j (by simp [hj])) _⟩

theorem Along.mono_mem {step : ι → σ → σ × Option ρ} {ok ok' : ι → σ → Prop} {is : List ι}
    {s : σ} (halong : Along step ok is s) (himp : ∀ i ∈ is, ∀ s, ok i s → ok' i s) :
    Along step ok' is s := by
  induction is generalizing s with
  | nil => trivial
  | cons i is ih =>
      exact ⟨himp i (by simp) s halong.1, ih halong.2 (fun j hj => himp j (by simp [hj]))⟩

theorem Along.mono {step : ι → σ → σ × Option ρ} {ok ok' : ι → σ → Prop} {is : List ι}
    {s : σ} (halong : Along step ok is s) (himp : ∀ i s, ok i s → ok' i s) :
    Along step ok' is s :=
  halong.mono_mem (fun i _ s => himp i s)

theorem along_take (ok : ι → σ → Prop) (is : List ι) (s : σ)
    (hok : Along step ok is s) (n : Nat) : Along step ok (is.take n) s := by
  rw [← List.take_append_drop n is, along_append] at hok
  exact hok.1

/-- The condition, input by input. -/
theorem along_iff (ok : ι → σ → Prop) (is : List ι) (s : σ) :
    Along step ok is s ↔ ∀ n i, is[n]? = some i → ok i (run step (is.take n) s).1 := by
  induction is generalizing s with
  | nil => simp [Along]
  | cons i is ih =>
      rw [Along, ih]
      constructor
      · rintro ⟨hfirst, hrest⟩ n j hj
        cases n with
        | zero =>
            obtain rfl : i = j := by simpa using hj
            exact hfirst
        | succ n => exact hrest n j (by simpa using hj)
      · intro hall
        exact ⟨hall 0 i rfl, fun n j hj => hall (n + 1) j (by simpa using hj)⟩

theorem answers_cons (i : ι) (is : List ι) (s : σ) :
    answers step (i :: is) s = (step i s).2.toList ++ answers step is (step i s).1 := by
  unfold answers
  rw [run]
  cases (step i s).2 with
  | none => exact List.reduceOption_cons_of_none _
  | some r => exact List.reduceOption_cons_of_some _ _

/-- A run goes on from where its first part has led. -/
theorem run_append (is js : List ι) (s : σ) :
    run step (is ++ js) s =
      ((run step js (run step is s).1).1,
        (run step is s).2 ++ (run step js (run step is s).1).2) := by
  induction is generalizing s with
  | nil => rfl
  | cons i is ih => simp [run, ih]

theorem answers_append (is js : List ι) (s : σ) :
    answers step (is ++ js) s =
      answers step is s ++ answers step js (run step is s).1 := by
  unfold answers
  rw [run_append, List.reduceOption_append]

/-- The answer to an input is given in the state the inputs before it have led
to. -/
theorem run_getElem? (is : List ι) (s : σ) (n : Nat) :
    (run step is s).2[n]? = is[n]?.map (fun i => (step i (run step (is.take n) s).1).2) := by
  induction is generalizing s n with
  | nil => rfl
  | cons i is ih =>
      cases n with
      | zero => rfl
      | succ n =>
          rw [run, List.getElem?_cons_succ, List.getElem?_cons_succ, ih]
          rfl

theorem length_run (step : ι → σ → σ × Option ρ) (is : List ι) (s : σ) :
    (run step is s).2.length = is.length := by
  induction is generalizing s with
  | nil => rfl
  | cons i is ih => rw [run, List.length_cons, List.length_cons, ih]

/-- A machine that does on images what another does answers alike. -/
theorem run_map {τ : Type u} {step : ι → σ → σ × Option ρ} {step' : ι → τ → τ × Option ρ}
    (g : σ → τ) (hmap : ∀ i s, step' i (g s) = (g (step i s).1, (step i s).2))
    (is : List ι) (s : σ) :
    run step' is (g s) = (g (run step is s).1, (run step is s).2) := by
  induction is generalizing s with
  | nil => rfl
  | cons i is ih => rw [run, run, hmap, ih]

theorem forall₂_toList {ρ' : Type u} {rel : ρ → ρ' → Prop} {a : Option ρ} {b : Option ρ'}
    (hrel : Option.Rel rel a b) : List.Forall₂ rel a.toList b.toList := by
  cases hrel with
  | some hr => exact .cons hr .nil
  | none => exact .nil

/-- Machines that take related inputs to related states, and answer alike, do so
over whole runs. -/
theorem run_related {ι' σ' ρ' : Type u} {step : ι → σ → σ × Option ρ}
    {step' : ι' → σ' → σ' × Option ρ'} {relI : ι → ι' → Prop} {relO : ρ → ρ' → Prop}
    (relS : σ → σ' → Prop)
    (hstep : ∀ i i' s s', relI i i' → relS s s' →
      relS (step i s).1 (step' i' s').1 ∧ Option.Rel relO (step i s).2 (step' i' s').2)
    {is : List ι} {is' : List ι'} (his : List.Forall₂ relI is is') {s : σ} {s' : σ'}
    (hs : relS s s') :
    relS (run step is s).1 (run step' is' s').1 ∧
      List.Forall₂ relO (answers step is s) (answers step' is' s') := by
  induction his generalizing s s' with
  | nil => exact ⟨hs, .nil⟩
  | @cons i i' is is' hi _ ih =>
      obtain ⟨hnext, hanswer⟩ := hstep i i' s s' hi hs
      obtain ⟨hstate, hrest⟩ := ih hnext
      rw [answers_cons, answers_cons]
      exact ⟨hstate, List.rel_append (forall₂_toList hanswer) hrest⟩

/-- What steps in order preserve holds at the end of a run in order. -/
theorem along_invariant {step : ι → σ → σ × Option ρ} {ok : ι → σ → Prop} (inv : σ → Prop)
    (hstep : ∀ i s, inv s → ok i s → inv (step i s).1) (is : List ι) (s : σ)
    (hinv : inv s) (hok : Along step ok is s) : inv (run step is s).1 := by
  induction is generalizing s with
  | nil => exact hinv
  | cons i is ih => exact ih _ (hstep i s hinv hok.1) hok.2

/-- The same for the answers: what every step in order keeps true of the state
decides what can be said of each answer. -/
theorem along_answers {step : ι → σ → σ × Option ρ} {ok : ι → σ → Prop} (inv : σ → Prop)
    (good : ρ → Prop)
    (hstep : ∀ i s, inv s → ok i s →
      inv (step i s).1 ∧ ∀ r, (step i s).2 = some r → good r)
    (is : List ι) (s : σ) (hinv : inv s) (hok : Along step ok is s) :
    ∀ r, some r ∈ (run step is s).2 → good r := by
  induction is generalizing s with
  | nil =>
      intro r hr
      cases hr
  | cons i is ih =>
      obtain ⟨hinv', hgood⟩ := hstep i s hinv hok.1
      intro r hr
      rcases List.mem_cons.mp hr with hfirst | hrest
      · exact hgood r hfirst.symm
      · exact ih _ hinv' hok.2 r hrest

/-- A program that follows the machine as long as the machine's inputs are in
order follows it over whole runs. -/
theorem mapM_follows {ε τ : Type u} {body : ι → StateT τ (Except ε) (Option ρ)}
    {ok : ι → σ → Prop} (rel : τ → σ → Prop)
    (hstep : ∀ w s i, rel w s → ok i s →
      ∃ w', (body i).run w = .ok ((step i s).2, w') ∧ rel w' (step i s).1)
    (is : List ι) (w : τ) (s : σ) (hrel : rel w s) (hok : Along step ok is s) :
    ∃ w', (is.mapM body).run w = .ok ((run step is s).2, w') ∧
      rel w' (run step is s).1 := by
  induction is generalizing w s with
  | nil => exact ⟨w, by simp [run], hrel⟩
  | cons i is ih =>
      obtain ⟨w₁, hfirst, hrel₁⟩ := hstep w s i hrel hok.1
      obtain ⟨w₂, hrest, hrel₂⟩ := ih w₁ _ hrel₁ hok.2
      exact ⟨w₂, by simp [hfirst, hrest, run], hrel₂⟩

/-- A run that gets to its end had its inputs in order, if the program breaks
off at any input that is not. -/
theorem along_of_mapM_ok {ε τ : Type u} {body : ι → StateT τ (Except ε) (Option ρ)}
    {ok : ι → σ → Prop} (rel : τ → σ → Prop)
    (hstep : ∀ w s i, rel w s → ok i s →
      ∃ w', (body i).run w = .ok ((step i s).2, w') ∧ rel w' (step i s).1)
    (hbreak : ∀ w s i, rel w s → ¬ ok i s → ∃ e, (body i).run w = .error e)
    (is : List ι) (w : τ) (s : σ) (hrel : rel w s) {result : List (Option ρ) × τ}
    (hrun : (is.mapM body).run w = .ok result) : Along step ok is s := by
  induction is generalizing w s result with
  | nil => trivial
  | cons i is ih =>
      by_cases hi : ok i s
      · obtain ⟨w₁, hfirst, hrel₁⟩ := hstep w s i hrel hi
        obtain ⟨_, hrest, _⟩ := mapM_cons_ok hfirst hrun
        exact ⟨hi, ih w₁ _ hrel₁ hrest⟩
      · obtain ⟨e, hfirst⟩ := hbreak w s i hrel hi
        simp [hfirst] at hrun

/-- And it breaks off where an input is not in order, if that is what it does
there. -/
theorem mapM_breaks {ε τ : Type u} {body : ι → StateT τ (Except ε) (Option ρ)}
    {ok : ι → σ → Prop} {e : ε} (rel : τ → σ → Prop)
    (hstep : ∀ w s i, rel w s → ok i s →
      ∃ w', (body i).run w = .ok ((step i s).2, w') ∧ rel w' (step i s).1)
    (hbreak : ∀ w s i, rel w s → ¬ ok i s → (body i).run w = .error e)
    (is : List ι) (w : τ) (s : σ) (hrel : rel w s) (hnot : ¬ Along step ok is s) :
    (is.mapM body).run w = .error e := by
  induction is generalizing w s with
  | nil => exact absurd trivial hnot
  | cons i is ih =>
      by_cases hi : ok i s
      · obtain ⟨w₁, hfirst, hrel₁⟩ := hstep w s i hrel hi
        have hrest := ih w₁ _ hrel₁ (fun halong => hnot ⟨hi, halong⟩)
        simp [hfirst, hrest]
      · simp [hbreak w s i hrel hi]

end Single

section Family

variable [DecidableEq κ] (route : ι → Option κ) (step : ι → σ → σ × Option ρ)

/-- The family as one machine. -/
def family (i : ι) (s : κ → σ) : (κ → σ) × Option ρ :=
  match route i with
  | none => (s, none)
  | some k => (fun k' => if k' = k then (step i (s k)).1 else s k', (step i (s k)).2)

/-- The inputs of one member. -/
def inputsOf (k : κ) (is : List ι) : List ι := is.filter (fun i => route i = some k)

variable {route step}

theorem family_unrouted {i : ι} (s : κ → σ) (hroute : route i = none) :
    family route step i s = (s, none) := by
  unfold family
  rw [hroute]

/-- Inputs for no member have no answer. -/
theorem answers_unrouted {is : List ι} (hroute : ∀ i ∈ is, route i = none) (s : κ → σ) :
    answers (family route step) is s = [] := by
  induction is generalizing s with
  | nil => rfl
  | cons i is ih =>
      rw [answers_cons, family_unrouted s (hroute i (by simp)),
        ih (fun j hj => hroute j (by simp [hj])) s]
      rfl

theorem family_state {i : ι} {k : κ} (s : κ → σ) (hroute : route i = some k) :
    (family route step i s).1 = fun k' => if k' = k then (step i (s k)).1 else s k' := by
  unfold family
  rw [hroute]

theorem family_self {i : ι} {k : κ} (s : κ → σ) (hroute : route i = some k) :
    (family route step i s).1 k = (step i (s k)).1 := by
  rw [family_state s hroute]
  exact if_pos rfl

theorem family_answer {i : ι} {k : κ} (s : κ → σ) (hroute : route i = some k) :
    (family route step i s).2 = (step i (s k)).2 := by
  unfold family
  rw [hroute]

theorem family_elsewhere {i : ι} {k : κ} (s : κ → σ) (hroute : route i ≠ some k) :
    (family route step i s).1 k = s k := by
  cases hi : route i with
  | none => rw [family_unrouted s hi]
  | some k' =>
      have hne : k ≠ k' := by
        rintro rfl
        exact hroute hi
      rw [family_state s hi]
      exact if_neg hne

theorem inputsOf_cons_self {i : ι} {k : κ} (is : List ι) (hroute : route i = some k) :
    inputsOf route k (i :: is) = i :: inputsOf route k is := by
  simp [inputsOf, hroute]

theorem inputsOf_cons_ne {i : ι} {k : κ} (is : List ι) (hroute : route i ≠ some k) :
    inputsOf route k (i :: is) = inputsOf route k is := by
  simp [inputsOf, hroute]

theorem inputsOf_inputsOf_self (k : κ) (is : List ι) :
    inputsOf route k (inputsOf route k is) = inputsOf route k is := by
  simp [inputsOf]

theorem inputsOf_inputsOf_ne {k k' : κ} (hne : k' ≠ k) (is : List ι) :
    inputsOf route k' (inputsOf route k is) = [] := by
  unfold inputsOf
  rw [List.filter_filter, List.filter_eq_nil_iff]
  intro i _ hboth
  obtain ⟨hk', hk⟩ : route i = some k' ∧ route i = some k := by simpa using hboth
  exact hne (Option.some.inj (hk'.symm.trans hk))

/-- Neighbouring inputs of different members may change places. -/
theorem inputsOf_swap {i j : ι} (hij : route i ≠ route j) (k : κ) (before after : List ι) :
    inputsOf route k (before ++ i :: j :: after) =
      inputsOf route k (before ++ j :: i :: after) := by
  unfold inputsOf
  rw [List.filter_append, List.filter_append]
  by_cases hi : route i = some k
  · have hj : route j ≠ some k := fun heq => hij (hi.trans heq.symm)
    simp [hi, hj]
  · simp [List.filter_cons, hi]

/-- A member ends where its own inputs lead it. -/
theorem run_family_state (k : κ) (is : List ι) (s : κ → σ) :
    (run (family route step) is s).1 k = (run step (inputsOf route k is) (s k)).1 := by
  induction is generalizing s with
  | nil => rfl
  | cons i is ih =>
      rw [run, ih]
      by_cases hi : route i = some k
      · rw [inputsOf_cons_self is hi, run, family_self s hi]
      · rw [inputsOf_cons_ne is hi, family_elsewhere s hi]

/-- When every answer carries the index of the member that gave it, a member's
answers are those it gives on its own inputs. -/
theorem answers_family (tag : ρ → κ)
    (htag : ∀ i k s r, route i = some k → (step i s).2 = some r → tag r = k)
    (k : κ) (is : List ι) (s : κ → σ) :
    (answers (family route step) is s).filter (fun r => tag r = k) =
      answers step (inputsOf route k is) (s k) := by
  induction is generalizing s with
  | nil => rfl
  | cons i is ih =>
      rw [answers_cons, List.filter_append, ih]
      by_cases hi : route i = some k
      · rw [inputsOf_cons_self is hi, answers_cons, family_self s hi, family_answer s hi]
        congr 1
        cases hout : (step i (s k)).2 with
        | none => rfl
        | some r => simp [htag i k _ r hi hout]
      · rw [inputsOf_cons_ne is hi, family_elsewhere s hi]
        have hother : ((family route step i s).2.toList).filter
            (fun r => tag r = k) = [] := by
          cases hk : route i with
          | none => rw [family_unrouted s hk]; rfl
          | some k' =>
              rw [family_answer s hk]
              have hne : k' ≠ k := by
                rintro rfl
                exact hi hk
              cases hout : (step i (s k')).2 with
              | none => rfl
              | some r => simp [htag i k' _ r hk hout, hne]
        rw [hother, List.nil_append]

/-- The family's inputs are in order when every member's are. -/
theorem along_family (ok : ι → σ → Prop) (is : List ι) (s : κ → σ) :
    Along (family route step) (fun i s => ∀ k, route i = some k → ok i (s k)) is s ↔
      ∀ k, Along step ok (inputsOf route k is) (s k) := by
  induction is generalizing s with
  | nil => simp [Along, inputsOf]
  | cons i is ih =>
      rw [Along, ih]
      constructor
      · rintro ⟨hfirst, hrest⟩ k
        by_cases hi : route i = some k
        · have hk := hrest k
          rw [family_self s hi] at hk
          rw [inputsOf_cons_self is hi]
          exact ⟨hfirst k hi, hk⟩
        · have hk := hrest k
          rw [family_elsewhere s hi] at hk
          rwa [inputsOf_cons_ne is hi]
      · intro hall
        refine ⟨?_, ?_⟩
        · intro k hi
          have hk := hall k
          rw [inputsOf_cons_self is hi] at hk
          exact hk.1
        · intro k
          have hk := hall k
          by_cases hi : route i = some k
          · rw [inputsOf_cons_self is hi] at hk
            rw [family_self s hi]
            exact hk.2
          · rw [inputsOf_cons_ne is hi] at hk
            rwa [family_elsewhere s hi]

end Family

end Machine
