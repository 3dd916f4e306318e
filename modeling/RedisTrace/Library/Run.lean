import Mathlib.Logic.Basic
import Mathlib.Data.List.Basic

/-!
Runs of programs with state and failure. A program is a
`StateT σ (Except ε)` action; a loop over a list of work items is `List.forM`.
The rule for loops takes an invariant that speaks of the items still to come.
A program that takes one input at a time runs over a list of them by
`List.mapM`; the rule for such runs is forward simulation by a relation that
describes one step.
-/

namespace Run

universe u

variable {σ ε : Type u}

@[simp] theorem ok_bind {α β : Type u} (a : α) (f : α → Except ε β) :
    (Except.ok a >>= f) = f a := rfl

@[simp] theorem error_bind {α β : Type u} (e : ε) (f : α → Except ε β) :
    (Except.error e >>= f) = Except.error e := rfl

@[simp] theorem pure_eq_ok {α : Type u} (a : α) :
    (pure a : Except ε α) = Except.ok a := rfl

theorem ok_of_bind {α β : Type u} {x : Except ε α} {f : α → Except ε β} {b : β}
    (hrun : (x >>= f) = .ok b) : ∃ a, x = .ok a ∧ f a = .ok b := by
  cases x with
  | error e => cases hrun
  | ok a => exact ⟨a, rfl, hrun⟩

/-- A program that came to an end came past its first half. -/
theorem bind_eq_ok {α β : Type u} {x : StateT σ (Except ε) α} {f : α → StateT σ (Except ε) β}
    {s s' : σ} {b : β} (hrun : (x >>= f).run s = .ok (b, s')) :
    ∃ a s₁, x.run s = .ok (a, s₁) ∧ (f a).run s₁ = .ok (b, s') := by
  rw [StateT.run_bind] at hrun
  obtain ⟨⟨a, s₁⟩, hfirst, hrest⟩ := ok_of_bind hrun
  exact ⟨a, s₁, hfirst, hrest⟩

/-- A loop whose body, from any state satisfying the invariant, succeeds and
leaves the invariant true of the remaining items, runs to its end. -/
theorem forM_run {ι : Type u} {body : ι → StateT σ (Except ε) PUnit}
    (inv : List ι → σ → Prop)
    (hstep : ∀ item items s, inv (item :: items) s →
      ∃ s', (body item).run s = .ok (⟨⟩, s') ∧ inv items s')
    (items : List ι) (s : σ) (hinv : inv items s) :
    ∃ s', (forM items body).run s = .ok (⟨⟩, s') ∧ inv [] s' := by
  induction items generalizing s with
  | nil => exact ⟨s, rfl, hinv⟩
  | cons item items ih =>
      obtain ⟨s', hbody, hnext⟩ := hstep item items s hinv
      obtain ⟨s'', hrest, hend⟩ := ih s' hnext
      refine ⟨s'', ?_, hend⟩
      rw [List.forM_cons, StateT.run_bind, hbody]
      exact hrest

/-- A run over a list that got past its first input goes on from there. -/
theorem mapM_cons_ok {ι α : Type u} {body : ι → StateT σ (Except ε) α} {i : ι} {is : List ι}
    {s s₁ s₂ : σ} {a : α} {as : List α} (hfirst : (body i).run s = .ok (a, s₁))
    (hrun : ((i :: is).mapM body).run s = .ok (as, s₂)) :
    ∃ rest, (is.mapM body).run s₁ = .ok (rest, s₂) ∧ as = a :: rest := by
  cases hrest : (is.mapM body).run s₁ with
  | error e => simp [hfirst, hrest] at hrun
  | ok result =>
      obtain ⟨rest, s'⟩ := result
      have hend : a :: rest = as ∧ s' = s₂ := by simpa [hfirst, hrest] using hrun
      exact ⟨rest, by rw [hend.2], hend.1.symm⟩

/-- The runs of a transition relation: `step t i a t'` takes input `i`, gives
answer `a` and leads from `t` to `t'`. -/
inductive Steps {τ ι α : Type u} (step : τ → ι → α → τ → Prop) :
    τ → List ι → List α → τ → Prop where
  | nil (t : τ) : Steps step t [] [] t
  | cons {t t' t'' : τ} {i : ι} {a : α} {is : List ι} {as : List α}
      (first : step t i a t') (rest : Steps step t' is as t'') :
      Steps step t (i :: is) (a :: as) t''

/-- A component that is computed from the inputs and answers alone can be read
off the whole run. -/
theorem Steps.split {τ κ ι α : Type u} {step : τ → ι → α → τ → Prop} {next : κ → ι → α → κ}
    {t t' : τ × κ} {is : List ι} {as : List α}
    (hsteps : Steps (fun t i a t' => step t.1 i a t'.1 ∧ t'.2 = next t.2 i a) t is as t') :
    Steps step t.1 is as t'.1 ∧
      t'.2 = (is.zip as).foldl (fun k (i, a) => next k i a) t.2 := by
  induction hsteps with
  | nil t => exact ⟨.nil t.1, rfl⟩
  | cons first rest ih =>
      obtain ⟨hone, hnext⟩ := first
      obtain ⟨hmany, hend⟩ := ih
      refine ⟨.cons hone hmany, ?_⟩
      rw [hnext] at hend
      exact hend

/-- Forward simulation: when every step of the program answers as some step of
the relation does, so does every run. -/
theorem mapM_simulates {τ ι α : Type u} {body : ι → StateT σ (Except ε) α}
    {step : τ → ι → α → τ → Prop} (rel : σ → τ → Prop)
    (hstep : ∀ s t i, rel s t →
      ∃ a s' t', (body i).run s = .ok (a, s') ∧ step t i a t' ∧ rel s' t')
    (is : List ι) (s : σ) (t : τ) (hrel : rel s t) :
    ∃ as s' t', (is.mapM body).run s = .ok (as, s') ∧ Steps step t is as t' ∧
      rel s' t' := by
  induction is generalizing s t with
  | nil => exact ⟨[], s, t, by simp, .nil t, hrel⟩
  | cons i is ih =>
      obtain ⟨a, s₁, t₁, hfirst, hone, hrel₁⟩ := hstep s t i hrel
      obtain ⟨as, s₂, t₂, hrest, hmany, hrel₂⟩ := ih s₁ t₁ hrel₁
      exact ⟨a :: as, s₂, t₂, by simp [hfirst, hrest], .cons hone hmany, hrel₂⟩

/-- A program that answers as a specification does wherever that has an answer:
so does every run. -/
theorem mapM_follows {τ ι α : Type u} {body : ι → StateT σ (Except ε) α}
    {spec : ι → StateT τ Option α} (rel : σ → τ → Prop) (is : List ι)
    (hstep : ∀ i ∈ is, ∀ s t a t', rel s t → (spec i).run t = some (a, t') →
      ∃ s', (body i).run s = .ok (a, s') ∧ rel s' t')
    {s : σ} {t t' : τ} {as : List α} (hrel : rel s t)
    (hspec : (is.mapM spec).run t = some (as, t')) :
    ∃ s', (is.mapM body).run s = .ok (as, s') ∧ rel s' t' := by
  induction is generalizing s t as with
  | nil =>
      obtain ⟨rfl, rfl⟩ : [] = as ∧ t = t' := by simpa using hspec
      exact ⟨s, by simp, hrel⟩
  | cons i is ih =>
      obtain ⟨⟨a, t₁⟩, hone, hmany⟩ := Option.bind_eq_some_iff.mp (by
        rw [List.mapM_cons] at hspec
        exact hspec)
      obtain ⟨⟨rest, t₂⟩, hall, hend⟩ := Option.bind_eq_some_iff.mp hmany
      cases hend
      obtain ⟨s₁, hfirst, hrel₁⟩ := hstep i (by simp) s t a t₁ hrel hone
      obtain ⟨s₂, hrest, hrel₂⟩ := ih (fun j hj => hstep j (by simp [hj])) hrel₁ hall
      exact ⟨s₂, by simp [hfirst, hrest], hrel₂⟩

/-- A monitor that reads the inputs alone tells the whole run, when it tells
every step: it stops where the program fails, and follows it until then. -/
theorem mapM_monitored {μ ι α : Type u} {body : ι → StateT σ (Except ε) α} {next : μ → ι → Option μ}
    {e : ε} (rel : σ → μ → Prop)
    (hgoes : ∀ s m i m', rel s m → next m i = some m' →
      ∃ a s', (body i).run s = .ok (a, s') ∧ rel s' m')
    (hstops : ∀ s m i, rel s m → next m i = none → (body i).run s = .error e)
    (is : List ι) {s : σ} {m : μ} (hrel : rel s m) :
    (∀ m', is.foldlM next m = some m' → ∃ as s', (is.mapM body).run s = .ok (as, s') ∧ rel s' m') ∧
      (is.foldlM next m = none → (is.mapM body).run s = .error e) := by
  induction is generalizing s m with
  | nil =>
      constructor
      · intro m' hend
        obtain rfl : m = m' := by simpa using hend
        exact ⟨[], s, by simp, hrel⟩
      · intro hend
        simp at hend
  | cons i is ih =>
      cases hnext : next m i with
      | none => simp [hnext, hstops s m i hrel hnext]
      | some m₁ =>
          obtain ⟨a, s₁, hfirst, hrel₁⟩ := hgoes s m i m₁ hrel hnext
          obtain ⟨hok, hfault⟩ := ih hrel₁
          constructor
          · intro m' hend
            obtain ⟨as, s₂, hrest, hrel₂⟩ := hok m' (by simpa [hnext] using hend)
            exact ⟨a :: as, s₂, by simp [hfirst, hrest], hrel₂⟩
          · intro hend
            simp [hfirst, hfault (by simpa [hnext] using hend)]

/-- A monitor stops at the first input it does not know how to go on from. -/
theorem foldlM_eq_none_iff {μ ι : Type u} {next : μ → ι → Option μ} (is : List ι) (m : μ) :
    is.foldlM next m = none ↔ ∃ before i after m', is = before ++ i :: after ∧
      before.foldlM next m = some m' ∧ next m' i = none := by
  constructor
  · intro hnone
    induction is generalizing m with
    | nil => simp at hnone
    | cons i is ih =>
        cases hnext : next m i with
        | none => exact ⟨[], i, is, m, rfl, rfl, hnext⟩
        | some m₁ =>
            obtain ⟨before, j, after, m', rfl, hbefore, hstop⟩ :=
              ih m₁ (by simpa [hnext] using hnone)
            exact ⟨i :: before, j, after, m', rfl, by simp [hnext, hbefore], hstop⟩
  · rintro ⟨before, i, after, m', rfl, hbefore, hstop⟩
    rw [List.foldlM_append, hbefore]
    simp [hstop]

/-- Two runs end alike: both fail in the same way, or both come to an end, with
answers and states that are related. -/
inductive Alike {τ α β : Type u} (ans : α → β → Prop) (rel : σ → τ → Prop) :
    Except ε (α × σ) → Except ε (β × τ) → Prop where
  | ok {a : α} {b : β} {s : σ} {t : τ} (answer : ans a b) (state : rel s t) :
      Alike ans rel (.ok (a, s)) (.ok (b, t))
  | error (e : ε) : Alike ans rel (.error e) (.error e)

/-- Two programs side by side: where each step ends alike, so does every run. -/
theorem mapM_alike {τ ι α β : Type u} {body : ι → StateT σ (Except ε) α}
    {body' : ι → StateT τ (Except ε) β} {ans : α → β → Prop} (rel : σ → τ → Prop)
    (hstep : ∀ i s t, rel s t → Alike ans rel ((body i).run s) ((body' i).run t))
    (is : List ι) {s : σ} {t : τ} (hrel : rel s t) :
    Alike (List.Forall₂ ans) rel ((is.mapM body).run s) ((is.mapM body').run t) := by
  induction is generalizing s t with
  | nil => exact .ok .nil hrel
  | cons i is ih =>
      have hone := hstep i s t hrel
      rw [List.mapM_cons, List.mapM_cons, StateT.run_bind, StateT.run_bind]
      generalize (body i).run s = first at hone ⊢
      generalize (body' i).run t = first' at hone ⊢
      cases hone with
      | error e => exact .error e
      | @ok a b s₁ t₁ answer state =>
          have hmany := ih state
          rw [ok_bind, ok_bind, StateT.run_bind, StateT.run_bind]
          generalize (is.mapM body).run s₁ = rest at hmany ⊢
          generalize (is.mapM body').run t₁ = rest' at hmany ⊢
          cases hmany with
          | error e => exact .error e
          | ok answers state => exact .ok (.cons answer answers) state

/-- A program that from any state satisfying the invariant succeeds and keeps
it does so over every list of inputs. -/
theorem mapM_invariant {ι α : Type u} {body : ι → StateT σ (Except ε) α}
    (inv : σ → Prop)
    (hstep : ∀ s i, inv s → ∃ a s', (body i).run s = .ok (a, s') ∧ inv s')
    (is : List ι) (s : σ) (hinv : inv s) :
    ∃ as s', (is.mapM body).run s = .ok (as, s') ∧ inv s' := by
  induction is generalizing s with
  | nil => exact ⟨[], s, by simp, hinv⟩
  | cons i is ih =>
      obtain ⟨a, s₁, hfirst, hinv₁⟩ := hstep s i hinv
      obtain ⟨as, s₂, hrest, hinv₂⟩ := ih s₁ hinv₁
      exact ⟨a :: as, s₂, by simp [hfirst, hrest], hinv₂⟩

end Run
