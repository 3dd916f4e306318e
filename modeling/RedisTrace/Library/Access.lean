import Mathlib.Logic.Function.Basic

/-!
Programs on a memory that keep a record of the addresses they touch. A program
may fail; the record then goes up to the failure. Whether a program stays in a
set of addresses is asked part by part.
-/

namespace Access

/-- What a run leaves behind. -/
structure Outcome (ι β ε α : Type) where
  result : Except ε α
  memory : ι → β
  touched : List ι

def Prog (ι β ε α : Type) := (ι → β) → Outcome ι β ε α

variable {ι β ε α γ : Type}

def Prog.run (x : Prog ι β ε α) (memory : ι → β) : Outcome ι β ε α := x memory

instance : Monad (Prog ι β ε) where
  pure a := fun memory => ⟨.ok a, memory, []⟩
  bind x f := fun memory =>
    let outcome := x.run memory
    match outcome.result with
    | .ok a =>
        let rest := (f a).run outcome.memory
        ⟨rest.result, rest.memory, outcome.touched ++ rest.touched⟩
    | .error e => ⟨.error e, outcome.memory, outcome.touched⟩

/-- An operation that computes from the memory and says itself what it reads. -/
def compute (f : (ι → β) → α) (addresses : (ι → β) → List ι) : Prog ι β ε α :=
  fun memory => ⟨.ok (f memory), memory, addresses memory⟩

def load (i : ι) : Prog ι β ε β := compute (fun memory => memory i) (fun _ => [i])

def store [DecidableEq ι] (i : ι) (b : β) : Prog ι β ε Unit :=
  fun memory => ⟨.ok (), Function.update memory i b, [i]⟩

def fail (e : ε) : Prog ι β ε α := fun memory => ⟨.error e, memory, []⟩

/-- Every address the program touches satisfies `P`. -/
def Stays (P : ι → Prop) (x : Prog ι β ε α) (memory : ι → β) : Prop :=
  ∀ i ∈ (x.run memory).touched, P i

section Rules

variable {P : ι → Prop} {x : Prog ι β ε α} {f : α → Prog ι β ε γ} {a : α}
variable {memory memory' : ι → β} {is : List ι} {i : ι}

theorem run_bind (hx : x.run memory = ⟨.ok a, memory', is⟩) :
    (x >>= f).run memory =
      ⟨((f a).run memory').result, ((f a).run memory').memory,
        is ++ ((f a).run memory').touched⟩ := by
  change (match (x.run memory).result with
    | .ok a => _
    | .error e => _) = _
  rw [hx]

theorem run_pure : (pure a : Prog ι β ε α).run memory = ⟨.ok a, memory, []⟩ := rfl

theorem run_load :
    (load i : Prog ι β ε β).run memory = ⟨.ok (memory i), memory, [i]⟩ := rfl

theorem run_store [DecidableEq ι] {b : β} :
    (store i b : Prog ι β ε Unit).run memory =
      ⟨.ok (), Function.update memory i b, [i]⟩ := rfl

theorem run_compute {g : (ι → β) → α} {addresses : (ι → β) → List ι} :
    (compute g addresses : Prog ι β ε α).run memory =
      ⟨.ok (g memory), memory, addresses memory⟩ := rfl

theorem stays_pure : Stays P (pure a : Prog ι β ε α) memory := by
  rintro i ⟨⟩

theorem stays_fail {e : ε} : Stays P (fail e : Prog ι β ε α) memory := by
  rintro i ⟨⟩

/-- A sequence stays where both of its parts stay. -/
theorem stays_bind (hx : x.run memory = ⟨.ok a, memory', is⟩) :
    Stays P (x >>= f) memory ↔ (∀ i ∈ is, P i) ∧ Stays P (f a) memory' := by
  unfold Stays
  rw [run_bind hx, List.forall_mem_append]

theorem stays_load {f : β → Prog ι β ε γ} :
    Stays P (load i >>= f) memory ↔ P i ∧ Stays P (f (memory i)) memory := by
  rw [stays_bind run_load, List.forall_mem_singleton]

end Rules

end Access
