import RedisTrace.Library.Run

/-!
Programs over a state that is a family of slots, where every call is about the
slot of its owner: it reads no other slot and changes none. A run over a list of
calls is then the runs of the owners beside each other, in whatever order their
calls come.
-/

namespace Slots

open Run

universe u v

variable {σ ε α : Type u} {κ : Type u} {ι τ : Type v}

/-- `view s i` is what slot `i` comes to in state `s`. A call leaves the slots
of others alone, and goes by its own. -/
structure Confined (view : σ → ι → τ) (owner : κ → ι) (body : κ → StateT σ (Except ε) α) :
    Prop where
  others : ∀ {c s a s'}, (body c).run s = .ok (a, s') → ∀ {i}, i ≠ owner c → view s' i = view s i
  own : ∀ {c s a s'}, (body c).run s = .ok (a, s') → ∀ {t}, view t (owner c) = view s (owner c) →
    ∃ t', (body c).run t = .ok (a, t') ∧ view t' (owner c) = view s' (owner c)

theorem Confined.comp {κ' : Type u} {view : σ → ι → τ} {owner : κ → ι}
    {body : κ → StateT σ (Except ε) α} (hbody : Confined view owner body) (g : κ' → κ) :
    Confined view (fun c => owner (g c)) (fun c => body (g c)) :=
  ⟨hbody.others, hbody.own⟩

section Owners

variable [DecidableEq ι] (owner : κ → ι)

/-- The calls of one owner. -/
def calls (i : ι) (cs : List κ) : List κ := cs.filter (owner · = i)

/-- The answers to the calls of one owner. -/
def answers (i : ι) (cs : List κ) (as : List α) : List α :=
  ((cs.zip as).filter (owner ·.1 = i)).map Prod.snd

variable {owner} {c : κ} {cs : List κ} {a : α} {as : List α} {i : ι}

theorem calls_own : calls owner (owner c) (c :: cs) = c :: calls owner (owner c) cs := by
  simp [calls]

theorem calls_other (hne : i ≠ owner c) : calls owner i (c :: cs) = calls owner i cs := by
  simp [calls, hne.symm]

theorem answers_own :
    answers owner (owner c) (c :: cs) (a :: as) = a :: answers owner (owner c) cs as := by
  simp [answers]

theorem answers_other (hne : i ≠ owner c) :
    answers owner i (c :: cs) (a :: as) = answers owner i cs as := by
  simp [answers, hne.symm]

end Owners

section Runs

variable [DecidableEq ι] {view : σ → ι → τ} {owner : κ → ι}
variable {body : κ → StateT σ (Except ε) α}

/-- What a whole run does, each owner's calls do on their own. -/
theorem Confined.apart (hbody : Confined view owner body) {cs : List κ} {s s' : σ} {as : List α}
    (hrun : (cs.mapM body).run s = .ok (as, s')) {i : ι} {t : σ} (hview : view t i = view s i) :
    ∃ t', ((calls owner i cs).mapM body).run t = .ok (answers owner i cs as, t') ∧
      view t' i = view s' i := by
  induction cs generalizing s t as with
  | nil =>
      cases hrun
      exact ⟨t, rfl, hview⟩
  | cons c cs ih =>
      rw [List.mapM_cons] at hrun
      obtain ⟨a, s₁, hfirst, hrest⟩ := bind_eq_ok hrun
      obtain ⟨rest, s₂, hmany, hend⟩ := bind_eq_ok hrest
      cases hend
      rcases eq_or_ne i (owner c) with rfl | hne
      · obtain ⟨t₁, hown, hview₁⟩ := hbody.own hfirst hview
        obtain ⟨t', hcalls, hview'⟩ := ih hmany hview₁
        refine ⟨t', ?_, hview'⟩
        rw [calls_own, answers_own]
        simp [hown, hcalls]
      · rw [calls_other hne, answers_other hne]
        exact ih hmany (hview.trans (hbody.others hfirst hne).symm)

/-- And what the owners do on their own makes up a whole run. -/
theorem Confined.together (hbody : Confined view owner body) (cs : List κ) {s : σ} (t : ι → σ)
    (hview : ∀ i, view (t i) i = view s i)
    (hruns : ∀ i, ∃ as t', ((calls owner i cs).mapM body).run (t i) = .ok (as, t')) :
    ∃ as s', (cs.mapM body).run s = .ok (as, s') := by
  induction cs generalizing s t with
  | nil => exact ⟨[], s, rfl⟩
  | cons c cs ih =>
      obtain ⟨as, t', hown⟩ := hruns (owner c)
      rw [calls_own, List.mapM_cons] at hown
      obtain ⟨a, t₁, hfirst, hrest⟩ := bind_eq_ok hown
      obtain ⟨rest, t₂, hmany, -⟩ := bind_eq_ok hrest
      obtain ⟨s₁, hstep, hview₁⟩ := hbody.own hfirst (hview (owner c)).symm
      obtain ⟨as', s', hall⟩ := ih (Function.update t (owner c) t₁) (fun i => by
        rcases eq_or_ne i (owner c) with rfl | hne
        · rw [Function.update_self, hview₁]
        · rw [Function.update_of_ne hne, hview i, hbody.others hstep hne]) (fun i => by
        rcases eq_or_ne i (owner c) with rfl | hne
        · rw [Function.update_self]
          exact ⟨rest, t₂, hmany⟩
        · rw [Function.update_of_ne hne, ← calls_other hne]
          exact hruns i)
      exact ⟨a :: as', s', by simp [hstep, hall]⟩

/-- A run comes to an end exactly when every owner's calls do on their own. -/
theorem Confined.returns_iff (hbody : Confined view owner body) (cs : List κ) (s : σ) :
    (∃ as s', (cs.mapM body).run s = .ok (as, s')) ↔
      ∀ i, ∃ as s', ((calls owner i cs).mapM body).run s = .ok (as, s') := by
  constructor
  · rintro ⟨as, s', hrun⟩ i
    obtain ⟨t', halone, -⟩ := hbody.apart hrun rfl
    exact ⟨_, t', halone⟩
  · exact hbody.together cs (fun _ => s) (fun _ => rfl)

end Runs

end Slots
