import RedisTrace.PortRuns

/-!
`PORT_VHash_Update` by its name and by its code. It is to give access to an
item that is there; but it hands its key to `VHash_Add_Node2`, which makes the
item when there is none.
-/

namespace RedisTrace

open CircularList Run

/-- The keys and the counter of the table after the call are those before it. A
present key gets `vhashUpdateOk` and its item, an absent one another code and
the very same table. -/
def UpdateOnly (w : PortWorld) (m : PortMap) (key : PortItem) (pp : Option NodePtr)
    (want : Option Nat) : Prop :=
  ∃ ret pp' w' m' count w₁ w₂,
    (portVHashUpdate key pp want).run w = .ok ((ret, pp'), w') ∧ PortTable w' m' ∧
    m'.keys = m.keys ∧
    (portVHashGetCount (some 0)).run w = .ok ((vhashOk, some count), w₁) ∧
    (portVHashGetCount (some 0)).run w' = .ok ((vhashOk, some count), w₂) ∧
    match m key with
    | some c => ret = vhashUpdateOk ∧ pp' = pp.map (fun _ => some c.ptr)
    | none => ret ≠ vhashUpdateOk ∧ pp' = pp ∧ m' = m

section Calls

variable {w : PortWorld} {m : PortMap} {keys : List PortItem} {key : PortItem}
  {pp : Option NodePtr} {want : Option Nat}

/-- A call that leaves the map alone leaves the counter alone. -/
theorem count_kept (ha : Arranged w m keys) {w' : PortWorld} {keys' : List PortItem}
    (ha' : Arranged w' m keys') :
    ∃ count w₁ w₂, (portVHashGetCount (some 0)).run w = .ok ((vhashOk, some count), w₁) ∧
      (portVHashGetCount (some 0)).run w' = .ok ((vhashOk, some count), w₂) := by
  obtain ⟨w₁, hcount, _⟩ := portVHashGetCount_run ha 0
  obtain ⟨w₂, hcount', _⟩ := portVHashGetCount_run ha' 0
  exact ⟨_, w₁, w₂, hcount, hcount'⟩

theorem updateOnly_iff (ha : Arranged w m keys) :
    UpdateOnly w m key pp want ↔ (m key).isSome ∨ want = none := by
  constructor
  · rintro ⟨ret, pp', w', m', count, w₁, w₂, hrun, htable, hkeys, -, -, -⟩
    cases hkey : m key with
    | some c => exact .inl rfl
    | none =>
        cases want with
        | none => exact .inr rfl
        | some want =>
            obtain ⟨w'', a, hrun', -, ha''⟩ := portVHashUpdate_inserted ha hkey pp want
            rw [hrun] at hrun'
            cases hrun'
            have hmap := htable.unique ha''.toTable
            have hnew : key ∈ m'.keys := by simp [hmap, PortMap.keys]
            rw [hkeys] at hnew
            simp [PortMap.keys, hkey] at hnew
  · intro hcond
    cases hkey : m key with
    | some c =>
        obtain ⟨w', hrun, ha'⟩ := portVHashUpdate_present ha hkey pp want
        obtain ⟨count, w₁, w₂, hcount, hcount'⟩ := count_kept ha ha'
        refine ⟨_, _, w', m, count, w₁, w₂, hrun, ha'.toTable, rfl, hcount, hcount', ?_⟩
        rw [hkey]
        exact ⟨rfl, rfl⟩
    | none =>
        have hwant : want = none := by
          rw [hkey] at hcond
          exact hcond.resolve_left (by simp)
        subst hwant
        obtain ⟨w', hrun, ha'⟩ := portVHashUpdate_failed ha hkey pp
        obtain ⟨count, w₁, w₂, hcount, hcount'⟩ := count_kept ha ha'
        refine ⟨_, _, w', m, count, w₁, w₂, hrun, ha'.toTable, rfl, hcount, hcount', ?_⟩
        rw [hkey]
        exact ⟨by decide, rfl, rfl⟩

/-- On every table a run can reach, `PORT_VHash_Update` creates no item exactly
when its key is stored already, or there is no memory for a new one. -/
theorem portVHashUpdate_only_iff (ops : List PortOp) (key : PortItem) (pp : Option NodePtr)
    (want : Option Nat) :
    ∃ replies w m, (portRun true ops).run (vhashInit enVHashMoudleMax) = .ok (replies, w) ∧
      PortTable w m ∧ (UpdateOnly w m key pp want ↔ (m key).isSome ∨ want = none) := by
  obtain ⟨replies, w, m, hrun, -, ha⟩ := portRun_arranged ops
  exact ⟨replies, w, m, hrun, ha.toTable, updateOnly_iff ha⟩

/-- On the empty table an update of any key, say port 1 to port 2, creates it. -/
theorem portVHashUpdate_creates :
    ∃ w, (portRun true []).run (vhashInit enVHashMoudleMax) = .ok ([], w) ∧
      PortTable w PortMap.empty ∧
      ¬ UpdateOnly w PortMap.empty ⟨1, 2, 0, 0⟩ (some none) (some 0) := by
  obtain ⟨w, hinit, ha⟩ := portVHashInit_arranged
  refine ⟨w, by simp [portRun, hinit], ha.toTable, ?_⟩
  rw [updateOnly_iff ha]
  simp [PortMap.empty]

end Calls

end RedisTrace
