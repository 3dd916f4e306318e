import RedisTrace.PortVHash
import RedisTrace.VHash.Calls

/-!
The end of an enumeration. `VHash_Get_NextNode` goes through the nodes bucket by
bucket, and `vhash.h` has the code `__VHASH_ENUM_END` for a caller that has seen
the last one. The function has one way out behind the lock, and it answers
`__VHASH_OK`.
-/

namespace RedisTrace

variable {K N D : Type}

/-- What a call may ask for: the first node, or the one behind a node that is
stored in the bucket of its key. The list is what is left of the enumeration. -/
inductive Asked (h : VHashHead K N D) (bs : Nat → List Nat) :
    Option K → NodePtr → List Nat → Prop where
  | first (pData : NodePtr) : Asked h bs none pData (nodesFrom bs 0 h.bucketCount)
  | behind {hash : K → UInt32} {key : K} {a : Nat} {before after : List Nat}
      (hashed : h.moudle.pfnVHashCalc = some hash) (stored : a ∈ bs (hash key).toNat)
      (order : nodesFrom bs 0 h.bucketCount = before ++ a :: after) :
      Asked h bs (some key) (some a) after

/-- The code is `__VHASH_OK` exactly when there is a next node and the caller's
variable points to it. -/
def EndReported (w : VHashWorld K N D) (enMoudleId : UInt32) (pKey : Option K)
    (pData out : NodePtr) (rest : List Nat) : Prop :=
  ∃ ret out' w', (vhashGetNextNode enMoudleId pKey pData (some out)).run w =
      .ok ((ret, some out'), w') ∧
    (ret = vhashOk ↔ ∃ a, rest.head? = some a ∧ out' = some a)

section Answers

variable {w : VHashWorld K N D} {h : VHashHead K N D} {bs : Nat → List Nat}
  {enMoudleId : UInt32} {pKey : Option K} {pData : NodePtr} {rest : List Nat}

/-- Where there is a hash function the answer is `__VHASH_OK`, with the next
node or with the variable as it was. A caller that goes on while it is told so
never stops. -/
theorem getNextNode_asked (hl : Lists h bs) (hfree : h.locked = false) {hash : K → UInt32}
    (hcalc : h.moudle.pfnVHashCalc = some hash) (hasked : Asked h bs pKey pData rest)
    (out : NodePtr) :
    (getNextNode pKey pData (some out)).run h =
      .ok ((vhashOk, some (rest.head?.or out)), h.released []) := by
  cases hasked with
  | first pData => exact getNextNode_first hl hcalc hfree pData (some out)
  | @behind _ key _ _ _ hashed stored order =>
      rw [hcalc] at hashed
      cases hashed
      exact getNextNode_next hl hcalc hfree key stored order out

/-- Where there is none the table is empty, and nothing is left. -/
theorem nothing_left {bs' : Nat → List Nat} (hs : Sound h bs') (hl : Lists h bs)
    (hnone : h.moudle.pfnVHashCalc = none) (hasked : Asked h bs pKey pData rest) :
    rest = [] := by
  have hcallbacks : addCallbacks h.moudle = false := by
    unfold addCallbacks
    rw [hnone]
    rfl
  cases hasked with
  | first pData =>
      apply List.eq_nil_iff_forall_not_mem.mpr
      intro a ha
      have hlive := (hl.mem_nodesFrom a).mp ha
      rw [hs.live_empty hcallbacks] at hlive
      simp at hlive
  | behind hashed _ _ =>
      rw [hnone] at hashed
      cases hashed

/-- Where nothing is left and there is a hash function, the caller is told
there was a next node. -/
theorem not_endReported_at_end [Zero D] (hw : Reached w) (hid : enMoudleId < w.uiMaxVhashModules)
    (hhead : w.astVHashHead enMoudleId.toNat = some h) (hl : Lists h bs) {hash : K → UInt32}
    (hcalc : h.moudle.pfnVHashCalc = some hash) (hasked : Asked h bs pKey pData [])
    (out : NodePtr) : ¬ EndReported w enMoudleId pKey pData out [] := by
  obtain ⟨_, hs⟩ := hw.sound _ h hhead
  have hrun := withMoudle_run (vhashErr, some out) hid hhead
    (getNextNode_asked hl hs.free hcalc hasked out)
  rintro ⟨ret, out', w', hrun', hreported⟩
  rw [vhashGetNextNode, hrun] at hrun'
  cases hrun'
  obtain ⟨a, hnext, -⟩ := hreported.mp rfl
  cases hnext

/-- The end is reported by a module without a hash function, which refuses
every call; by any other module it is not. -/
theorem endReported_iff [Zero D] (hw : Reached w) (hid : enMoudleId < w.uiMaxVhashModules)
    (hhead : w.astVHashHead enMoudleId.toNat = some h) (hl : Lists h bs)
    (hasked : Asked h bs pKey pData rest) (out : NodePtr) :
    EndReported w enMoudleId pKey pData out rest ↔
      rest ≠ [] ∨ h.moudle.pfnVHashCalc = none := by
  obtain ⟨_, hs⟩ := hw.sound _ h hhead
  constructor
  · intro hreported
    cases hcalc : h.moudle.pfnVHashCalc with
    | none => exact .inr rfl
    | some hash =>
        refine .inl ?_
        rintro rfl
        exact not_endReported_at_end hw hid hhead hl hcalc hasked out hreported
  · intro hnext
    cases hcalc : h.moudle.pfnVHashCalc with
    | none =>
        have hrest := nothing_left hs hl hcalc hasked
        have hcode : vhashInterfaceErr ≠ vhashOk := by decide
        refine ⟨_, _, _, withMoudle_run _ hid hhead
          (getNextNode_refuses hcalc pKey pData (some out)), ?_⟩
        simp [hrest, hcode]
    | some hash =>
        have hrest : rest ≠ [] := by simpa [hcalc] using hnext
        obtain ⟨a, after, rfl⟩ := List.exists_cons_of_ne_nil hrest
        refine ⟨_, _, _, withMoudle_run _ hid hhead
          (getNextNode_asked hl hs.free hcalc hasked out), ?_⟩
        simp

end Answers

section Port

/-- The connection table with one item: the first call finds it. -/
theorem endReported_iff_port :
    ∃ (w : VHashWorld PortItem PortItem PortVHashItem) (rest : List Nat), Reached w ∧
      rest ≠ [] ∧ EndReported w enPort none none none rest := by
  obtain ⟨w, h, bs, a, hw, hid', hhead, -, hchains, hbs⟩ :=
    reached_first enPort_known portFull (keyOfBucket 0) (keyOfBucket 0) rfl
  have hplaced : a ∈ bs (portFull.bucket (keyOfBucket 0)) := by simp [hbs]
  have hrest : nodesFrom bs 0 h.bucketCount ≠ [] := by
    apply List.ne_nil_of_mem
    exact (hchains.mem_nodesFrom a).mpr (hchains.live_of_mem hplaced)
  exact ⟨w, _, hw, hrest,
    (endReported_iff hw hid' hhead hchains.toLists (.first none) none).mpr (.inl hrest)⟩

/-- The empty connection table: the first call answers `__VHASH_OK` and has
found nothing. -/
theorem endReported_port_empty :
    ∃ (w : VHashWorld PortItem PortItem PortVHashItem)
      (h : VHashHead PortItem PortItem PortVHashItem), Reached w ∧
      w.astVHashHead enPort.toNat = some h ∧ h.live = ∅ ∧
      Asked h (fun _ => []) none none [] ∧ ¬ EndReported w enPort none none none [] := by
  obtain ⟨w, h, hw, hid', hhead, hmoudle, hchains, hlive⟩ := reached_created enPort_known portMoudle
  have hcalc : h.moudle.pfnVHashCalc = some portVHashCalc := by
    rw [hmoudle]
    rfl
  have hnothing : nodesFrom (fun _ => []) 0 h.bucketCount = [] := by simp [nodesFrom]
  have hasked : Asked h (fun _ => []) none none [] := by
    have hfirst : Asked h (fun _ => []) none none _ := .first none
    rwa [hnothing] at hfirst
  exact ⟨w, h, hw, hhead, hlive, hasked,
    not_endReported_at_end hw hid' hhead hchains.toLists hcalc hasked none⟩

end Port

end RedisTrace
