import RedisTrace.VHash.Specs

/-!
What happens to a module as a whole: it is created, emptied and destroyed, and
the exported functions find it by its number.
-/

namespace RedisTrace

open CircularList Run

variable {K N D : Type}

section Clean

variable {h : VHashHead K N D} {bs : Nat → List Nat}

/-- The trace of a node that is cleaned away. -/
def removal (m : VHashMoudle K N D) (a : Nat) : List Event := cleanEvents m a ++ [.free a]

/-- Emptying one bucket: the induction is on its sequence, and each round
takes the first node out as `delNode` would. -/
theorem cleanList_run {b : Nat} (as : List Nat) (hl : Lists h bs)
    (hlocked : h.locked = true) (hb : b < h.bucketCount) (has : bs b = as)
    (fuel : Nat) (hfuel : as.length < fuel) :
    ∃ h', (cleanList (.listHead b) fuel).run h = .ok ((), h') ∧
      Lists h' (Function.update bs b []) ∧ h'.moudle = h.moudle ∧
      h'.locked = true ∧ h'.ulDataNodeSum = h.ulDataNodeSum ∧
      h'.log = h.log ++ as.flatMap (removal h.moudle) ∧ SameHeads h h' := by
  induction as generalizing h bs fuel with
  | nil =>
      obtain ⟨fuel, rfl⟩ : ∃ n, fuel = n + 1 := ⟨fuel - 1, by simp at hfuel; omega⟩
      have hsame : Function.update bs b [] = bs := by
        rw [← has]
        exact Function.update_eq_self b bs
      have hring := hl.ring b hb
      have hempty : (onList (isListEmpty (.listHead b))).run h = .ok (_, h) :=
        onList_run hlocked (isListEmpty_spec hring)
      refine ⟨h, ?_, by rw [hsame]; exact hl, rfl, hlocked, rfl, by simp, fun _ => rfl⟩
      simp [cleanList, hempty, has]
  | cons a rest ih =>
      obtain ⟨fuel, rfl⟩ : ∃ n, fuel = n + 1 := ⟨fuel - 1, by simp at hfuel; omega⟩
      have ha : a ∈ h.live := hl.live_of_mem (b := b) (by simp [has])
      have hring : Ring h.mem (.listHead b) (Ptr.node a :: rest.map Ptr.node) := by
        simpa [has] using hl.ring b hb
      have hempty : (onList (isListEmpty (.listHead b))).run h = .ok (_, h) :=
        onList_run hlocked (isListEmpty_spec hring)
      obtain ⟨m₁, hremove, hring₁, hframe⟩ := removeHeadList_spec hring
      let h₁ : VHashHead K N D := {h with
        mem := Function.update m₁ (.node a) none
        pData := Function.update h.pData a (cleaned h.moudle (h.pData a))
        live := h.live.erase a
        log := h.log ++ cleanEvents h.moudle a ++ [.free a]}
      have hcount : h₁.bucketCount = h.bucketCount := rfl
      obtain ⟨hlists, hheads₁⟩ : Lists h₁ (Function.update bs b ([] ++ rest)) ∧
          SameHeads h h₁ := hl.unlinked has hring₁ hframe hcount rfl rfl
      obtain ⟨h', hrun, hend, hmoudle, hlocked', hsums, hlog, hheads⟩ :=
        ih hlists hlocked hb (by simp) fuel (by simp at hfuel; omega)
      refine ⟨h', ?_, by simpa using hend, hmoudle, hlocked', hsums, ?_, ?_⟩
      · have hhead := onList_run hlocked hremove
        simp [cleanList, hempty, hhead, containingRecord_run, cleanData_run, hlocked, ha,
          freeNode_run]
        simpa [h₁, hlocked] using hrun
      · have hmoudle₁ : h₁.moudle = h.moudle := rfl
        rw [hlog, hmoudle₁, List.flatMap_cons]
        simp [h₁, removal]
      · intro c
        exact (hheads c).trans (hheads₁ c)

/-- The loop over the buckets that `VHash_Clean_Moudle` and
`VHash_Destory_Moudle` have in common: every node is cleaned and freed, in the
order of the enumeration. -/
theorem cleanBuckets_run (hl : Lists h bs) (hlocked : h.locked = true) :
    ∃ h', ((List.range h.bucketCount).forM cleanBucket).run h = .ok (⟨⟩, h') ∧
      Lists h' (fun _ => []) ∧ h'.moudle = h.moudle ∧ h'.locked = true ∧
      (∀ b, b < h.bucketCount → h'.ulDataNodeSum b = 0) ∧
      h'.log = h.log ++ (nodesFrom bs 0 h.bucketCount).flatMap (removal h.moudle) ∧
      SameHeads h h' := by
  let inv : List Nat → VHashHead K N D → Prop := fun todo st =>
    Lists st (fun b => if b ∈ todo then bs b else []) ∧ st.moudle = h.moudle ∧
      st.locked = true ∧ todo.Nodup ∧ (∀ b ∈ todo, b < h.bucketCount) ∧
      (∀ b, b < h.bucketCount → b ∉ todo → st.ulDataNodeSum b = 0) ∧
      st.log ++ (todo.flatMap bs).flatMap (removal h.moudle) =
        h.log ++ (nodesFrom bs 0 h.bucketCount).flatMap (removal h.moudle) ∧
      SameHeads h st
  have hstep : ∀ i todo st, inv (i :: todo) st →
      ∃ st', (cleanBucket i).run st = .ok ((), st') ∧ inv todo st' := by
    rintro i todo st ⟨hlists, hmoudle, hlocked, hnodup, hbound, hzero, hlog, hheads⟩
    have hi : i < st.bucketCount := by
      simpa [VHashHead.bucketCount, hmoudle] using hbound i (by simp)
    have hlength := hlists.length_le i
    obtain ⟨st', hrun, hend, hmoudle', hlocked', hsums, hlog', hheads'⟩ :=
      cleanList_run _ hlists hlocked hi rfl (st.live.card + 1) (by omega)
    have hcount : ({st' with
        ulDataNodeSum := Function.update st'.ulDataNodeSum i 0} :
          VHashHead K N D).bucketCount = st'.bucketCount := rfl
    have hseq : Function.update (fun b => if b ∈ i :: todo then bs b else []) i [] =
        fun b => if b ∈ todo then bs b else [] := by
      funext b
      rcases eq_or_ne b i with rfl | hbi
      · have hb : b ∉ todo := (List.nodup_cons.mp hnodup).1
        simp [hb]
      · simp [hbi]
    refine ⟨{st' with ulDataNodeSum := Function.update st'.ulDataNodeSum i 0}, ?_,
      (hseq ▸ hend).congr hcount rfl rfl, hmoudle'.trans hmoudle, hlocked',
      (List.nodup_cons.mp hnodup).2, fun b hb => hbound b (by simp [hb]), ?_, ?_,
      fun b => (hheads' b).trans (hheads b)⟩
    · simp [cleanBucket, hrun]
    · intro b hb hbtodo
      rcases eq_or_ne b i with rfl | hbi
      · simp
      · change Function.update st'.ulDataNodeSum i 0 b = 0
        rw [Function.update_of_ne hbi, hsums]
        exact hzero b hb (by simp [hbi, hbtodo])
    · change st'.log ++ _ = _
      rw [hlog', ← hlog, hmoudle]
      simp
  have hstart : inv (List.range h.bucketCount) h := by
    have hall : (fun b => if b ∈ List.range h.bucketCount then bs b else []) = bs := by
      funext b
      by_cases hb : b < h.bucketCount
      · simp [hb]
      · simp [hb, hl.empty b (by omega)]
    refine ⟨?_, rfl, hlocked, List.nodup_range, fun b hb => List.mem_range.mp hb, ?_, ?_,
      fun _ => rfl⟩
    · rw [hall]
      exact hl
    · intro b hb hout
      exact absurd (List.mem_range.mpr hb) hout
    · rw [nodesFrom, List.range_eq_range']
  obtain ⟨h', hloop, hlists, hmoudle, hlocked', _, _, hzero, hlog, hheads⟩ :=
    forM_run inv hstep (List.range h.bucketCount) h hstart
  refine ⟨h', hloop, by simpa using hlists, hmoudle, hlocked', ?_, by simpa using hlog, hheads⟩
  intro b hb
  exact hzero b hb (by simp)

/-- The two counters of an emptied table are both zero. -/
theorem chains_of_emptied {h' : VHashHead K N D} (hl : Lists h' (fun _ => []))
    (hzero : ∀ b, b < h'.bucketCount → h'.ulDataNodeSum b = 0) (htotal : h'.uiTotal = 0) :
    Chains h' (fun _ => []) := by
  refine ⟨hl, ?_, ?_⟩
  · intro b hb
    rw [hzero b hb]
    rfl
  · simp [htotal]

/-- The table that is left when the loop over the buckets has been gone through
with the mutex held, the total reset and the mutex given back. -/
theorem emptied_run (hl : Lists h bs) :
    ∃ h₂ : VHashHead K N D, ((List.range h.moudle.uiBucketCount.toNat).forM cleanBucket).run
        {h with locked := true, log := h.log ++ [.lock]} = .ok (⟨⟩, h₂) ∧
      ∃ h', h' = {h₂ with uiTotal := 0, locked := false, log := h₂.log ++ [.unlock]} ∧
        Chains h' (fun _ => []) ∧ h'.moudle = h.moudle ∧ h'.locked = false ∧
        h'.log = h.log ++ (.lock ::
          (nodesFrom bs 0 h.bucketCount).flatMap (removal h.moudle) ++ [.unlock]) ∧
        SameHeads h h' := by
  let h₁ : VHashHead K N D := {h with locked := true, log := h.log ++ [.lock]}
  have hl₁ : Lists h₁ bs := hl.congr rfl rfl rfl
  obtain ⟨h₂, hloop, hlists, hmoudle, _, hzero, hlog, hheads⟩ := cleanBuckets_run hl₁ rfl
  have hcount₂ : h₂.bucketCount = h.bucketCount := by
    rw [VHashHead.bucketCount, hmoudle]
    rfl
  have hchains : Chains {h₂ with uiTotal := 0, locked := false, log := h₂.log ++ [.unlock]}
      (fun _ => []) :=
    chains_of_emptied (hlists.congr rfl rfl rfl) (fun b hb => hzero b (hcount₂ ▸ hb)) rfl
  refine ⟨h₂, hloop, _, rfl, hchains, hmoudle, rfl, ?_, hheads⟩
  change h₂.log ++ _ = _
  rw [hlog]
  simp [h₁, VHashHead.bucketCount]

/-- `VHash_Clean_Moudle` empties every bucket and resets both counters. -/
theorem cleanMoudle_run (hl : Lists h bs) (hfree : h.locked = false) :
    ∃ h', cleanMoudle.run h = .ok (vhashOk, h') ∧ Chains h' (fun _ => []) ∧
      h'.moudle = h.moudle ∧ h'.locked = false ∧
      h'.log = h.log ++ (.lock ::
        (nodesFrom bs 0 h.bucketCount).flatMap (removal h.moudle) ++ [.unlock]) ∧
      SameHeads h h' := by
  obtain ⟨h₂, hloop, h', rfl, hempty⟩ := emptied_run hl
  refine ⟨_, ?_, hempty⟩
  simp [cleanMoudle, spinLockLock_run hfree] at hloop ⊢
  simp [hloop, spinLockUnlock_run]

/-- `VHash_Destory_Moudle` does the same before it gives the module up. -/
theorem destoryMoudle_run (hl : Lists h bs) (hfree : h.locked = false) :
    ∃ h', destoryMoudle.run h = .ok (vhashOk, h') ∧ Chains h' (fun _ => []) ∧
      h'.moudle = h.moudle ∧ h'.locked = false ∧
      h'.log = h.log ++ (.lock ::
        (nodesFrom bs 0 h.bucketCount).flatMap (removal h.moudle) ++ [.unlock]) ∧
      SameHeads h h' := by
  obtain ⟨h₂, hloop, h', rfl, hempty⟩ := emptied_run hl
  refine ⟨_, ?_, hempty⟩
  simp [destoryMoudle, spinLockLock_run hfree] at hloop ⊢
  simp [hloop, spinLockUnlock_run]

end Clean

section Create

private theorem initBuckets_loop (is : List Nat) (m : Mem Ptr) (hnodup : is.Nodup)
    (hmapped : ∀ i ∈ is, (m (.listHead i)).isSome) :
    ∃ m', (is.forM (fun i => initializeListHead (Ptr.listHead i))).run m = some ((), m') ∧
      (∀ i ∈ is, Ring m' (.listHead i) []) ∧
      ∀ q, (∀ i ∈ is, q ≠ .listHead i) → m' q = m q := by
  induction is generalizing m with
  | nil => exact ⟨m, rfl, by simp, by simp⟩
  | cons i rest ih =>
      obtain ⟨hi, hnodup'⟩ := List.nodup_cons.mp hnodup
      obtain ⟨m₁, hrun, hring, hframe⟩ :=
        initializeListHead_spec (hmapped i (by simp))
      obtain ⟨m', hrest, hrings, hsame⟩ := ih m₁ hnodup' (by
        intro j hj
        rw [hframe.mapped]
        exact hmapped j (by simp [hj]))
      refine ⟨m', ?_, ?_, ?_⟩
      · simpa [hrun] using hrest
      · intro j hj
        rcases List.mem_cons.mp hj with rfl | hj
        · apply hring.congr
          intro q hq
          have hqj : q = .listHead j := by simpa using hq
          subst hqj
          apply hsame
          intro k hk heq
          exact hi (by simpa [Ptr.listHead.inj heq] using hk)
        · exact hrings j hj
      · intro q hq
        rw [hsame q (fun j hj => hq j (by simp [hj]))]
        exact hframe.outside q (by simpa using hq i (by simp))

theorem initBuckets_spec (uiBucketCount : UInt32) :
    ∃ m', (initBuckets uiBucketCount).run (rawBuckets uiBucketCount) = some ((), m') ∧
      (∀ b, b < uiBucketCount.toNat → Ring m' (.listHead b) []) ∧
      ∀ q, (∀ b, b < uiBucketCount.toNat → q ≠ .listHead b) →
        m' q = rawBuckets uiBucketCount q := by
  obtain ⟨m', hrun, hrings, hsame⟩ := initBuckets_loop (List.range uiBucketCount.toNat)
    (rawBuckets uiBucketCount) List.nodup_range (by
      intro i hi
      simp [rawBuckets, List.mem_range.mp hi])
  refine ⟨m', hrun, fun b hb => hrings b (List.mem_range.mpr hb), ?_⟩
  intro q hq
  exact hsame q (fun b hb => hq b (List.mem_range.mp hb))

/-- `VHash_Create_Moudle` on a free module number leaves an empty table, and
memory that it has not touched beside the bucket heads. -/
theorem vhashCreateMoudle_run [Zero D] {w : VHashWorld K N D} {enMoudleId : UInt32}
    (hid : enMoudleId < w.uiMaxVhashModules)
    (hnone : w.astVHashHead enMoudleId.toNat = none) (m : VHashMoudle K N D) :
    ∃ h, (vhashCreateMoudle enMoudleId (some m) true).run w = .ok (vhashOk, {w with
        astVHashHead := Function.update w.astVHashHead enMoudleId.toNat (some h)}) ∧
      Chains h (fun _ => []) ∧ h.moudle = m ∧ h.locked = false ∧ h.live = ∅ ∧ h.log = [] ∧
      h.ulListLen = 0 ∧ ∀ q, (∀ b, b < h.bucketCount → q ≠ .listHead b) →
        h.mem q = rawBuckets m.uiBucketCount q := by
  obtain ⟨mem, hrun, hrings, hsame⟩ := initBuckets_spec m.uiBucketCount
  refine ⟨createHead m mem, ?_, ?_, rfl, rfl, rfl, rfl, rfl, hsame⟩
  · have hid' : ¬ w.uiMaxVhashModules ≤ enMoudleId := UInt32.not_le.mpr hid
    simp [vhashCreateMoudle, StateT.run, hid', hnone]
    rw [show initBuckets m.uiBucketCount (rawBuckets m.uiBucketCount) = _ from hrun]
  · refine ⟨⟨?_, by simp, by simp, by simp [createHead]⟩, ?_, ?_⟩
    · intro b hb
      exact hrings b hb
    · intro b _
      rfl
    · simp [createHead]

end Create

section Moudle

variable {w w' : VHashWorld K N D} {h h' : VHashHead K N D} {enMoudleId : UInt32}

/-- The world after a call that left the module at `h`. -/
def VHashWorld.withHead (w : VHashWorld K N D) (enMoudleId : UInt32) (h : VHashHead K N D) :
    VHashWorld K N D :=
  {w with astVHashHead := Function.update w.astVHashHead enMoudleId.toNat (some h)}

theorem withHead_head (w : VHashWorld K N D) (h : VHashHead K N D) :
    (w.withHead enMoudleId h).astVHashHead enMoudleId.toNat = some h :=
  Function.update_self _ _ _

theorem withHead_self (hhead : w.astVHashHead enMoudleId.toNat = some h) :
    w.withHead enMoudleId h = w := by
  unfold VHashWorld.withHead
  rw [← hhead, Function.update_eq_self]

theorem withHead_ne (w : VHashWorld K N D) (h : VHashHead K N D) {id : Nat}
    (hne : id ≠ enMoudleId.toNat) :
    (w.withHead enMoudleId h).astVHashHead id = w.astVHashHead id :=
  Function.update_of_ne hne _ _

/-- The world after a call that gave the module up. -/
def VHashWorld.withoutHead (w : VHashWorld K N D) (enMoudleId : UInt32) : VHashWorld K N D :=
  {w with astVHashHead := Function.update w.astVHashHead enMoudleId.toNat none}

theorem withoutHead_head (w : VHashWorld K N D) :
    (w.withoutHead enMoudleId).astVHashHead enMoudleId.toNat = none :=
  Function.update_self _ _ _

theorem withoutHead_ne (w : VHashWorld K N D) {id : Nat} (hne : id ≠ enMoudleId.toNat) :
    (w.withoutHead enMoudleId).astVHashHead id = w.astVHashHead id :=
  Function.update_of_ne hne _ _

theorem vhashDestoryMoudle_run {ret : UInt32} (hid : enMoudleId < w.uiMaxVhashModules)
    (hhead : w.astVHashHead enMoudleId.toNat = some h)
    (hrun : destoryMoudle.run h = .ok (ret, h')) :
    (vhashDestoryMoudle enMoudleId).run w = .ok (ret, w.withoutHead enMoudleId) := by
  have hid' : ¬ w.uiMaxVhashModules ≤ enMoudleId := UInt32.not_le.mpr hid
  have hrun' : destoryMoudle h = .ok (ret, h') := hrun
  simp [vhashDestoryMoudle, StateT.run, hid', hhead, hrun', VHashWorld.withoutHead]

/-- A module that is there is not created again. -/
theorem vhashCreateMoudle_present [Zero D] (hid : enMoudleId < w.uiMaxVhashModules)
    (hhead : w.astVHashHead enMoudleId.toNat = some h) (m : VHashMoudle K N D) (mallocOk : Bool) :
    (vhashCreateMoudle enMoudleId (some m) mallocOk).run w = .ok (vhashOk, w) := by
  have hid' : ¬ w.uiMaxVhashModules ≤ enMoudleId := UInt32.not_le.mpr hid
  simp [vhashCreateMoudle, StateT.run, hid', hhead]

theorem vhashCreateMoudle_failed [Zero D] (hid : enMoudleId < w.uiMaxVhashModules)
    (hnone : w.astVHashHead enMoudleId.toNat = none) (m : VHashMoudle K N D) :
    (vhashCreateMoudle enMoudleId (some m) false).run w = .ok (vhashNotInnif, w) := by
  have hid' : ¬ w.uiMaxVhashModules ≤ enMoudleId := UInt32.not_le.mpr hid
  simp [vhashCreateMoudle, StateT.run, hid', hnone]

theorem vhashDestoryMoudle_none (hnone : w.astVHashHead enMoudleId.toNat = none) :
    (vhashDestoryMoudle enMoudleId).run w = .ok (vhashErr, w) := by
  simp [vhashDestoryMoudle, StateT.run, hnone]

theorem vhashDestoryMoudle_fault (hid : enMoudleId < w.uiMaxVhashModules)
    (hhead : w.astVHashHead enMoudleId.toNat = some h) {e : Fault}
    (hrun : destoryMoudle.run h = .error e) :
    (vhashDestoryMoudle enMoudleId).run w = .error e := by
  have hid' : ¬ w.uiMaxVhashModules ≤ enMoudleId := UInt32.not_le.mpr hid
  have hrun' : destoryMoudle h = .error e := hrun
  simp [vhashDestoryMoudle, StateT.run, hid', hhead, hrun']

/-- An exported function on a created module does what its body does there. -/
theorem withMoudle_run {α : Type} {op : VHashM K N D α} {answer : α} (error : α)
    (hid : enMoudleId < w.uiMaxVhashModules)
    (hhead : w.astVHashHead enMoudleId.toNat = some h)
    (hrun : op.run h = .ok (answer, h')) :
    (withMoudle enMoudleId error op).run w = .ok (answer, {w with
      astVHashHead := Function.update w.astVHashHead enMoudleId.toNat (some h')}) := by
  have hid' : ¬ w.uiMaxVhashModules ≤ enMoudleId := UInt32.not_le.mpr hid
  have hrun' : op h = .ok (answer, h') := hrun
  simp [withMoudle, StateT.run, hid', hhead, hrun']

theorem withMoudle_none {α : Type} (op : VHashM K N D α) (error : α)
    (hnone : w.astVHashHead enMoudleId.toNat = none) :
    (withMoudle enMoudleId error op).run w = .ok (error, w) := by
  simp [withMoudle, StateT.run, hnone]

theorem withMoudle_unknown {α : Type} (op : VHashM K N D α) (error : α)
    (hid : ¬ enMoudleId < w.uiMaxVhashModules) :
    (withMoudle enMoudleId error op).run w = .ok (error, w) := by
  have hid' : w.uiMaxVhashModules ≤ enMoudleId := UInt32.not_lt.mp hid
  simp [withMoudle, StateT.run, hid']

/-- And comes to no better end there. -/
theorem withMoudle_fault {α : Type} {op : VHashM K N D α} (error : α)
    (hid : enMoudleId < w.uiMaxVhashModules)
    (hhead : w.astVHashHead enMoudleId.toNat = some h) {e : Fault}
    (hrun : op.run h = .error e) : (withMoudle enMoudleId error op).run w = .error e := by
  have hid' : ¬ w.uiMaxVhashModules ≤ enMoudleId := UInt32.not_le.mpr hid
  have hrun' : op h = .error e := hrun
  simp [withMoudle, StateT.run, hid', hhead, hrun']

/-- A call that came to an end gave its error answer, or its body came to an
end on the module's head. -/
theorem withMoudle_ok {α : Type} {op : VHashM K N D α} {answer error : α}
    (hrun : (withMoudle enMoudleId error op).run w = .ok (answer, w')) :
    (answer = error ∧ w' = w) ∨ ∃ h h', enMoudleId < w.uiMaxVhashModules ∧
      w.astVHashHead enMoudleId.toNat = some h ∧ op.run h = .ok (answer, h') ∧
      w' = w.withHead enMoudleId h' := by
  simp only [withMoudle, StateT.run] at hrun
  split at hrun
  · cases hrun
    exact .inl ⟨rfl, rfl⟩
  · next hknown =>
      split at hrun
      · cases hrun
        exact .inl ⟨rfl, rfl⟩
      · next h hhead =>
          obtain ⟨⟨answer', h'⟩, hbody, hend⟩ := ok_of_bind hrun
          cases hend
          exact .inr ⟨h, h', UInt32.not_le.mp hknown, hhead, hbody, rfl⟩

/-- A new module and its first node. -/
theorem vhashAddNode2_first [Zero D] (hid : enMoudleId < w.uiMaxVhashModules)
    (hnone : w.astVHashHead enMoudleId.toNat = none) (f : FullMoudle K N D) (key : K)
    (data : N) (hcopied : (f.cpy 0 data f.uiDataLen).1 = vhashOk) :
    ∃ w₀ w₁ h bs a,
      (vhashCreateMoudle enMoudleId (some f.moudle) true).run w = .ok (vhashOk, w₀) ∧
      (vhashAddNode2 enMoudleId (some key) (some data) none (some 0)).run w₀ =
        .ok ((vhashOk, none), w₁) ∧
      enMoudleId < w₁.uiMaxVhashModules ∧ w₁.astVHashHead enMoudleId.toNat = some h ∧
      h.moudle = f.moudle ∧ h.locked = false ∧ Chains h bs ∧ bs (f.bucket key) = [a] ∧
      h.pData a = (f.cpy 0 data f.uiDataLen).2 := by
  obtain ⟨h, hcreate, hchains, hmoudle, hfree, _⟩ := vhashCreateMoudle_run hid hnone f.moudle
  have hscan : scan (f.matching key h.pData) none [] = .miss none := rfl
  obtain ⟨h', hrun, hchains', hmoudle', hfree', _, hdata', _⟩ :=
    addNode2_inserted hchains (.of_eq hmoudle) hfree data none 0 hscan hcopied
  refine ⟨w.withHead enMoudleId h, (w.withHead enMoudleId h).withHead enMoudleId h', h', _,
    unused h.live 0, hcreate, withMoudle_run (vhashErr, none) hid (withHead_head w h) hrun, hid,
    withHead_head _ h', hmoudle'.trans hmoudle, hfree', hchains', ?_, ?_⟩
  · rw [Function.update_self]
    rfl
  · rw [hdata', Function.update_self]

end Moudle

end RedisTrace
