import RedisTrace.VHash.Chains

/-!
One lemma for each path through the functions of `vhash.c`: the answer, the
state it ends in and the events it caused. They hold for arbitrary callbacks.
-/

namespace RedisTrace

open CircularList Run

variable {K N D : Type}

/-- The module after a call that took the lock, caused the given events and
gave the lock back. -/
def VHashHead.released (h : VHashHead K N D) (events : List Event) : VHashHead K N D :=
  {h with locked := false, log := h.log ++ (.lock :: events ++ [.unlock])}

/-- The same bucket heads are there. -/
def SameHeads (h h' : VHashHead K N D) : Prop :=
  ∀ b, (h'.mem (.listHead b)).isSome = (h.mem (.listHead b)).isSome

/-- Writing a node's entry leaves the bucket heads alone. -/
theorem update_node_listHead (m : Mem Ptr) (a b : Nat) (entry : Option (Links Ptr)) :
    Function.update m (.node a) entry (.listHead b) = m (.listHead b) :=
  Function.update_of_ne (by simp) _ _

section Released

variable (h : VHashHead K N D) (events : List Event)

@[simp] theorem released_moudle : (h.released events).moudle = h.moudle := rfl
@[simp] theorem released_mem : (h.released events).mem = h.mem := rfl
@[simp] theorem released_pData : (h.released events).pData = h.pData := rfl
@[simp] theorem released_live : (h.released events).live = h.live := rfl
@[simp] theorem released_locked : (h.released events).locked = false := rfl
@[simp] theorem released_uiTotal : (h.released events).uiTotal = h.uiTotal := rfl
@[simp] theorem released_sums :
    (h.released events).ulDataNodeSum = h.ulDataNodeSum := rfl

variable {h} {bs : Nat → List Nat}

theorem Chains.released (hc : Chains h bs) (events : List Event) :
    Chains (h.released events) bs := hc.congr rfl rfl rfl rfl rfl

/-- The lists do not depend on what the nodes store. -/
theorem Chains.rewritten (hc : Chains h bs) (pData : Nat → D) :
    Chains {h with pData := pData} bs := hc.congr rfl rfl rfl rfl rfl

/-- A node that came and went is no longer anywhere. -/
theorem Chains.freed (hc : Chains h bs) {a : Nat} (hfresh : a ∉ h.live) (d : D)
    (events : List Event) :
    Chains (VHashHead.released {h with
      mem := Function.update h.mem (.node a) none
      pData := Function.update h.pData a d} events) bs := by
  refine ⟨⟨?_, hc.empty, hc.apart, hc.live⟩, hc.sums, hc.total⟩
  intro b hb
  apply (hc.ring b hb).congr
  intro q hq
  apply Function.update_of_ne
  rintro rfl
  simp only [List.mem_cons, List.mem_map, Ptr.node.injEq, exists_eq_right, reduceCtorEq,
    false_or] at hq
  exact hfresh (hc.live_of_mem hq)

end Released

section Lookup

variable {h h' : VHashHead K N D} {key : K}

theorem walk_ok {pListHead : Ptr} (fuel : Nat) (entry : Ptr) (last : Option Nat) {found : Walk}
    (hrun : (walk key pListHead fuel entry last).run h = .ok (found, h')) :
    h' = h ∧ ∀ a, found = .hit a → a ∈ h.live ∧ h.moudle.pfnVHashCompare.isSome := by
  induction fuel generalizing entry last with
  | zero => cases hrun
  | succ fuel ih =>
      unfold walk at hrun
      split at hrun
      · cases hrun
        exact ⟨rfl, fun a heq => by cases heq⟩
      · obtain ⟨a, h₁, hrecord, hrun₁⟩ := bind_eq_ok hrun
        have heq₁ := containingRecord_ok hrecord
        obtain ⟨_, h₂, hget, hrun₂⟩ := bind_eq_ok hrun₁
        cases hget
        obtain ⟨compare, h₃, hcompare, hrun₃⟩ := bind_eq_ok hrun₂
        obtain ⟨hsome, heq₃⟩ := callback_ok hcompare
        obtain ⟨d, h₄, hread, hrun₄⟩ := bind_eq_ok hrun₃
        obtain ⟨hlive, -, heq₄⟩ := readData_ok hread
        rw [heq₃, heq₁] at hlive heq₄
        rw [heq₁] at hsome
        rw [heq₄] at hrun₄
        split at hrun₄
        · cases hrun₄
          refine ⟨rfl, ?_⟩
          intro x heq
          cases heq
          exact ⟨hlive, by rw [hsome]; rfl⟩
        · obtain ⟨entry', h₅, hnext, hrun₅⟩ := bind_eq_ok hrun₄
          rw [flink_ok hnext] at hrun₅
          exact ih _ _ hrun₅

/-- A lookup only looks. -/
theorem lookup_ok {b : Nat} {found : Walk} (hrun : (lookup key).run h = .ok ((b, found), h')) :
    h' = h ∧ h.moudle.pfnVHashCalc.isSome ∧
      ∀ a, found = .hit a → a ∈ h.live ∧ h.moudle.pfnVHashCompare.isSome := by
  unfold lookup at hrun
  obtain ⟨_, h₁, hget, hrun₁⟩ := bind_eq_ok hrun
  cases hget
  obtain ⟨hash, h₂, hhash, hrun₂⟩ := bind_eq_ok hrun₁
  obtain ⟨hsome, heq₂⟩ := callback_ok hhash
  rw [heq₂] at hrun₂
  obtain ⟨entry, h₃, hfirst, hrun₃⟩ := bind_eq_ok hrun₂
  rw [flink_ok hfirst] at hrun₃
  obtain ⟨found', h₄, hwalk, hrun₄⟩ := bind_eq_ok hrun₃
  cases hrun₄
  obtain ⟨rfl, hhit⟩ := walk_ok _ _ _ hwalk
  exact ⟨rfl, by rw [hsome]; rfl, hhit⟩

/-- Where a bucket beyond the last one would be, there is no list. -/
theorem lookup_beyond {hash : K → UInt32} (hlocked : h.locked = true)
    (hcalc : h.moudle.pfnVHashCalc = some hash)
    (hnone : h.mem (.listHead (hash key).toNat) = none) :
    (lookup key).run h = .error .badAddress := by
  have hfirst : (onList (flink (.listHead (hash key).toNat))).run h = .error .badAddress := by
    exact onList_fault hlocked (flink_fault hnone)
  simp [lookup, hcalc, callback_run, hfirst]

theorem lookup_null (hnone : h.moudle.pfnVHashCalc = none) :
    (lookup key).run h = .error .nullCallback := by
  simp [lookup, hnone, callback_null]

/-- An empty list is walked without comparing anything. -/
theorem lookup_empty {hash : K → UInt32} (hlocked : h.locked = true)
    (hcalc : h.moudle.pfnVHashCalc = some hash)
    (hring : Ring h.mem (.listHead (hash key).toNat) []) :
    (lookup key).run h = .ok (((hash key).toNat, .miss none), h) := by
  have hfirst := onList_run hlocked (flink_run hring.first)
  simp [lookup, hcalc, callback_run, hfirst, walk]

/-- The lookup of the key ends at the node `a`. -/
def Hits (h : VHashHead K N D) (key : K) (a : Nat) : Prop :=
  h.locked = false ∧ a ∈ h.live ∧
    ∃ b, (lookup key).run {h with locked := true, log := h.log ++ [.lock]} =
      .ok ((b, .hit a), {h with locked := true, log := h.log ++ [.lock]})

theorem getNode_of_hits (hhits : Hits h key a) (ppData : Option NodePtr) :
    (getNode key ppData).run h =
      .ok ((vhashOk, ppData.map (fun _ => some a)), h.released []) := by
  obtain ⟨hfree, -, b, hlook⟩ := hhits
  simp [getNode, spinLockLock_run hfree, hlook, spinLockUnlock_run, VHashHead.released]

theorem getNode_of_miss (hfree : h.locked = false) {b : Nat} {last : Option Nat}
    (hlook : (lookup key).run {h with locked := true, log := h.log ++ [.lock]} =
      .ok ((b, .miss last), {h with locked := true, log := h.log ++ [.lock]}))
    (ppData : Option NodePtr) :
    (getNode key ppData).run h = .ok ((vhashNotFound, ppData), h.released []) := by
  simp [getNode, spinLockLock_run hfree, hlook, spinLockUnlock_run, VHashHead.released]

theorem delNode_of_miss (hfree : h.locked = false)
    (hcalc : h.moudle.pfnVHashCalc.isSome) (hcompare : h.moudle.pfnVHashCompare.isSome)
    {b : Nat} {last : Option Nat}
    (hlook : (lookup key).run {h with locked := true, log := h.log ++ [.lock]} =
      .ok ((b, .miss last), {h with locked := true, log := h.log ++ [.lock]})) :
    (delNode key).run h = .ok (vhashNotFound, h.released []) := by
  simp [delNode, hcalc, hcompare, spinLockLock_run hfree, hlook, spinLockUnlock_run,
    VHashHead.released]

/-- What ends a lookup ends the calls that begin with one. -/
theorem getNode_fault (hfree : h.locked = false) {e : Fault}
    (hlook : (lookup key).run {h with locked := true, log := h.log ++ [.lock]} = .error e)
    (ppData : Option NodePtr) : (getNode key ppData).run h = .error e := by
  simp [getNode, spinLockLock_run hfree, hlook]

theorem delNode_fault (hfree : h.locked = false)
    (hcalc : h.moudle.pfnVHashCalc.isSome) (hcompare : h.moudle.pfnVHashCompare.isSome)
    {e : Fault}
    (hlook : (lookup key).run {h with locked := true, log := h.log ++ [.lock]} = .error e) :
    (delNode key).run h = .error e := by
  simp [delNode, hcalc, hcompare, spinLockLock_run hfree, hlook]

theorem addNode2_fault [Zero D] (hfree : h.locked = false)
    (hcallbacks : addCallbacks h.moudle = true) {e : Fault}
    (hlook : (lookup key).run {h with locked := true, log := h.log ++ [.lock]} = .error e)
    (data : N) (ppNodeData : Option NodePtr) (want : Option Nat) :
    (addNode2 key data ppNodeData want).run h = .error e := by
  simp [addNode2, hcallbacks, spinLockLock_run hfree, hlook]

end Lookup

section Specs

variable {h : VHashHead K N D} {bs : Nat → List Nat} {f : FullMoudle K N D}

theorem lookup_locked_run (hl : Lists h bs) {key : K} (hs : Serves h.moudle f key)
    {found : Walk}
    (hscan : scan (f.matching key h.pData) none (bs (f.bucket key)) = found) :
    (lookup key).run {h with locked := true, log := h.log ++ [.lock]} =
      .ok ((f.bucket key, found), {h with locked := true, log := h.log ++ [.lock]}) := by
  have hl' : Lists {h with locked := true, log := h.log ++ [.lock]} bs :=
    hl.congr rfl rfl rfl
  have hrun := lookup_run hl' hs rfl
  rw [hscan] at hrun
  exact hrun

theorem live_of_scan (hl : Lists h bs) {key : K} {a : Nat}
    (hscan : scan (f.matching key h.pData) none (bs (f.bucket key)) = .hit a) :
    a ∈ h.live := by
  obtain ⟨_, left, right, hcut, _⟩ := scan_hit hscan
  exact hl.live_of_mem (b := f.bucket key) (by simp [hcut])

theorem hits_of_scan (hl : Lists h bs) {key : K} (hs : Serves h.moudle f key)
    (hfree : h.locked = false) {a : Nat}
    (hscan : scan (f.matching key h.pData) none (bs (f.bucket key)) = .hit a) :
    Hits h key a :=
  ⟨hfree, live_of_scan hl hscan, f.bucket key, lookup_locked_run hl hs hscan⟩

theorem getNode_hit (hl : Lists h bs) {key : K} (hs : Serves h.moudle f key)
    (hfree : h.locked = false) (ppData : Option NodePtr) {a : Nat}
    (hscan : scan (f.matching key h.pData) none (bs (f.bucket key)) = .hit a) :
    (getNode key ppData).run h =
      .ok ((vhashOk, ppData.map (fun _ => some a)), h.released []) :=
  getNode_of_hits (hits_of_scan hl hs hfree hscan) ppData

theorem getNode_miss (hl : Lists h bs) {key : K} (hs : Serves h.moudle f key)
    (hfree : h.locked = false) (ppData : Option NodePtr) {last : Option Nat}
    (hscan : scan (f.matching key h.pData) none (bs (f.bucket key)) = .miss last) :
    (getNode key ppData).run h = .ok ((vhashNotFound, ppData), h.released []) :=
  getNode_of_miss hfree (lookup_locked_run hl hs hscan) ppData

theorem addCallbacks_iff {m : VHashMoudle K N D} :
    addCallbacks m = true ↔ ∃ hash compare isUpdate cpy, m.pfnVHashCalc = some hash ∧
      m.pfnVHashCompare = some compare ∧ m.pfnVHashIsUpdate = some isUpdate ∧
      m.pfnVHashCpy = some cpy := by
  simp [addCallbacks, Option.isSome_iff_exists, and_assoc]

theorem Serves.addCallbacks {m : VHashMoudle K N D} {key : K} (hs : Serves m f key) :
    addCallbacks m = true := by
  obtain ⟨hash, hcalc, -⟩ := hs.hashed
  exact addCallbacks_iff.mpr ⟨hash, _, _, _, hcalc, hs.compare, hs.isUpdate, hs.cpy⟩

section AddNode2

variable [Zero D]

theorem addNode2_refused (hl : Lists h bs) {key : K} (hs : Serves h.moudle f key)
    (hfree : h.locked = false) (data : N) (ppNodeData : Option NodePtr)
    (want : Option Nat) {a : Nat}
    (hscan : scan (f.matching key h.pData) none (bs (f.bucket key)) = .hit a)
    (hrefused : f.isUpdate (h.pData a) data ≠ vhashOk) :
    (addNode2 key data ppNodeData want).run h =
      .ok ((vhashExist, ppNodeData), h.released []) := by
  have ha := live_of_scan hl hscan
  have hupdate := hs.isUpdate
  have hread : (readData a).run {h with locked := true, log := h.log ++ [.lock]} = _ :=
    readData_run rfl ha
  simp [addNode2, hs.addCallbacks, spinLockLock_run hfree,
    lookup_locked_run hl hs hscan, hupdate, callback_run, hread, hrefused,
    spinLockUnlock_run, VHashHead.released]

/-- The update path on a stored item: `clean`, then `cpy` over it. -/
theorem addNode2_updated (hl : Lists h bs) {key : K} (hs : Serves h.moudle f key)
    (hfree : h.locked = false) (data : N) (ppNodeData : Option NodePtr)
    (want : Option Nat) {a : Nat}
    (hscan : scan (f.matching key h.pData) none (bs (f.bucket key)) = .hit a)
    (hupdate : f.isUpdate (h.pData a) data = vhashOk)
    (hcopied : (f.cpy (cleaned f.moudle (h.pData a)) data f.uiDataLen).1 = vhashOk) :
    (addNode2 key data ppNodeData want).run h =
      .ok ((vhashUpdateOk, ppNodeData.map (fun _ => some a)),
        VHashHead.released {h with
          pData := Function.update h.pData a
            (f.cpy (cleaned f.moudle (h.pData a)) data f.uiDataLen).2}
          (cleanEvents f.moudle a ++ [.cpy a])) := by
  have ha := live_of_scan hl hscan
  have hisUpdate := hs.isUpdate
  have hcpy := hs.cpy
  have hlen := hs.len
  rw [← hs.cleaned] at hcopied ⊢
  rw [← hs.cleanEvents]
  simp [addNode2, hs.addCallbacks, spinLockLock_run hfree,
    lookup_locked_run hl hs hscan, hisUpdate, callback_run, readData_run, ha,
    hupdate, cleanData_run, cpyData_run f.cpy, hcpy, hlen, hcopied, spinLockUnlock_run,
    VHashHead.released]

/-- The module after an update whose `cpy` has failed: the node is cleaned,
written to, cleaned again, and still there. -/
def notUpdated (h : VHashHead K N D) (cpy : D → N → UInt32 → UInt32 × D) (data : N) (a : Nat) :
    VHashHead K N D :=
  VHashHead.released {h with
    pData := Function.update h.pData a (cleaned h.moudle
      (cpy (cleaned h.moudle (h.pData a)) data h.moudle.uiDataLen).2)}
    (cleanEvents h.moudle a ++ [.cpy a] ++ cleanEvents h.moudle a)

/-- When `cpy` fails on the update path, `clean` is applied once more and the
node stays on its list with what the callbacks left in it. -/
theorem addNode2_notUpdated {key : K} {data : N} {a : Nat} (hhits : Hits h key a)
    (hcallbacks : addCallbacks h.moudle = true) {isUpdate : D → N → UInt32}
    {cpy : D → N → UInt32 → UInt32 × D}
    (hisUpdate : h.moudle.pfnVHashIsUpdate = some isUpdate)
    (hcpy : h.moudle.pfnVHashCpy = some cpy) (hupdate : isUpdate (h.pData a) data = vhashOk)
    (hfailed : (cpy (cleaned h.moudle (h.pData a)) data h.moudle.uiDataLen).1 ≠ vhashOk)
    (ppNodeData : Option NodePtr) (want : Option Nat) :
    (addNode2 key data ppNodeData want).run h =
      .ok (((cpy (cleaned h.moudle (h.pData a)) data h.moudle.uiDataLen).1, ppNodeData),
        notUpdated h cpy data a) := by
  obtain ⟨hfree, hlive, b, hlook⟩ := hhits
  simp [addNode2, hcallbacks, spinLockLock_run hfree, hlook, hisUpdate, callback_run,
    readData_run, hlive, hupdate, cleanData_run, cpyData_run cpy, hcpy, hfailed,
    spinLockUnlock_run, VHashHead.released, notUpdated]

theorem addNode2_update_failed (hl : Lists h bs) {key : K} (hs : Serves h.moudle f key)
    (hfree : h.locked = false) (data : N) (ppNodeData : Option NodePtr)
    (want : Option Nat) {a : Nat}
    (hscan : scan (f.matching key h.pData) none (bs (f.bucket key)) = .hit a)
    (hupdate : f.isUpdate (h.pData a) data = vhashOk)
    (hfailed : (f.cpy (cleaned f.moudle (h.pData a)) data f.uiDataLen).1 ≠ vhashOk) :
    (addNode2 key data ppNodeData want).run h =
      .ok (((f.cpy (cleaned f.moudle (h.pData a)) data f.uiDataLen).1, ppNodeData),
        notUpdated h f.cpy data a) := by
  have hisUpdate := hs.isUpdate
  have hcpy := hs.cpy
  have hlen := hs.len
  rw [← hs.cleaned, ← hlen] at hfailed ⊢
  exact addNode2_notUpdated (hits_of_scan hl hs hfree hscan) (hs.addCallbacks) hisUpdate
    hcpy hupdate hfailed ppNodeData want

theorem addNode2_no_memory (hl : Lists h bs) {key : K} (hs : Serves h.moudle f key)
    (hfree : h.locked = false) (data : N) (ppNodeData : Option NodePtr)
    {last : Option Nat}
    (hscan : scan (f.matching key h.pData) none (bs (f.bucket key)) = .miss last) :
    (addNode2 key data ppNodeData none).run h =
      .ok ((vhashNotInnif, ppNodeData), h.released []) := by
  simp [addNode2, hs.addCallbacks, spinLockLock_run hfree,
    lookup_locked_run hl hs hscan, mallocNode_none_run, spinLockUnlock_run,
    VHashHead.released]

/-- The insert path: a fresh node at the end of the key's bucket, holding what
`cpy` makes of a zeroed item. -/
theorem addNode2_inserted (hc : Chains h bs) {key : K} (hs : Serves h.moudle f key)
    (hfree : h.locked = false) (data : N) (ppNodeData : Option NodePtr)
    (want : Nat) {last : Option Nat}
    (hscan : scan (f.matching key h.pData) none (bs (f.bucket key)) = .miss last)
    (hcopied : (f.cpy 0 data f.uiDataLen).1 = vhashOk) :
    ∃ h', (addNode2 key data ppNodeData (some want)).run h =
        .ok ((vhashOk, ppNodeData.map (fun _ => some (unused h.live want))), h') ∧
      Chains h' (Function.update bs (f.bucket key)
        (bs (f.bucket key) ++ [unused h.live want])) ∧
      h'.moudle = h.moudle ∧ h'.locked = false ∧
      h'.live = insert (unused h.live want) h.live ∧
      h'.pData = Function.update h.pData (unused h.live want)
        (f.cpy 0 data f.uiDataLen).2 ∧
      h'.log = h.log ++ [.lock, .malloc (unused h.live want),
        .cpy (unused h.live want), .unlock] ∧
      SameHeads h h' := by
  let a := unused h.live want
  have hfresh : a ∉ h.live := unused_not_mem h.live want
  have hb : f.bucket key < h.bucketCount := hs.bucket_lt
  let m₁ := Function.update h.mem (.node a) (some ⟨.null, .null⟩)
  have hnode : Ptr.node a ∉ Ptr.listHead (f.bucket key) ::
      (bs (f.bucket key)).map Ptr.node := by
    simp only [List.mem_cons, List.mem_map, Ptr.node.injEq, exists_eq_right,
      reduceCtorEq, false_or]
    exact fun hmem => hfresh (hc.live_of_mem hmem)
  have hring₁ : Ring m₁ (.listHead (f.bucket key)) ((bs (f.bucket key)).map .node) := by
    apply (hc.ring _ hb).congr
    intro q hq
    have hqa : q ≠ .node a := fun heq => hnode (heq ▸ hq)
    simp [m₁, Function.update_of_ne hqa]
  obtain ⟨m₂, hinsert, hring₂, hframe⟩ :=
    insertTailList_spec hring₁ hnode (by simp [m₁])
  let h' : VHashHead K N D := {h with
    uiTotal := h.uiTotal + 1
    locked := false
    ulDataNodeSum := Function.update h.ulDataNodeSum (f.bucket key)
      (h.ulDataNodeSum (f.bucket key) + 1)
    mem := m₂
    pData := Function.update h.pData a (f.cpy 0 data f.uiDataLen).2
    live := insert a h.live
    log := h.log ++ [.lock, .malloc a, .cpy a, .unlock]}
  have hlists : Lists h' (Function.update bs (f.bucket key)
      (bs (f.bucket key) ++ [a])) := by
    have hcount : h'.bucketCount = h.bucketCount := rfl
    apply hc.toLists.insert hb hfresh hcount
    · rw [List.map_append]
      exact hring₂
    · intro q hhead hqa hmem
      have hq : q ∉ Ptr.node a :: Ptr.listHead (f.bucket key) ::
          (bs (f.bucket key)).map Ptr.node := by
        simp only [List.mem_cons, List.mem_map, not_or, not_exists, not_and]
        exact ⟨hqa, hhead, fun x hx heq => hmem x hx heq.symm⟩
      exact (hframe.outside q hq).trans (Function.update_of_ne hqa _ _)
    · rfl
  have hheads : SameHeads h h' := by
    intro c
    have hsame : m₁ (.listHead c) = h.mem (.listHead c) := update_node_listHead ..
    rw [← hsame]
    exact hframe.mapped _
  refine ⟨h', ?_, hc.insert hlists hb rfl rfl rfl, rfl, rfl, rfl, rfl, rfl, hheads⟩
  have hcpy := hs.cpy
  have hlen := hs.len
  have hlist (st : VHashHead K N D) := onList_at hinsert st
  simp [addNode2, hs.addCallbacks, spinLockLock_run hfree,
    lookup_locked_run hc.toLists hs hscan, mallocNode_some_run, writeData_run,
    cpyData_run f.cpy, hcpy, hlen, hcopied, hlist, a, m₁, countBucket_run,
    countTotal_run, spinLockUnlock_run, h']

/-- When `cpy` fails on the insert path, the new node is cleaned and freed. -/
theorem addNode2_copy_failed (hfree : h.locked = false) {key : K} {data : N} {b want : Nat}
    {last : Option Nat}
    (hlook : (lookup key).run {h with locked := true, log := h.log ++ [.lock]} =
      .ok ((b, .miss last), {h with locked := true, log := h.log ++ [.lock]}))
    (hcallbacks : addCallbacks h.moudle = true) {cpy : D → N → UInt32 → UInt32 × D}
    (hcpy : h.moudle.pfnVHashCpy = some cpy)
    (hfailed : (cpy 0 data h.moudle.uiDataLen).1 ≠ vhashOk) (ppNodeData : Option NodePtr) :
    (addNode2 key data ppNodeData (some want)).run h =
      .ok (((cpy 0 data h.moudle.uiDataLen).1, ppNodeData), VHashHead.released {h with
        mem := Function.update h.mem (.node (unused h.live want)) none
        pData := Function.update h.pData (unused h.live want)
          (cleaned h.moudle (cpy 0 data h.moudle.uiDataLen).2)}
        ([.malloc (unused h.live want), .cpy (unused h.live want)] ++
          cleanEvents h.moudle (unused h.live want) ++ [.free (unused h.live want)])) := by
  simp [addNode2, hcallbacks, spinLockLock_run hfree, hlook, mallocNode_some_run,
    writeData_run, cpyData_run cpy, hcpy, hfailed, cleanData_run, freeNode_run,
    spinLockUnlock_run, unused_not_mem h.live want, VHashHead.released]

end AddNode2

section NextNode

/-- The nodes of the buckets from `i` on, in the order of the enumeration. -/
def nodesFrom (bs : Nat → List Nat) (i rounds : Nat) : List Nat :=
  (List.range' i rounds).flatMap bs

theorem Lists.mem_nodesFrom (hl : Lists h bs) (a : Nat) :
    a ∈ nodesFrom bs 0 h.bucketCount ↔ a ∈ h.live := by
  rw [hl.live a, nodesFrom, List.mem_flatMap]
  constructor
  · rintro ⟨b, _, ha⟩
    exact ⟨b, ha⟩
  · rintro ⟨b, ha⟩
    exact ⟨b, by simpa using hl.lt_count ha, ha⟩

theorem Lists.nodup_nodesFrom (hl : Lists h bs) (i rounds : Nat) :
    (nodesFrom bs i rounds).Nodup := by
  rw [nodesFrom, List.nodup_flatMap]
  refine ⟨fun b _ => hl.nodup b, ?_⟩
  have hdistinct : (List.range' i rounds).Pairwise (· ≠ ·) := List.nodup_range'
  apply hdistinct.imp
  intro b c hbc a ha ha'
  exact hbc (hl.apart b c a ha ha')

theorem nodesFrom_split (bs : Nat → List Nat) {b rounds : Nat} (hb : b < rounds) :
    nodesFrom bs 0 rounds =
      nodesFrom bs 0 b ++ (bs b ++ nodesFrom bs (b + 1) (rounds - (b + 1))) := by
  obtain ⟨rest, rfl⟩ : ∃ rest, rounds = b + (rest + 1) := ⟨rounds - (b + 1), by omega⟩
  have hcut : List.range' 0 (b + (rest + 1)) =
      List.range' 0 b ++ b :: List.range' (b + 1) rest := by
    rw [← List.range'_append_1, Nat.zero_add, List.range'_succ]
  have hrest : b + (rest + 1) - (b + 1) = rest := by omega
  rw [hrest, nodesFrom, hcut, List.flatMap_append, List.flatMap_cons]
  rfl

theorem firstNode_run (hl : Lists h bs) (hlocked : h.locked = true) (i rounds : Nat)
    (hbound : rounds ≤ h.bucketCount - i) :
    (firstNode rounds i).run h = .ok ((nodesFrom bs i rounds).head?, h) := by
  induction rounds generalizing i with
  | zero => rfl
  | succ rounds ih =>
      have hring := hl.ring i (by omega)
      have hentry := onList_run hlocked (flink_run hring.first)
      have hnodes : nodesFrom bs i (rounds + 1) = bs i ++ nodesFrom bs (i + 1) rounds := by
        rw [nodesFrom, List.range'_succ, List.flatMap_cons]
        rfl
      rw [hnodes]
      cases hi : bs i with
      | nil =>
          have hnext := ih (i + 1) (by omega)
          simp [firstNode, hentry, hi]
          exact hnext
      | cons a rest => simp [firstNode, hentry, hi, containingRecord_run]

theorem nextBucket_run (hl : Lists h bs) (hlocked : h.locked = true) (i : UInt32)
    (ppNodeData : Option NodePtr) :
    (nextBucket i ppNodeData).run h =
      .ok ((vhashOk, ppNodeData.map
          ((nodesFrom bs i.toNat (h.bucketCount - i.toNat)).head?.or ·)),
        {h with locked := false, log := h.log ++ [.unlock]}) := by
  have hfirst := firstNode_run hl hlocked i.toNat (h.bucketCount - i.toNat) le_rfl
  unfold VHashHead.bucketCount at hfirst ⊢
  cases hfound : (nodesFrom bs i.toNat (h.moudle.uiBucketCount.toNat - i.toNat)).head? with
  | none =>
      rw [hfound] at hfirst
      cases ppNodeData <;> simp [nextBucket, hfirst, spinLockUnlock_run]
  | some a =>
      rw [hfound] at hfirst
      simp [nextBucket, hfirst, spinLockUnlock_run]

variable {hash : K → UInt32}

theorem getNextNode_first (hl : Lists h bs) (hcalc : h.moudle.pfnVHashCalc = some hash)
    (hfree : h.locked = false) (pData : NodePtr) (ppNodeData : Option NodePtr) :
    (getNextNode none pData ppNodeData).run h =
      .ok ((vhashOk, ppNodeData.map ((nodesFrom bs 0 h.bucketCount).head?.or ·)),
        h.released []) := by
  have hl' : Lists {h with locked := true, log := h.log ++ [.lock]} bs :=
    hl.congr rfl rfl rfl
  have hnext := nextBucket_run hl' rfl 0 ppNodeData
  simp [getNextNode, hcalc, spinLockLock_run hfree, hnext, VHashHead.released]
  rfl

/-- From a stored node the next one is the next of its bucket, or the first
behind the bucket. -/
theorem getNextNode_after (hl : Lists h bs) (hcalc : h.moudle.pfnVHashCalc = some hash)
    (hfree : h.locked = false) (key : K) {a : Nat} {left right : List Nat}
    (hcut : bs (hash key).toNat = left ++ a :: right) (out : NodePtr) :
    (getNextNode (some key) (some a) (some out)).run h =
      .ok ((vhashOk, some ((right ++ nodesFrom bs ((hash key).toNat + 1)
        (h.bucketCount - ((hash key).toNat + 1))).head?.or out)), h.released []) := by
  have hb : (hash key).toNat < h.bucketCount := hl.lt_count (a := a) (by simp [hcut])
  have hl' : Lists {h with locked := true, log := h.log ++ [.lock]} bs :=
    hl.congr rfl rfl rfl
  have hring : Ring h.mem (.listHead (hash key).toNat)
      (left.map Ptr.node ++ Ptr.node a :: right.map Ptr.node) := by
    simpa [hcut] using hl.ring _ hb
  have hentry (st : VHashHead K N D) := onList_at (flink_run hring.neighbours.2.1) st
  cases right with
  | nil =>
      have hcount := h.moudle.uiBucketCount.toNat_lt
      have hsucc : (hash key + 1).toNat = (hash key).toNat + 1 := by
        unfold VHashHead.bucketCount at hb
        rw [UInt32.toNat_add]
        exact Nat.mod_eq_of_lt (by change _ + 1 < _; omega)
      have hnext := nextBucket_run hl' rfl (hash key + 1) (some out)
      rw [hsucc] at hnext
      simp [getNextNode, hcalc, spinLockLock_run hfree, hentry, hnext, VHashHead.released]
      rfl
  | cons x right =>
      simp [getNextNode, hcalc, spinLockLock_run hfree, hentry, containingRecord_run,
        spinLockUnlock_run, VHashHead.released]

/-- What comes behind a node in the whole order is what comes behind it in its
bucket, and then the later buckets. -/
theorem Lists.behind (hl : Lists h bs) {a b : Nat} {before after left right : List Nat}
    (horder : nodesFrom bs 0 h.bucketCount = before ++ a :: after)
    (hcut : bs b = left ++ a :: right) :
    right ++ nodesFrom bs (b + 1) (h.bucketCount - (b + 1)) = after := by
  have hb : b < h.bucketCount := hl.lt_count (a := a) (by simp [hcut])
  have hnodup := hl.nodup_nodesFrom 0 h.bucketCount
  have hsplit := nodesFrom_split bs hb
  rw [hcut, List.append_assoc, List.cons_append, ← List.append_assoc, horder] at hsplit
  rw [horder] at hnodup
  have hbefore : a ∉ before := fun ha => (List.disjoint_of_nodup_append hnodup) ha (by simp)
  have hafter : a ∉ after := by
    have htail := (List.nodup_append.mp hnodup).2.1
    exact (List.nodup_cons.mp htail).1
  exact ((List.append_cons_inj_of_notMem hbefore hafter).mp hsplit).2.2.symm

/-- From a stored node the answer is the next one in the whole order. -/
theorem getNextNode_next (hl : Lists h bs) (hcalc : h.moudle.pfnVHashCalc = some hash)
    (hfree : h.locked = false) (key : K) {a : Nat} {before after : List Nat}
    (hplaced : a ∈ bs (hash key).toNat)
    (horder : nodesFrom bs 0 h.bucketCount = before ++ a :: after) (out : NodePtr) :
    (getNextNode (some key) (some a) (some out)).run h =
      .ok ((vhashOk, some (after.head?.or out)), h.released []) := by
  obtain ⟨left, right, hcut⟩ := List.append_of_mem hplaced
  rw [getNextNode_after hl hcalc hfree key hcut out, hl.behind horder hcut]

end NextNode

theorem delNode_miss (hl : Lists h bs) {key : K} (hs : Serves h.moudle f key)
    (hfree : h.locked = false) {last : Option Nat}
    (hscan : scan (f.matching key h.pData) none (bs (f.bucket key)) = .miss last) :
    (delNode key).run h = .ok (vhashNotFound, h.released []) := by
  obtain ⟨hash, hcalc, -⟩ := hs.hashed
  apply delNode_of_miss hfree _ _ (lookup_locked_run hl hs hscan)
  · rw [hcalc]
    rfl
  · rw [hs.compare]
    rfl

/-- A node that `list.c` has taken out of its bucket and that has been freed:
what is left are well-formed lists, under the same heads. -/
theorem Lists.unlinked (hl : Lists h bs) {h' : VHashHead K N D} {a b : Nat}
    {left right : List Nat} (hcut : bs b = left ++ a :: right) {m : Mem Ptr}
    (hring : Ring m (.listHead b) (left.map Ptr.node ++ right.map Ptr.node))
    (hframe : Footprint h.mem m (Ptr.listHead b :: left.map Ptr.node ++ right.map Ptr.node))
    (hcount : h'.bucketCount = h.bucketCount)
    (hmem : h'.mem = Function.update m (.node a) none) (hlive : h'.live = h.live.erase a) :
    Lists h' (Function.update bs b (left ++ right)) ∧ SameHeads h h' := by
  have hgone : a ∉ left ++ right := by
    have hnodup := hl.nodup b
    rw [hcut] at hnodup
    exact (List.nodup_middle.mp hnodup).notMem
  have hother : ∀ q, q ≠ .node a → h'.mem q = m q := by
    intro q hqa
    rw [hmem]
    exact Function.update_of_ne hqa _ _
  constructor
  · apply hl.erase hcut hcount _ _ hlive
    · rw [List.map_append]
      apply hring.congr
      intro q hq
      apply hother
      rintro rfl
      simp only [List.mem_cons, List.mem_append, List.mem_map, Ptr.node.injEq,
        exists_eq_right, reduceCtorEq, false_or] at hq
      exact hgone (List.mem_append.mpr hq)
    · intro q hhead hnode
      rw [hother q (hnode a (by simp [hcut]))]
      apply hframe.outside
      simp only [List.mem_cons, List.mem_append, List.mem_map, not_or, not_exists,
        not_and, List.cons_append]
      exact ⟨hhead, fun x hx heq => hnode x (by simp [hcut, hx]) heq.symm,
        fun x hx heq => hnode x (by simp [hcut, hx]) heq.symm⟩
  · intro c
    rw [hother _ (by simp)]
    exact hframe.mapped _

/-- Deleting a found node: unlinked, cleaned, freed and uncounted. -/
theorem delNode_hit (hc : Chains h bs) {key : K} (hs : Serves h.moudle f key)
    (hfree : h.locked = false) {a : Nat} {left right : List Nat}
    (hscan : scan (f.matching key h.pData) none (bs (f.bucket key)) = .hit a)
    (hcut : bs (f.bucket key) = left ++ a :: right) :
    ∃ h', (delNode key).run h = .ok (vhashOk, h') ∧
      Chains h' (Function.update bs (f.bucket key) (left ++ right)) ∧
      h'.moudle = h.moudle ∧ h'.locked = false ∧ h'.live = h.live.erase a ∧
      h'.pData = Function.update h.pData a (cleaned f.moudle (h.pData a)) ∧
      h'.log = h.log ++ [.lock] ++ cleanEvents f.moudle a ++ [.free a, .unlock] ∧
      SameHeads h h' := by
  have ha := live_of_scan hc.toLists hscan
  have hb : f.bucket key < h.bucketCount := hs.bucket_lt
  have hring : Ring h.mem (.listHead (f.bucket key))
      (left.map Ptr.node ++ Ptr.node a :: right.map Ptr.node) := by
    simpa [hcut] using hc.ring _ hb
  obtain ⟨m₁, hremove, hring₁, hframe⟩ := removeEntryList_spec hring
  let m₂ := Function.update m₁ (.node a) none
  let h' : VHashHead K N D := {h with
    uiTotal := h.uiTotal - 1
    locked := false
    ulDataNodeSum := Function.update h.ulDataNodeSum (f.bucket key)
      (h.ulDataNodeSum (f.bucket key) - 1)
    mem := m₂
    pData := Function.update h.pData a (cleaned h.moudle (h.pData a))
    live := h.live.erase a
    log := h.log ++ [.lock] ++ cleanEvents h.moudle a ++ [.free a, .unlock]}
  have hcount : h'.bucketCount = h.bucketCount := rfl
  obtain ⟨hlists, hheads⟩ : Lists h' (Function.update bs (f.bucket key) (left ++ right)) ∧
      SameHeads h h' := hc.toLists.unlinked hcut hring₁ hframe hcount rfl rfl
  obtain ⟨hash, hcalc, -⟩ := hs.hashed
  have hcompare := hs.compare
  rw [← hs.cleaned, ← hs.cleanEvents]
  refine ⟨h', ?_, hc.erase hcut hlists hcount rfl rfl, rfl, rfl, rfl, rfl, rfl, hheads⟩
  have hlist (st : VHashHead K N D) := onList_at hremove st
  simp [delNode, hcalc, hcompare, spinLockLock_run hfree,
    lookup_locked_run hc.toLists hs hscan, hlist, cleanData_run, ha, freeNode_run,
    countBucket_run, countTotal_run, spinLockUnlock_run, h', m₂]

end Specs

section Stat

variable {h : VHashHead K N D} {bs : Nat → List Nat}

theorem nodeStat_run (hfree : h.locked = false) :
    nodeStat.run h = .ok ((vhashOk, some ((List.range h.bucketCount).map h.ulDataNodeSum)),
      h.released []) := by
  simp [nodeStat, spinLockLock_run hfree, spinLockUnlock_run, VHashHead.released,
    VHashHead.bucketCount]

theorem nodeTotal_run : nodeTotal.run h = .ok ((vhashOk, some h.uiTotal), h) := rfl

end Stat

end RedisTrace
