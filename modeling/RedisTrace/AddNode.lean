import RedisTrace.PortVHash
import RedisTrace.VHash.Bodies

/-!
`VHash_Add_Node`, which nothing in the program calls, next to
`VHash_Add_Node2`. It has no `malloc`: where the other function makes a node,
it takes the last node its collision walk has looked at, which is on the list.
-/

namespace RedisTrace

open CircularList Run

variable {K N D : Type}

section Specs

variable [Zero D] {h : VHashHead K N D} {bs : Nat → List Nat} {f : FullMoudle K N D}

theorem addNode_refused (hl : Lists h bs) {key : K} (hs : Serves h.moudle f key)
    (hfree : h.locked = false) (data : N) {a : Nat}
    (hscan : scan (f.matching key h.pData) none (bs (f.bucket key)) = .hit a)
    (hrefused : f.isUpdate (h.pData a) data ≠ vhashOk) :
    (addNode key data).run h = .ok (vhashExist, h.released []) := by
  have ha := live_of_scan hl hscan
  have hupdate := hs.isUpdate
  have hread : (readData a).run {h with locked := true, log := h.log ++ [.lock]} = _ :=
    readData_run rfl ha
  simp [addNode, hs.addCallbacks, spinLockLock_run hfree,
    lookup_locked_run hl hs hscan, hupdate, callback_run, hread, hrefused,
    spinLockUnlock_run, VHashHead.released]

/-- The update path: `cpy` over the item, without `clean` and whatever `cpy`
answers. -/
theorem addNode_updated (hl : Lists h bs) {key : K} (hs : Serves h.moudle f key)
    (hfree : h.locked = false) (data : N) {a : Nat}
    (hscan : scan (f.matching key h.pData) none (bs (f.bucket key)) = .hit a)
    (hupdate : f.isUpdate (h.pData a) data = vhashOk) :
    (addNode key data).run h = .ok (vhashOk, VHashHead.released {h with
      pData := Function.update h.pData a (f.cpy (h.pData a) data f.uiDataLen).2}
      [.cpy a]) := by
  have ha := live_of_scan hl hscan
  have hisUpdate := hs.isUpdate
  have hcpy := hs.cpy
  have hlen := hs.len
  simp [addNode, hs.addCallbacks, spinLockLock_run hfree,
    lookup_locked_run hl hs hscan, hisUpdate, callback_run, readData_run, ha, hupdate,
    cpyData_run f.cpy, hcpy, hlen, spinLockUnlock_run, VHashHead.released]

/-- Nothing is inserted into an empty bucket. -/
theorem addNode_empty (hl : Lists h bs) {key : K} (hs : Serves h.moudle f key)
    (hfree : h.locked = false) (data : N)
    (hscan : scan (f.matching key h.pData) none (bs (f.bucket key)) = .miss none) :
    (addNode key data).run h = .ok (vhashNotInnif, h.released []) := by
  simp [addNode, hs.addCallbacks, spinLockLock_run hfree,
    lookup_locked_run hl hs hscan, spinLockUnlock_run, VHashHead.released]

/-- Where a new node would be due, the last node of the bucket loses its item
to the new one, and its links come to lead to itself. -/
theorem addNode_overwrites (hl : Lists h bs) {key : K} (hs : Serves h.moudle f key)
    (hfree : h.locked = false) (data : N) {a : Nat}
    (hscan : scan (f.matching key h.pData) none (bs (f.bucket key)) = .miss (some a)) :
    ∃ h', (addNode key data).run h = .ok (vhashOk, h') ∧
      Linked h'.mem (.node a) (.node a) ∧ h'.live = h.live ∧
      h'.pData = Function.update h.pData a (f.cpy 0 data f.uiDataLen).2 := by
  obtain ⟨hlast, _⟩ := scan_miss hscan
  obtain ⟨front, hcut⟩ : ∃ front, bs (f.bucket key) = front ++ [a] := by
    rw [Option.or_none] at hlast
    exact List.getLast?_eq_some_iff.mp hlast.symm
  have ha : a ∈ h.live := hl.live_of_mem (b := f.bucket key) (by simp [hcut])
  have hb : f.bucket key < h.bucketCount := hl.lt_count (a := a) (by simp [hcut])
  have hring : Ring h.mem (.listHead (f.bucket key)) (front.map .node ++ [.node a]) := by
    simpa [hcut] using hl.ring _ hb
  obtain ⟨m, hinsert, hself⟩ := insertTailList_last_spec hring
  have hcpy := hs.cpy
  have hlen := hs.len
  have hlist (st : VHashHead K N D) := onList_at hinsert st
  let h' : VHashHead K N D := {h with
    uiTotal := h.uiTotal + 1
    locked := false
    ulDataNodeSum := Function.update h.ulDataNodeSum (f.bucket key)
      (h.ulDataNodeSum (f.bucket key) + 1)
    mem := m
    pData := Function.update h.pData a (f.cpy 0 data f.uiDataLen).2
    log := h.log ++ [.lock, .cpy a, .unlock]}
  refine ⟨h', ?_, hself, rfl, rfl⟩
  simp [addNode, hs.addCallbacks, spinLockLock_run hfree,
    lookup_locked_run hl hs hscan, writeData_run, ha, cpyData_run f.cpy, hcpy, hlen, hlist,
    countBucket_run, countTotal_run, spinLockUnlock_run, h']

end Specs

/-- A module with all callbacks, whose stored and new data have keys: Compare
decides whether a stored key is the given one, `clean` and `cpy` succeed, and
`cpy` stores the key of the new data. -/
structure KeyedMoudle (K N D : Type) extends FullMoudle K N D where
  storedKey : D → K
  newKey : N → K
  compare_iff : ∀ key d, compare key d = vhashOk ↔ storedKey d = key
  clean_ok : ∃ c, clean = some c ∧ ∀ d, (c d).1 = vhashOk
  cpy_ok : ∀ d n, (cpy d n uiDataLen).1 = vhashOk
  cpy_key : ∀ d n, storedKey (cpy d n uiDataLen).2 = newKey n

/-- The tables that `VHash_Add_Node2` and `VHash_Del_Node` can lead to. -/
inductive Reachable [Zero D] (f : KeyedMoudle K N D) (enMoudleId : UInt32) :
    VHashWorld K N D → Prop
  | created {uiMaxVhashModules ret : UInt32} {w : VHashWorld K N D}
      (known : enMoudleId < uiMaxVhashModules)
      (call : (vhashCreateMoudle enMoudleId (some f.moudle) true).run
        (vhashInit uiMaxVhashModules) = .ok (ret, w)) : Reachable f enMoudleId w
  | added {key : K} {data : N} {ppNodeData ppNodeData' : Option NodePtr} {want : Option Nat}
      {ret : UInt32} {w w' : VHashWorld K N D} (before : Reachable f enMoudleId w)
      (call : (vhashAddNode2 enMoudleId (some key) (some data) ppNodeData want).run w =
        .ok ((ret, ppNodeData'), w')) : Reachable f enMoudleId w'
  | deleted {key : K} {ret : UInt32} {w w' : VHashWorld K N D}
      (before : Reachable f enMoudleId w)
      (call : (vhashDelNode enMoudleId (some key)).run w = .ok (ret, w')) :
      Reachable f enMoudleId w'

/-- What a lookup of the key comes to: the data of the node it finds. -/
def find (enMoudleId : UInt32) (w : VHashWorld K N D) (key : K) : Except Fault (Option D) := do
  let ((_, ppData), w) ← (vhashGetNode enMoudleId (some key) (some none)).run w
  return ppData.join.bind (fun a =>
    (w.astVHashHead enMoudleId.toNat).map (fun h => h.pData a))

/-- `w₁` is what `VHash_Add_Node` makes of `w`, `w₂` what `VHash_Add_Node2`
does. Both are tables, they agree on every key and in every counter, and no
node with another key has changed. -/
structure SameStored (f : KeyedMoudle K N D) (enMoudleId : UInt32) (key : K)
    (w w₁ w₂ : VHashWorld K N D) : Prop where
  heads : ∃ h₁ bs₁ h₂ bs₂, w₁.astVHashHead enMoudleId.toNat = some h₁ ∧ Chains h₁ bs₁ ∧
    w₂.astVHashHead enMoudleId.toNat = some h₂ ∧ Chains h₂ bs₂ ∧
    h₁.uiTotal = h₂.uiTotal ∧ h₁.ulDataNodeSum = h₂.ulDataNodeSum
  contents : ∀ k, ∃ found, find enMoudleId w₁ k = .ok found ∧ find enMoudleId w₂ k = .ok found
  others : ∀ h h₁, w.astVHashHead enMoudleId.toNat = some h →
    w₁.astVHashHead enMoudleId.toNat = some h₁ →
    ∀ a ∈ h.live, f.storedKey (h.pData a) ≠ key → a ∈ h₁.live ∧ h₁.pData a = h.pData a

/-- `VHash_Add_Node` answers and stores as `VHash_Add_Node2` does, except that
it has no answer of its own for an update. -/
def StoresAlike [Zero D] (f : KeyedMoudle K N D) (enMoudleId : UInt32)
    (w : VHashWorld K N D) (key : K) (data : N) (ppNodeData : Option NodePtr)
    (want : Nat) : Prop :=
  ∃ ret w₁ ret₂ ppNodeData' w₂,
    (vhashAddNode enMoudleId (some key) (some data)).run w = .ok (ret, w₁) ∧
    (vhashAddNode2 enMoudleId (some key) (some data) ppNodeData (some want)).run w =
      .ok ((ret₂, ppNodeData'), w₂) ∧
    (ret = ret₂ ∨ ret = vhashOk ∧ ret₂ = vhashUpdateOk) ∧
    SameStored f enMoudleId key w w₁ w₂

section Tables

variable {f : KeyedMoudle K N D} {enMoudleId : UInt32} {w : VHashWorld K N D}
variable {h : VHashHead K N D} {bs : Nat → List Nat}

/-- The module's head is well formed and its mutex free. -/
structure Formed (f : KeyedMoudle K N D) (enMoudleId : UInt32) (w : VHashWorld K N D)
    (h : VHashHead K N D) (bs : Nat → List Nat) : Prop where
  known : enMoudleId < w.uiMaxVhashModules
  head : w.astVHashHead enMoudleId.toNat = some h
  moudle : h.moudle = f.moudle
  free : h.locked = false
  chains : Chains h bs

theorem Formed.withHead (hw : Formed f enMoudleId w h bs) {h' : VHashHead K N D}
    {bs' : Nat → List Nat} (hmoudle : h'.moudle = h.moudle) (hfree : h'.locked = false)
    (hchains : Chains h' bs') : Formed f enMoudleId (w.withHead enMoudleId h') h' bs' :=
  ⟨hw.known, withHead_head w h', hmoudle.trans hw.moudle, hfree, hchains⟩

theorem Formed.call {α : Type} (hw : Formed f enMoudleId w h bs) {op : VHashM K N D α}
    {answer : α} {h' : VHashHead K N D} (error : α) (hrun : op.run h = .ok (answer, h')) :
    (withMoudle enMoudleId error op).run w = .ok (answer, w.withHead enMoudleId h') :=
  withMoudle_run error hw.known hw.head hrun

theorem Formed.find_hit (hw : Formed f enMoudleId w h bs) {key : K} {a : Nat}
    (hscan : scan (f.matching key h.pData) none (bs (f.bucket key)) = .hit a) :
    find enMoudleId w key = .ok (some (h.pData a)) := by
  have hrun := hw.call (vhashErr, some none)
    (getNode_hit hw.chains.toLists (.of_eq hw.moudle) hw.free (some none) hscan)
  simp [find, vhashGetNode, hrun, withHead_head]

theorem Formed.find_miss (hw : Formed f enMoudleId w h bs) {key : K} {last : Option Nat}
    (hscan : scan (f.matching key h.pData) none (bs (f.bucket key)) = .miss last) :
    find enMoudleId w key = .ok none := by
  have hrun := hw.call (vhashErr, some none)
    (getNode_miss hw.chains.toLists (.of_eq hw.moudle) hw.free (some none) hscan)
  simp [find, vhashGetNode, hrun]

theorem Formed.find_iff (hw : Formed f enMoudleId w h bs) {key : K} {d : D} :
    find enMoudleId w key = .ok (some d) ↔
      ∃ a, scan (f.matching key h.pData) none (bs (f.bucket key)) = .hit a ∧
        h.pData a = d := by
  cases hscan : scan (f.matching key h.pData) none (bs (f.bucket key)) with
  | hit a =>
      rw [hw.find_hit hscan]
      constructor
      · intro heq
        exact ⟨a, rfl, Option.some.inj (Except.ok.inj heq)⟩
      · rintro ⟨x, hx, rfl⟩
        cases hx
        rfl
  | miss last =>
      rw [hw.find_miss hscan]
      constructor
      · intro heq
        cases heq
      · rintro ⟨x, hx, _⟩
        cases hx

/-- A call that returns leaves the module formed, and its table sound. -/
theorem Formed.kept (hw : Formed f enMoudleId w h bs) {h' : VHashHead K N D}
    (hkept : Kept h h') :
    ∃ bs', Formed f enMoudleId (w.withHead enMoudleId h') h' bs' ∧ Sound h' bs' := by
  obtain ⟨bs', hs⟩ := hkept.sound
  exact ⟨bs', hw.withHead hkept.moudle hs.free hs.toChains, hs⟩

variable [Zero D]

theorem Reachable.sound (hreach : Reachable f enMoudleId w) :
    ∃ h bs, Formed f enMoudleId w h bs ∧ Sound h bs := by
  induction hreach with
  | @created uiMaxVhashModules ret w known call =>
      have hnone : (vhashInit uiMaxVhashModules : VHashWorld K N D).astVHashHead
          enMoudleId.toNat = none := rfl
      obtain ⟨h, hrun, hchains, hmoudle, hfree, hlive, -, -, hmem⟩ :=
        vhashCreateMoudle_run known hnone f.moudle
      rw [hrun] at call
      cases call
      exact ⟨h, _, ⟨known, Function.update_self _ _ _, hmoudle, hfree, hchains⟩,
        .created hchains hfree hlive (by rw [hmoudle]; exact hmem)⟩
  | @added key data ppNodeData _ want _ _ _ before call ih =>
      obtain ⟨h, bs, hw, hs⟩ := ih
      obtain ⟨answer, h', hrun, hkept⟩ :=
        addNode2_served hs (.of_eq hw.moudle) data ppNodeData want
      rw [vhashAddNode2, hw.call _ hrun] at call
      cases call
      exact ⟨h', hw.kept hkept⟩
  | @deleted key _ _ _ before call ih =>
      obtain ⟨h, bs, hw, hs⟩ := ih
      obtain ⟨answer, h', hrun, hkept⟩ :=
        delNode_ends hs (fun _ => hw.moudle ▸ f.reaches key)
      rw [vhashDelNode, hw.call _ hrun] at call
      cases call
      exact ⟨h', hw.kept hkept⟩

theorem Reachable.formed (hreach : Reachable f enMoudleId w) :
    ∃ h bs, Formed f enMoudleId w h bs := by
  obtain ⟨h, bs, hw, -⟩ := hreach.sound
  exact ⟨h, bs, hw⟩

end Tables

section Comparison

variable {f : KeyedMoudle K N D} {enMoudleId : UInt32} {w w₁ w₂ : VHashWorld K N D}
variable {h h₁ h₂ : VHashHead K N D} {bs : Nat → List Nat} {key : K} {data : N} {a : Nat}

theorem matching_iff {pData : Nat → D} :
    f.matching key pData a = true ↔ f.storedKey (pData a) = key := by
  rw [FullMoudle.matching, decide_eq_true_eq, f.compare_iff]

/-- New data under the old key do not change what any lookup finds. -/
theorem matching_update {pData : Nat → D} {d : D} (hd : f.storedKey d = f.storedKey (pData a))
    (k : K) : f.matching k (Function.update pData a d) = f.matching k pData := by
  funext x
  apply Bool.eq_iff_iff.mpr
  rw [matching_iff, matching_iff]
  rcases eq_or_ne x a with rfl | hne
  · rw [Function.update_self, hd]
  · rw [Function.update_of_ne hne]

/-- Two tables with the same lists and data store the same. -/
theorem Formed.sameStored (hw : Formed f enMoudleId w h bs) (hw₁ : Formed f enMoudleId w₁ h₁ bs)
    (hw₂ : Formed f enMoudleId w₂ h₂ bs) (hdata : h₁.pData = h₂.pData)
    (htotal : h₁.uiTotal = h₂.uiTotal) (hsums : h₁.ulDataNodeSum = h₂.ulDataNodeSum)
    (hlive : h₁.live = h.live)
    (hothers : ∀ a ∈ h.live, f.storedKey (h.pData a) ≠ key → h₁.pData a = h.pData a) :
    SameStored f enMoudleId key w w₁ w₂ := by
  refine ⟨⟨h₁, bs, h₂, bs, hw₁.head, hw₁.chains, hw₂.head, hw₂.chains, htotal, hsums⟩, ?_, ?_⟩
  · intro k
    cases hscan : scan (f.matching k h₁.pData) none (bs (f.bucket k)) with
    | hit a =>
        have hscan₂ := hscan
        rw [hdata] at hscan₂
        refine ⟨_, hw₁.find_hit hscan, ?_⟩
        rw [hw₂.find_hit hscan₂, hdata]
    | miss last =>
        have hscan₂ := hscan
        rw [hdata] at hscan₂
        exact ⟨_, hw₁.find_miss hscan, hw₂.find_miss hscan₂⟩
  · intro g g₁ hg hg₁ a ha hne
    rw [hw.head] at hg
    rw [hw₁.head] at hg₁
    cases hg
    cases hg₁
    exact ⟨hlive ▸ ha, hothers a ha hne⟩

/-- A node whose data have been replaced under the old key, with the mutex
given back. -/
theorem Formed.rewritten (hw : Formed f enMoudleId w h bs) (d : D) (events : List Event) :
    Formed f enMoudleId (w.withHead enMoudleId (VHashHead.released
      {h with pData := Function.update h.pData a d} events))
      (VHashHead.released {h with pData := Function.update h.pData a d} events) bs :=
  hw.withHead rfl rfl ((hw.chains.rewritten _).released events)

variable [Zero D]

/-- A key whose bucket is empty, or holds other keys only, is not stored as
`VHash_Add_Node2` stores it. -/
theorem present_of_storesAlike (hw : Formed f enMoudleId w h bs) (hkey : f.newKey data = key)
    {ppNodeData : Option NodePtr} {want : Nat}
    (halike : StoresAlike f enMoudleId w key data ppNodeData want) :
    ∃ a, scan (f.matching key h.pData) none (bs (f.bucket key)) = .hit a := by
  obtain ⟨ret, w₁, ret₂, _, w₂, hadd, hadd₂, hret, hsame⟩ := halike
  have hl := hw.chains.toLists
  cases hscan : scan (f.matching key h.pData) none (bs (f.bucket key)) with
  | hit a => exact ⟨a, rfl⟩
  | miss last =>
      exfalso
      cases last with
      | none =>
          obtain ⟨h', hrun, _⟩ := addNode2_inserted hw.chains (.of_eq hw.moudle) hw.free data
            ppNodeData want hscan (f.cpy_ok _ _)
          have hnothing := addNode_empty hl (.of_eq hw.moudle) hw.free data hscan
          rw [vhashAddNode, hw.call _ hnothing] at hadd
          rw [vhashAddNode2, hw.call _ hrun] at hadd₂
          cases hadd
          cases hadd₂
          revert hret
          decide
      | some a =>
          obtain ⟨h', hrun, _, _, hdata⟩ :=
            addNode_overwrites hl (.of_eq hw.moudle) hw.free data hscan
          rw [vhashAddNode, hw.call _ hrun] at hadd
          cases hadd
          obtain ⟨hlast, hnone⟩ := scan_miss hscan
          have ha : a ∈ bs (f.bucket key) := by
            rw [Option.or_none] at hlast
            exact List.mem_of_getLast? hlast.symm
          have hother : f.storedKey (h.pData a) ≠ key := by
            intro heq
            have hmatch := hnone a ha
            rw [matching_iff.mpr heq] at hmatch
            cases hmatch
          have hkept := (hsame.others h h' hw.head (withHead_head w h') a
            (hl.live_of_mem ha) hother).2
          rw [hdata, Function.update_self] at hkept
          apply hother
          rw [← hkept, f.cpy_key, hkey]

/-- Equal outcomes of an update mean that `clean` made no difference. -/
theorem copies_of_storesAlike (hw : Formed f enMoudleId w h bs) (hkey : f.newKey data = key)
    {ppNodeData : Option NodePtr} {want : Nat}
    (hscan : scan (f.matching key h.pData) none (bs (f.bucket key)) = .hit a)
    (hupdate : f.isUpdate (h.pData a) data = vhashOk)
    (halike : StoresAlike f enMoudleId w key data ppNodeData want) :
    (f.cpy (h.pData a) data f.uiDataLen).2 =
      (f.cpy (cleaned f.moudle (h.pData a)) data f.uiDataLen).2 := by
  obtain ⟨ret, w₁, ret₂, _, w₂, hadd, hadd₂, _, hsame⟩ := halike
  have hl := hw.chains.toLists
  have hold : f.storedKey (h.pData a) = key := matching_iff.mp (scan_hit hscan).1
  rw [vhashAddNode, hw.call _ (addNode_updated hl (.of_eq hw.moudle) hw.free data hscan
    hupdate)] at hadd
  rw [vhashAddNode2, hw.call _ (addNode2_updated hl (.of_eq hw.moudle) hw.free data ppNodeData
    (some want) hscan hupdate (f.cpy_ok _ _))] at hadd₂
  cases hadd
  cases hadd₂
  have hfound (d : D) (events : List Event) (hd : f.storedKey d = key) :
      find enMoudleId (w.withHead enMoudleId (VHashHead.released
        {h with pData := Function.update h.pData a d} events)) key = .ok (some d) := by
    rw [(hw.rewritten d events).find_iff]
    refine ⟨a, ?_, Function.update_self _ _ _⟩
    rw [released_pData, matching_update (hd.trans hold.symm)]
    exact hscan
  obtain ⟨found, hfound₁, hfound₂⟩ := hsame.contents key
  rw [hfound _ _ ((f.cpy_key _ _).trans hkey)] at hfound₁ hfound₂
  rw [← hfound₂] at hfound₁
  exact Option.some.inj (Except.ok.inj hfound₁)

theorem storesAlike_of_update (hw : Formed f enMoudleId w h bs) (ppNodeData : Option NodePtr)
    (want : Nat) (hscan : scan (f.matching key h.pData) none (bs (f.bucket key)) = .hit a)
    (hupdate : f.isUpdate (h.pData a) data = vhashOk)
    (hcopies : (f.cpy (h.pData a) data f.uiDataLen).2 =
      (f.cpy (cleaned f.moudle (h.pData a)) data f.uiDataLen).2) :
    StoresAlike f enMoudleId w key data ppNodeData want := by
  have hl := hw.chains.toLists
  have hold : f.storedKey (h.pData a) = key := matching_iff.mp (scan_hit hscan).1
  refine ⟨vhashOk, _, vhashUpdateOk, _, _,
    hw.call _ (addNode_updated hl (.of_eq hw.moudle) hw.free data hscan hupdate),
    hw.call _ (addNode2_updated hl (.of_eq hw.moudle) hw.free data ppNodeData (some want) hscan
      hupdate (f.cpy_ok _ _)), Or.inr ⟨rfl, rfl⟩, ?_⟩
  refine hw.sameStored (hw.rewritten _ _) (hw.rewritten _ _) ?_ rfl rfl rfl ?_
  · rw [released_pData, released_pData, hcopies]
  · intro x _ hne
    have hxa : x ≠ a := by
      rintro rfl
      exact hne hold
    exact Function.update_of_ne hxa _ _

theorem storesAlike_of_refusal (hw : Formed f enMoudleId w h bs) (ppNodeData : Option NodePtr)
    (want : Nat) (hscan : scan (f.matching key h.pData) none (bs (f.bucket key)) = .hit a)
    (hrefused : f.isUpdate (h.pData a) data ≠ vhashOk) :
    StoresAlike f enMoudleId w key data ppNodeData want := by
  have hl := hw.chains.toLists
  have hsame : Formed f enMoudleId (w.withHead enMoudleId (h.released [])) (h.released []) bs :=
    hw.withHead rfl rfl (hw.chains.released [])
  refine ⟨vhashExist, _, vhashExist, _, _,
    hw.call _ (addNode_refused hl (.of_eq hw.moudle) hw.free data hscan hrefused),
    hw.call _ (addNode2_refused hl (.of_eq hw.moudle) hw.free data ppNodeData (some want) hscan
      hrefused), Or.inl rfl, ?_⟩
  exact hw.sameStored hsame hsame rfl rfl rfl rfl (fun _ _ _ => rfl)

/-- For every module with callbacks as intended, every table that
`VHash_Add_Node2` and `VHash_Del_Node` can lead to, and every key and data with
that key: `VHash_Add_Node` stores as `VHash_Add_Node2` does exactly when the key
is in the table already, and the update is refused or does not depend on
`clean` having been called first. -/
theorem storesAlike_iff (hreach : Reachable f enMoudleId w) (hkey : f.newKey data = key)
    (ppNodeData : Option NodePtr) (want : Nat) :
    StoresAlike f enMoudleId w key data ppNodeData want ↔
      ∃ d, find enMoudleId w key = .ok (some d) ∧
        (f.isUpdate d data ≠ vhashOk ∨
          (f.cpy d data f.uiDataLen).2 =
            (f.cpy (cleaned f.moudle d) data f.uiDataLen).2) := by
  obtain ⟨h, bs, hw⟩ := hreach.formed
  constructor
  · intro halike
    obtain ⟨a, hscan⟩ := present_of_storesAlike hw hkey halike
    refine ⟨h.pData a, hw.find_hit hscan, ?_⟩
    by_cases hupdate : f.isUpdate (h.pData a) data = vhashOk
    · exact Or.inr (copies_of_storesAlike hw hkey hscan hupdate halike)
    · exact Or.inl hupdate
  · rintro ⟨d, hd, hcopies⟩
    obtain ⟨a, hscan, rfl⟩ := hw.find_iff.mp hd
    by_cases hupdate : f.isUpdate (h.pData a) data = vhashOk
    · exact storesAlike_of_update hw ppNodeData want hscan hupdate
        (hcopies.resolve_left (fun hrefused => hrefused hupdate))
    · exact storesAlike_of_refusal hw ppNodeData want hscan hupdate

/-- A new table with one node. -/
theorem reachable_single (f : KeyedMoudle K N D) (key : K) (data : N) :
    ∃ w h bs a, Reachable f enPort w ∧ Formed f enPort w h bs ∧
      bs (f.bucket key) = [a] ∧ h.pData a = (f.cpy 0 data f.uiDataLen).2 := by
  have hnone : (vhashInit enVHashMoudleMax : VHashWorld K N D).astVHashHead enPort.toNat = none :=
    rfl
  obtain ⟨w₀, w₁, h, bs, a, hcreate, hadd, hknown, hhead, hmoudle, hfree, hchains, hbs, hdata⟩ :=
    vhashAddNode2_first enPort_known hnone f.toFullMoudle key data (f.cpy_ok _ _)
  exact ⟨w₁, h, bs, a, (Reachable.created enPort_known hcreate).added hadd,
    ⟨hknown, hhead, hmoudle, hfree, hchains⟩, hbs, hdata⟩

end Comparison

section Port

/-- The connection table's callbacks are as `KeyedMoudle` wants them. -/
def portKeyed : KeyedMoudle PortItem PortItem PortVHashItem where
  toFullMoudle := portFull
  storedKey := PortVHashItem.stPortItem
  newKey := id
  compare_iff := portVHashCompare_ok_iff
  clean_ok := ⟨portVHashClean, rfl, fun _ => rfl⟩
  cpy_ok := fun _ _ => rfl
  cpy_key := fun _ _ => rfl

/-- The key of a connection and the key of the other direction, which has the
same hash. -/
def thereKey : PortItem := ⟨6379, 40000, 0x0a0a0066, 0x0a0a0067⟩

def backKey : PortItem := ⟨40000, 6379, 0x0a0a0067, 0x0a0a0066⟩

theorem storesAlike_iff_port :
    ∃ w, Reachable portKeyed enPort w ∧
      StoresAlike portKeyed enPort w thereKey thereKey none 0 := by
  obtain ⟨w, h, bs, a, hreach, hw, hbs, hdata⟩ := reachable_single portKeyed thereKey thereKey
  have hkey : portKeyed.newKey thereKey = thereKey := rfl
  have hmatch : portKeyed.matching thereKey h.pData a = true := by
    rw [matching_iff, hdata]
    rfl
  have hscan : scan (portKeyed.matching thereKey h.pData) none
      (bs (portKeyed.bucket thereKey)) = .hit a := by
    rw [hbs]
    simp [scan, hmatch]
  exact ⟨w, hreach,
    (storesAlike_iff hreach hkey none 0).mpr ⟨h.pData a, hw.find_hit hscan, Or.inr rfl⟩⟩

/-- The item of the other direction is overwritten. -/
theorem storesAlike_collision :
    ∃ w, Reachable portKeyed enPort w ∧
      ¬ StoresAlike portKeyed enPort w backKey backKey none 0 := by
  obtain ⟨w, h, bs, a, hreach, hw, hbs, hdata⟩ := reachable_single portKeyed thereKey thereKey
  refine ⟨w, hreach, ?_⟩
  intro halike
  have hkey : portKeyed.newKey backKey = backKey := rfl
  obtain ⟨x, hscan⟩ := present_of_storesAlike hw hkey halike
  have hbucket : portKeyed.bucket backKey = portKeyed.bucket thereKey := by decide
  have hother : portKeyed.matching backKey h.pData a = false := by
    rw [Bool.eq_false_iff, ne_eq, matching_iff, hdata]
    decide
  rw [hbucket, hbs] at hscan
  simp [scan, hother] at hscan

end Port

end RedisTrace
