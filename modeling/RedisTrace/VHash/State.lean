import Mathlib.Data.Finset.Lattice.Fold
import Mathlib.Order.Lattice.Nat
import RedisTrace.Library.Run
import RedisTrace.List

/-!
The state of one hash module of `vhash.c` and the primitive steps its
functions are made of. A step that C leaves undefined, or that would never
return, ends the run with a `Fault`: following a link into memory that holds
no list entry, using a node after `free`, calling a NULL callback, taking the
mutex twice, walking a list that never comes back to its head. Touching a list
or a node while the mutex is free is reported in the same way.
-/

namespace RedisTrace

open CircularList

abbrev vhashOk : UInt32 := 0
abbrev vhashErr : UInt32 := 1
abbrev vhashNotInnif : UInt32 := 2
abbrev vhashNotFound : UInt32 := 3
abbrev vhashExist : UInt32 := 4
abbrev vhashInterfaceErr : UInt32 := 5
abbrev vhashUpdateOk : UInt32 := 6
abbrev vhashEnumEnd : UInt32 := 7

inductive Fault where
  | badAddress
  | nullCallback
  | deadlock
  | unlocked
  | endless
  | overflow
  deriving DecidableEq, Repr

/-- Addresses of list entries: NULL, the `ListHead` of a bucket, the head of
`FreeQueue`, or the `listentry` of an allocated node. -/
inductive Ptr where
  | null
  | listHead (bucket : Nat)
  | freeQueue
  | node (addr : Nat)
  deriving DecidableEq, Repr

/-- A `void *` to the `pData` of a node, NULL being `none`. -/
abbrev NodePtr := Option Nat

/-- What the mutex, the allocator and the callbacks see, in order. -/
inductive Event where
  | lock
  | unlock
  | malloc (addr : Nat)
  | free (addr : Nat)
  | clean (addr : Nat)
  | cpy (addr : Nat)
  deriving DecidableEq, Repr

/-- The `VHASH_MOUDLE` registered for keys `K`, new data `N` and stored data
`D`. A NULL function pointer is `none`. `clean` and `cpy` return their code
together with what they leave in the data they were given. -/
structure VHashMoudle (K N D : Type) where
  uiBucketCount : UInt32
  uiDataLen : UInt32
  pfnVHashCalc : Option (K → UInt32)
  pfnVHashCompare : Option (K → D → UInt32)
  pfnVHashIsUpdate : Option (D → N → UInt32)
  pfnVHashClean : Option (D → UInt32 × D)
  pfnVHashCpy : Option (D → N → UInt32 → UInt32 × D)

/-- The `VHASHHEAD` of a module with its buckets and its nodes. `live` are the
addresses of nodes that are allocated and not yet freed, `locked` is the state
of the mutex. -/
structure VHashHead (K N D : Type) where
  moudle : VHashMoudle K N D
  uiTotal : UInt32
  ulListLen : UInt64
  locked : Bool
  ulDataNodeSum : Nat → UInt32
  mem : Mem Ptr
  pData : Nat → D
  live : Finset Nat
  log : List Event

abbrev VHashM (K N D : Type) := StateT (VHashHead K N D) (Except Fault)

variable {K N D : Type}

def fault {α : Type} (f : Fault) : VHashM K N D α := fun _ => .error f

def spinLockLock : VHashM K N D Unit := fun h =>
  if h.locked then .error .deadlock
  else .ok ((), {h with locked := true, log := h.log ++ [.lock]})

def spinLockUnlock : VHashM K N D Unit := fun h =>
  .ok ((), {h with locked := false, log := h.log ++ [.unlock]})

/-- A function of `list.c` applied to the module's own entries. -/
def onList {α : Type} (f : ListM Ptr α) : VHashM K N D α := fun h =>
  if h.locked then
    match f.run h.mem with
    | none => .error .badAddress
    | some (a, m) => .ok (a, {h with mem := m})
  else .error .unlocked

/-- Calling through a function pointer. -/
def callback {α : Type} (f : Option α) : VHashM K N D α :=
  match f with
  | none => fault .nullCallback
  | some f => pure f

/-- `malloc` never hands out an address that is in use, so a proposed address
that is in use stands for some other one. -/
def unused (live : Finset Nat) (a : Nat) : Nat :=
  if a ∈ live then live.sup id + 1 else a

/-- `CONTAINING_RECORD(entry,DATANODE,listentry)` is arithmetic on an address
and never fails: an entry that is not a node's leads to an address where no
node is. -/
def containingRecord : Ptr → VHashM K N D Nat
  | .node a => pure a
  | _ => fun h => .ok (unused h.live 0, h)

def readData (a : Nat) : VHashM K N D D := fun h =>
  if h.locked then
    if a ∈ h.live then .ok (h.pData a, h) else .error .badAddress
  else .error .unlocked

def writeData (a : Nat) (d : D) : VHashM K N D Unit := fun h =>
  if h.locked then
    if a ∈ h.live then .ok ((), {h with pData := Function.update h.pData a d})
    else .error .badAddress
  else .error .unlocked

def record (e : Event) : VHashM K N D Unit := fun h =>
  .ok ((), {h with log := h.log ++ [e]})

/-- `malloc` of a node: `none` is a failed call, `some a` the address the
allocator comes up with. The new entry holds no meaningful links. -/
def mallocNode (want : Option Nat) : VHashM K N D NodePtr := fun h =>
  match want with
  | none => .ok (none, h)
  | some w =>
      let a := unused h.live w
      .ok (some a, {h with
        mem := Function.update h.mem (.node a) (some ⟨.null, .null⟩)
        live := insert a h.live
        log := h.log ++ [.malloc a]})

def freeNode (a : Nat) : VHashM K N D Unit := fun h =>
  if h.locked then
    if a ∈ h.live then
      .ok ((), {h with
        mem := Function.update h.mem (.node a) none
        live := h.live.erase a
        log := h.log ++ [.free a]})
    else .error .badAddress
  else .error .unlocked

/-- `if(NULL != pfnVHash_clean) pfnVHash_clean(pstDateNode->pData)`. -/
def cleanData (a : Nat) : VHashM K N D Unit := do
  let h ← get
  match h.moudle.pfnVHashClean with
  | none => return ()
  | some clean =>
      let d ← readData a
      writeData a (clean d).2
      record (.clean a)

/-- `pfnVHash_cpy(pstDateNode->pData,pData,pstVHashHead->uiDataLen)`. -/
def cpyData (a : Nat) (pData : N) : VHashM K N D UInt32 := do
  let h ← get
  let cpy ← callback h.moudle.pfnVHashCpy
  let d ← readData a
  writeData a (cpy d pData h.moudle.uiDataLen).2
  record (.cpy a)
  return (cpy d pData h.moudle.uiDataLen).1

/-- `pstVHashBucket->ulDataNodeSum++`, or `--`. -/
def countBucket (bucket : Nat) (change : UInt32 → UInt32) : VHashM K N D Unit := fun h =>
  if h.locked then
    .ok ((), {h with
      ulDataNodeSum :=
        Function.update h.ulDataNodeSum bucket (change (h.ulDataNodeSum bucket))})
  else .error .unlocked

/-- `pstVHashHead->uiTotal++`, or `--`. -/
def countTotal (change : UInt32 → UInt32) : VHashM K N D Unit := fun h =>
  .ok ((), {h with uiTotal := change h.uiTotal})

section Runs

variable {h : VHashHead K N D}

theorem spinLockLock_run (hfree : h.locked = false) :
    spinLockLock.run h =
      .ok ((), {h with locked := true, log := h.log ++ [.lock]}) := by
  simp [spinLockLock, StateT.run, hfree]

theorem spinLockLock_deadlock (hlocked : h.locked = true) :
    spinLockLock.run h = .error .deadlock := by
  simp [spinLockLock, StateT.run, hlocked]

theorem spinLockUnlock_run :
    spinLockUnlock.run h =
      .ok ((), {h with locked := false, log := h.log ++ [.unlock]}) := rfl

theorem onList_run {α : Type} {f : ListM Ptr α} {a : α} {m : Mem Ptr}
    (hlocked : h.locked = true) (hrun : f.run h.mem = some (a, m)) :
    (onList f).run h = .ok (a, {h with mem := m}) := by
  unfold onList StateT.run at *
  simp [hlocked, hrun]

/-- In the middle of a call: from any state that has the mutex and that memory. -/
theorem onList_at {α : Type} {f : ListM Ptr α} {a : α} {m m' : Mem Ptr}
    (hrun : f.run m = some (a, m')) (st : VHashHead K N D) (hlocked : st.locked = true)
    (hmem : st.mem = m) : (onList f).run st = .ok (a, {st with mem := m'}) :=
  onList_run hlocked (hmem ▸ hrun)

theorem onList_fault {α : Type} {f : ListM Ptr α} (hlocked : h.locked = true)
    (hrun : f.run h.mem = none) : (onList f).run h = .error .badAddress := by
  unfold onList StateT.run at *
  simp [hlocked, hrun]

theorem callback_run {α : Type} (f : α) :
    (callback (some f)).run h = .ok (f, h) := rfl

theorem callback_null {α : Type} :
    (callback (none : Option α)).run h = .error .nullCallback := rfl

theorem containingRecord_run (a : Nat) :
    (containingRecord (.node a)).run h = .ok (a, h) := rfl

theorem readData_run {a : Nat} (hlocked : h.locked = true) (hlive : a ∈ h.live) :
    (readData a).run h = .ok (h.pData a, h) := by
  simp [readData, StateT.run, hlocked, hlive]

theorem writeData_run {a : Nat} (d : D) (hlocked : h.locked = true)
    (hlive : a ∈ h.live) :
    (writeData a d).run h =
      .ok ((), {h with pData := Function.update h.pData a d}) := by
  simp [writeData, StateT.run, hlocked, hlive]

theorem record_run (e : Event) :
    (record e).run h = .ok ((), {h with log := h.log ++ [e]}) := rfl

theorem mallocNode_none_run : (mallocNode none).run h = .ok (none, h) := rfl

theorem mallocNode_some_run (want : Nat) :
    (mallocNode (some want)).run h = .ok (some (unused h.live want), {h with
      mem := Function.update h.mem (.node (unused h.live want)) (some ⟨.null, .null⟩)
      live := insert (unused h.live want) h.live
      log := h.log ++ [.malloc (unused h.live want)]}) := rfl

theorem freeNode_run {a : Nat} (hlocked : h.locked = true) (hlive : a ∈ h.live) :
    (freeNode a).run h = .ok ((), {h with
      mem := Function.update h.mem (.node a) none
      live := h.live.erase a
      log := h.log ++ [.free a]}) := by
  simp [freeNode, StateT.run, hlocked, hlive]

theorem countBucket_run (bucket : Nat) (change : UInt32 → UInt32)
    (hlocked : h.locked = true) :
    (countBucket bucket change).run h = .ok ((), {h with
      ulDataNodeSum :=
        Function.update h.ulDataNodeSum bucket (change (h.ulDataNodeSum bucket))}) := by
  simp [countBucket, StateT.run, hlocked]

theorem countTotal_run (change : UInt32 → UInt32) :
    (countTotal change).run h = .ok ((), {h with uiTotal := change h.uiTotal}) := rfl

/-- What `clean` leaves in a value; no callback leaves it alone. -/
def cleaned (m : VHashMoudle K N D) (d : D) : D :=
  match m.pfnVHashClean with
  | none => d
  | some clean => (clean d).2

/-- The trace of one call of `cleanData`. -/
def cleanEvents (m : VHashMoudle K N D) (a : Nat) : List Event :=
  if m.pfnVHashClean.isSome then [.clean a] else []

theorem cleanData_run {a : Nat} (hlocked : h.locked = true) (hlive : a ∈ h.live) :
    (cleanData a).run h = .ok ((), {h with
      pData := Function.update h.pData a (cleaned h.moudle (h.pData a))
      log := h.log ++ cleanEvents h.moudle a}) := by
  cases hclean : h.moudle.pfnVHashClean with
  | none => simp [cleanData, cleaned, cleanEvents, hclean]
  | some clean =>
      simp [cleanData, cleaned, cleanEvents, hclean, readData_run hlocked hlive,
        writeData_run _ hlocked hlive, record_run]

theorem cpyData_run {a : Nat} (cpy : D → N → UInt32 → UInt32 × D) (pData : N)
    (hlocked : h.locked = true) (hlive : a ∈ h.live)
    (hcpy : h.moudle.pfnVHashCpy = some cpy) :
    (cpyData a pData).run h =
      .ok ((cpy (h.pData a) pData h.moudle.uiDataLen).1, {h with
        pData := Function.update h.pData a
          (cpy (h.pData a) pData h.moudle.uiDataLen).2
        log := h.log ++ [.cpy a]}) := by
  simp [cpyData, hcpy, callback_run, readData_run hlocked hlive,
    writeData_run _ hlocked hlive, record_run]

end Runs

section Ends

variable {h h' : VHashHead K N D}

theorem callback_ok {α : Type} {g : Option α} {f : α}
    (hrun : (callback g).run h = .ok (f, h')) : g = some f ∧ h' = h := by
  cases g with
  | none => cases hrun
  | some g =>
      cases hrun
      exact ⟨rfl, rfl⟩

theorem containingRecord_ok {p : Ptr} {a : Nat}
    (hrun : (containingRecord p).run h = .ok (a, h')) : h' = h := by
  cases p <;> cases hrun <;> rfl

/-- Whatever is made of the entry, no other node comes of it. -/
theorem containingRecord_any (p : Ptr) :
    ∃ a, (containingRecord p).run h = .ok (a, h) := by
  cases p <;> exact ⟨_, rfl⟩

theorem readData_ok {a : Nat} {d : D} (hrun : (readData a).run h = .ok (d, h')) :
    a ∈ h.live ∧ d = h.pData a ∧ h' = h := by
  simp only [readData, StateT.run] at hrun
  split at hrun
  · split at hrun
    · next hlive =>
        cases hrun
        exact ⟨hlive, rfl, rfl⟩
    · cases hrun
  · cases hrun

/-- Following a link changes nothing. -/
theorem flink_ok {p q : Ptr} (hrun : (onList (flink p)).run h = .ok (q, h')) : h' = h := by
  simp only [onList, StateT.run] at hrun
  split at hrun
  · cases hentry : h.mem p with
    | none => simp [flink, hentry] at hrun
    | some e =>
        simp only [flink, hentry, Option.map_some, Except.ok.injEq, Prod.mk.injEq] at hrun
        exact hrun.2.symm
  · cases hrun

end Ends

theorem unused_not_mem (live : Finset Nat) (a : Nat) : unused live a ∉ live := by
  unfold unused
  split
  · intro hmem
    have hle : live.sup id + 1 ≤ live.sup id := Finset.le_sup (f := id) hmem
    omega
  · assumption

end RedisTrace
