import RedisTrace.VHash.State

/-!
The functions of `vhash.c`. Those of one module run on its `VHashHead`; the
exported ones first check the module number and their pointer arguments. An
out-parameter is passed in and returned: `none` is a NULL pointer, `some v` a
pointer to a variable that holds `v`.
-/

namespace RedisTrace

open CircularList

variable {K N D : Type}

/-- What the collision walk over one bucket comes to: the first node that
compares equal, or, when none does, the last node it looked at. -/
inductive Walk where
  | hit (addr : Nat)
  | miss (last : Option Nat)
  deriving DecidableEq, Repr

/-- `for(entry = pListHead->Flink; entry != pListHead; entry = entry->Flink)`
with the call of `pfnVHash_Compare`. A walk that has not come back after as
many steps as there are nodes never will. -/
def walk (pKey : K) (pListHead : Ptr) : Nat → Ptr → Option Nat → VHashM K N D Walk
  | 0, _, _ => fault .endless
  | fuel + 1, entry, last => do
      if entry = pListHead then
        return .miss last
      else
        let pstDateNode ← containingRecord entry
        let h ← get
        let compare ← callback h.moudle.pfnVHashCompare
        let data ← readData pstDateNode
        if compare pKey data = vhashOk then
          return .hit pstDateNode
        else
          let entry' ← onList (flink entry)
          walk pKey pListHead fuel entry' (some pstDateNode)

/-- The bucket of a key and the walk over its collision list. -/
def lookup (pKey : K) : VHashM K N D (Nat × Walk) := do
  let h ← get
  let hash ← callback h.moudle.pfnVHashCalc
  let ulHash := (hash pKey).toNat
  let entry ← onList (flink (.listHead ulHash))
  let found ← walk pKey (.listHead ulHash) (h.live.card + 1) entry none
  return (ulHash, found)

def getNode (pKey : K) (ppData : Option NodePtr) :
    VHashM K N D (UInt32 × Option NodePtr) := do
  spinLockLock
  let (_, found) ← lookup pKey
  match found with
  | .hit pstDateNode =>
      spinLockUnlock
      return (vhashOk, ppData.map (fun _ => some pstDateNode))
  | .miss _ =>
      spinLockUnlock
      return (vhashNotFound, ppData)

/-- The callbacks `VHash_Add_Node` and `VHash_Add_Node2` insist on. -/
def addCallbacks (m : VHashMoudle K N D) : Bool :=
  m.pfnVHashCalc.isSome && m.pfnVHashCompare.isSome &&
    m.pfnVHashIsUpdate.isSome && m.pfnVHashCpy.isSome

def addNode [Zero D] (pKey : K) (pData : N) : VHashM K N D UInt32 := do
  let h ← get
  if addCallbacks h.moudle then
    spinLockLock
    let (ulHash, found) ← lookup pKey
    match found with
    | .hit pstDateNode =>
        let isUpdate ← callback h.moudle.pfnVHashIsUpdate
        let data ← readData pstDateNode
        if isUpdate data pData = vhashOk then
          let _ ← cpyData pstDateNode pData
          spinLockUnlock
          return vhashOk
        else
          spinLockUnlock
          return vhashExist
    | .miss none =>
        spinLockUnlock
        return vhashNotInnif
    | .miss (some pstDateNode) =>
        writeData pstDateNode 0
        let _ ← cpyData pstDateNode pData
        onList (insertTailList (.listHead ulHash) (.node pstDateNode))
        countBucket ulHash (· + 1)
        countTotal (· + 1)
        spinLockUnlock
        return vhashOk
  else
    return vhashInterfaceErr

/-- `want` is what `malloc` would answer, should it be called. -/
def addNode2 [Zero D] (pKey : K) (pData : N) (ppNodeData : Option NodePtr)
    (want : Option Nat) : VHashM K N D (UInt32 × Option NodePtr) := do
  let h ← get
  if addCallbacks h.moudle then
    spinLockLock
    let (ulHash, found) ← lookup pKey
    match found with
    | .hit pstDateNode =>
        let isUpdate ← callback h.moudle.pfnVHashIsUpdate
        let data ← readData pstDateNode
        if isUpdate data pData = vhashOk then
          cleanData pstDateNode
          let ulRet ← cpyData pstDateNode pData
          if ulRet = vhashOk then
            spinLockUnlock
            return (vhashUpdateOk, ppNodeData.map (fun _ => some pstDateNode))
          else
            cleanData pstDateNode
            spinLockUnlock
            return (ulRet, ppNodeData)
        else
          spinLockUnlock
          return (vhashExist, ppNodeData)
    | .miss _ =>
        match ← mallocNode want with
        | none =>
            spinLockUnlock
            return (vhashNotInnif, ppNodeData)
        | some pstDateNode =>
            writeData pstDateNode 0
            let ulRet ← cpyData pstDateNode pData
            if ulRet = vhashOk then
              onList (insertTailList (.listHead ulHash) (.node pstDateNode))
              countBucket ulHash (· + 1)
              countTotal (· + 1)
              spinLockUnlock
              return (vhashOk, ppNodeData.map (fun _ => some pstDateNode))
            else
              cleanData pstDateNode
              freeNode pstDateNode
              spinLockUnlock
              return (ulRet, ppNodeData)
  else
    return (vhashInterfaceErr, ppNodeData)

/-- The rounds of `for(; i < pstVHashHead->uiBucketCount; i++)`: the first node
of the first bucket that has one. -/
def firstNode : Nat → Nat → VHashM K N D (Option Nat)
  | 0, _ => return none
  | rounds + 1, i => do
      let entry ← onList (flink (.listHead i))
      if entry = .listHead i then
        firstNode rounds (i + 1)
      else
        let pstDateNode ← containingRecord entry
        return some pstDateNode

/-- The second half of `VHash_Get_NextNode`, from bucket `i` on. Where it finds
no node it leaves `*ppNodeData` alone, and the answer is the same. -/
def nextBucket (i : UInt32) (ppNodeData : Option NodePtr) :
    VHashM K N D (UInt32 × Option NodePtr) := do
  let h ← get
  let found ← firstNode (h.moudle.uiBucketCount.toNat - i.toNat) i.toNat
  spinLockUnlock
  match found with
  | some pstDateNode => return (vhashOk, ppNodeData.map (fun _ => some pstDateNode))
  | none => return (vhashOk, ppNodeData)

def getNextNode (pKey : Option K) (pData : NodePtr) (ppNodeData : Option NodePtr) :
    VHashM K N D (UInt32 × Option NodePtr) := do
  let h ← get
  match h.moudle.pfnVHashCalc with
  | none => return (vhashInterfaceErr, ppNodeData)
  | some hash =>
      match pKey, pData with
      | some _, none => return (vhashErr, ppNodeData)
      | some key, some a =>
          spinLockLock
          let i := hash key
          let entry ← onList (flink (.node a))
          if entry ≠ .listHead i.toNat then
            let pstDateNode ← containingRecord entry
            -- without a place for the answer the search goes on with bucket `i`
            if ppNodeData.isSome then
              spinLockUnlock
              return (vhashOk, ppNodeData.map (fun _ => some pstDateNode))
            else
              nextBucket i ppNodeData
          else
            nextBucket (i + 1) ppNodeData
      | none, _ =>
          spinLockLock
          nextBucket 0 ppNodeData

def delNode (pKey : K) : VHashM K N D UInt32 := do
  let h ← get
  if h.moudle.pfnVHashCalc.isSome && h.moudle.pfnVHashCompare.isSome then
    spinLockLock
    let (ulHash, found) ← lookup pKey
    match found with
    | .hit pstDateNode =>
        let _ ← onList (removeEntryList (.node pstDateNode))
        cleanData pstDateNode
        freeNode pstDateNode
        countBucket ulHash (· - 1)
        countTotal (· - 1)
        spinLockUnlock
        return vhashOk
    | .miss _ =>
        spinLockUnlock
        return vhashNotFound
  else
    return vhashInterfaceErr

/-- `while(!IsListEmpty(pListHead))`: every round frees a live node, so the
number of live nodes bounds the rounds. -/
def cleanList (pListHead : Ptr) : Nat → VHashM K N D Unit
  | 0 => fault .endless
  | fuel + 1 => do
      let isEmpty ← onList (isListEmpty pListHead)
      if isEmpty then
        return ()
      else
        let entry ← onList (removeHeadList pListHead)
        let pstDateNode ← containingRecord entry
        cleanData pstDateNode
        freeNode pstDateNode
        cleanList pListHead fuel

def cleanBucket (i : Nat) : VHashM K N D Unit := do
  let h ← get
  cleanList (.listHead i) (h.live.card + 1)
  modify (fun h => {h with ulDataNodeSum := Function.update h.ulDataNodeSum i 0})

def cleanMoudle : VHashM K N D UInt32 := do
  let h ← get
  spinLockLock
  (List.range h.moudle.uiBucketCount.toNat).forM cleanBucket
  modify (fun h => {h with uiTotal := 0})
  spinLockUnlock
  return vhashOk

/-- The part of `VHash_Destory_Moudle` up to the release of the module's own
memory. Here the counter is reset behind the unlocking. -/
def destoryMoudle : VHashM K N D UInt32 := do
  let h ← get
  spinLockLock
  (List.range h.moudle.uiBucketCount.toNat).forM cleanBucket
  spinLockUnlock
  modify (fun h => {h with uiTotal := 0})
  return vhashOk

/-- `VHash_Node_Stat` fills the caller's array, one entry a bucket. -/
def nodeStat : VHashM K N D (UInt32 × Option (List UInt32)) := do
  spinLockLock
  let h ← get
  let puiNodeStat := (List.range h.moudle.uiBucketCount.toNat).map h.ulDataNodeSum
  spinLockUnlock
  return (vhashOk, some puiNodeStat)

/-- `VHash_Node_Total` reads the counter without taking the lock. -/
def nodeTotal : VHashM K N D (UInt32 × Option UInt32) := do
  let h ← get
  return (vhashOk, some h.uiTotal)

/-- `g_uiMaxVhashModules` and `g_astVHashHead`. -/
structure VHashWorld (K N D : Type) where
  uiMaxVhashModules : UInt32
  astVHashHead : Nat → Option (VHashHead K N D)

abbrev VHashW (K N D : Type) := StateT (VHashWorld K N D) (Except Fault)

/-- The part all exported functions share: no such module number, or no module
created under it, gives the error answer and changes nothing. -/
def withMoudle {α : Type} (enMoudleId : UInt32) (error : α) (op : VHashM K N D α) :
    VHashW K N D α := fun w =>
  if w.uiMaxVhashModules ≤ enMoudleId then .ok (error, w)
  else
    match w.astVHashHead enMoudleId.toNat with
    | none => .ok (error, w)
    | some h => do
        let (answer, h') ← op.run h
        .ok (answer, {w with
          astVHashHead := Function.update w.astVHashHead enMoudleId.toNat (some h')})

def vhashGetNode (enMoudleId : UInt32) (pKey : Option K) (ppData : Option NodePtr) :
    VHashW K N D (UInt32 × Option NodePtr) :=
  match pKey, ppData with
  | some key, some _ => withMoudle enMoudleId (vhashErr, ppData) (getNode key ppData)
  | _, _ => pure (vhashErr, ppData)

def vhashAddNode [Zero D] (enMoudleId : UInt32) (pKey : Option K) (pData : Option N) :
    VHashW K N D UInt32 :=
  match pKey, pData with
  | some key, some data => withMoudle enMoudleId vhashErr (addNode key data)
  | _, _ => pure vhashErr

def vhashAddNode2 [Zero D] (enMoudleId : UInt32) (pKey : Option K) (pData : Option N)
    (ppNodeData : Option NodePtr) (want : Option Nat) :
    VHashW K N D (UInt32 × Option NodePtr) :=
  match pKey, pData with
  | some key, some data =>
      withMoudle enMoudleId (vhashErr, ppNodeData) (addNode2 key data ppNodeData want)
  | _, _ => pure (vhashErr, ppNodeData)

def vhashGetNextNode (enMoudleId : UInt32) (pKey : Option K) (pData : NodePtr)
    (ppNodeData : Option NodePtr) : VHashW K N D (UInt32 × Option NodePtr) :=
  withMoudle enMoudleId (vhashErr, ppNodeData) (getNextNode pKey pData ppNodeData)

def vhashDelNode (enMoudleId : UInt32) (pKey : Option K) : VHashW K N D UInt32 :=
  match pKey with
  | some key => withMoudle enMoudleId vhashErr (delNode key)
  | none => pure vhashErr

def vhashCleanMoudle (enMoudleId : UInt32) : VHashW K N D UInt32 :=
  withMoudle enMoudleId vhashErr cleanMoudle

def vhashNodeStat (enMoudleId : UInt32) (puiNodeStat : Option (List UInt32)) :
    VHashW K N D (UInt32 × Option (List UInt32)) :=
  match puiNodeStat with
  | some _ => withMoudle enMoudleId (vhashErr, puiNodeStat) nodeStat
  | none => pure (vhashErr, puiNodeStat)

/-- The module's slot is NULL afterwards, and its memory is released. -/
def vhashDestoryMoudle (enMoudleId : UInt32) : VHashW K N D UInt32 := fun w =>
  if w.uiMaxVhashModules ≤ enMoudleId then .ok (vhashErr, w)
  else
    match w.astVHashHead enMoudleId.toNat with
    | none => .ok (vhashErr, w)
    | some h => do
        let (ret, _) ← destoryMoudle.run h
        .ok (ret, {w with
          astVHashHead := Function.update w.astVHashHead enMoudleId.toNat none})

def vhashNodeTotal (enMoudleId : UInt32) (puiTotal : Option UInt32) :
    VHashW K N D (UInt32 × Option UInt32) :=
  match puiTotal with
  | some _ => withMoudle enMoudleId (vhashErr, puiTotal) nodeTotal
  | none => pure (vhashErr, puiTotal)

/-- `VHash_Lock` hands the mutex of the module to the caller. -/
def vhashLock (enMoudleId : UInt32) : VHashW K N D Unit := withMoudle enMoudleId () spinLockLock

def vhashUnLock (enMoudleId : UInt32) : VHashW K N D Unit :=
  withMoudle enMoudleId () spinLockUnlock

def vhashInit (uiMaxVhashModules : UInt32) : VHashWorld K N D :=
  ⟨uiMaxVhashModules, fun _ => none⟩

/-- The block `VHash_Create_Moudle` allocates: room for the bucket heads and
the zeroed head of `FreeQueue`. -/
def rawBuckets (uiBucketCount : UInt32) : Mem Ptr
  | .listHead b => if b < uiBucketCount.toNat then some ⟨.null, .null⟩ else none
  | .freeQueue => some ⟨.null, .null⟩
  | _ => none

def initBuckets (uiBucketCount : UInt32) : ListM Ptr Unit :=
  (List.range uiBucketCount.toNat).forM (fun i => initializeListHead (.listHead i))

def createHead [Zero D] (m : VHashMoudle K N D) (mem : Mem Ptr) : VHashHead K N D where
  moudle := m
  uiTotal := 0
  ulListLen := 0
  locked := false
  ulDataNodeSum := fun _ => 0
  mem := mem
  pData := fun _ => 0
  live := ∅
  log := []

/-- `mallocOk` tells whether the allocation of the module itself succeeds. -/
def vhashCreateMoudle [Zero D] (enMoudleId : UInt32)
    (pVHashMoudle : Option (VHashMoudle K N D)) (mallocOk : Bool) :
    VHashW K N D UInt32 := fun w =>
  if w.uiMaxVhashModules ≤ enMoudleId then .ok (vhashErr, w)
  else
    match pVHashMoudle with
    | none => .ok (vhashErr, w)
    | some m =>
        match w.astVHashHead enMoudleId.toNat with
        | some _ => .ok (vhashOk, w)
        | none =>
            if mallocOk then
              match (initBuckets m.uiBucketCount).run (rawBuckets m.uiBucketCount) with
              | none => .error .badAddress
              | some (_, mem) => .ok (vhashOk, {w with
                  astVHashHead := Function.update w.astVHashHead enMoudleId.toNat
                    (some (createHead m mem))})
            else .ok (vhashNotInnif, w)

end RedisTrace
