import RedisTrace.VHash.Moudles

/-!
The connection table of `port_vhash.c`: an instance of the hash module whose
keys and new data are 4-tuples and whose stored data are `PORT_VHASH_ITEM`s.
-/

namespace RedisTrace

abbrev portVHashNumHashsize : UInt32 := 0x800

/-- `PORT_VHASH(num)`. -/
def portVHash (num : UInt32) : UInt32 := num &&& (portVHashNumHashsize - 1)

structure PortItem where
  sport : UInt16
  dport : UInt16
  sip : UInt32
  dip : UInt32
  deriving DecidableEq, Repr

/-- `char cmd[32]`. -/
abbrev CmdChars := Vector UInt8 32

structure PortVHashItem where
  sec : UInt32
  uSec : UInt32
  cmd : CmdChars
  stPortItem : PortItem
  deriving DecidableEq, Repr

instance : Zero PortVHashItem :=
  ⟨⟨0, 0, Vector.replicate 32 0, ⟨0, 0, 0, 0⟩⟩⟩

/-- The memory of a `PORT_ITEM` on a little-endian machine: its fields leave no
padding. -/
def PortItem.bytes (item : PortItem) : List UInt8 :=
  [item.sport.toUInt8, (item.sport >>> 8).toUInt8,
    item.dport.toUInt8, (item.dport >>> 8).toUInt8,
    item.sip.toUInt8, (item.sip >>> 8).toUInt8, (item.sip >>> 16).toUInt8,
    (item.sip >>> 24).toUInt8,
    item.dip.toUInt8, (item.dip >>> 8).toUInt8, (item.dip >>> 16).toUInt8,
    (item.dip >>> 24).toUInt8]

def portVHashCalc (pkey : PortItem) : UInt32 :=
  portVHash (pkey.bytes.foldl (fun uinum byte => uinum ^^^ byte.toUInt32) 0)

def portVHashCompare (pkey : PortItem) (pData : PortVHashItem) : UInt32 :=
  if pkey.sip = pData.stPortItem.sip ∧ pkey.dip = pData.stPortItem.dip ∧
      pkey.dport = pData.stPortItem.dport ∧ pkey.sport = pData.stPortItem.sport then
    vhashOk
  else
    vhashErr

def portVHashIsUpdate (_pData : PortVHashItem) (_pNewData : PortItem) : UInt32 := vhashOk

def portVHashClean (pData : PortVHashItem) : UInt32 × PortVHashItem := (vhashOk, pData)

/-- `sizeof(PORT_VHASH_ITEM)`. -/
abbrev sizeofPortVHashItem : UInt32 := 52

def macVHashCopy (pDestData : PortVHashItem) (pSrcData : PortItem) (uiLen : UInt32) :
    UInt32 × PortVHashItem :=
  if uiLen < sizeofPortVHashItem then (vhashErr, pDestData)
  else (vhashOk, {pDestData with stPortItem := pSrcData})

abbrev PortHead := VHashHead PortItem PortItem PortVHashItem

abbrev PortWorld := VHashWorld PortItem PortItem PortVHashItem

abbrev PortW := VHashW PortItem PortItem PortVHashItem

abbrev enPort : UInt32 := 0

abbrev enVHashMoudleMax : UInt32 := 1

theorem enPort_known : enPort < enVHashMoudleMax := by decide

/-- The `VHASH_MOUDLE` that `PORT_VHash_INIT` fills in. -/
def portMoudle : VHashMoudle PortItem PortItem PortVHashItem where
  uiBucketCount := portVHashNumHashsize
  uiDataLen := sizeofPortVHashItem
  pfnVHashCalc := some portVHashCalc
  pfnVHashCompare := some portVHashCompare
  pfnVHashIsUpdate := some portVHashIsUpdate
  pfnVHashClean := some portVHashClean
  pfnVHashCpy := some macVHashCopy

def portVHashInit (mallocOk : Bool) : PortW Unit := do
  let _ ← vhashCreateMoudle enPort (some portMoudle) mallocOk

def portVHashAdd (pstItem : Option PortItem) (ppstVhashItem : Option NodePtr)
    (want : Option Nat) : PortW (UInt32 × Option NodePtr) := do
  let (vhashRet, pstVhashItem) ← vhashAddNode2 enPort pstItem pstItem (some none) want
  if (vhashRet = vhashOk ∨ vhashRet = vhashUpdateOk) ∧ pstVhashItem.join.isSome ∧
      ppstVhashItem.isSome then
    return (vhashRet, pstVhashItem)
  else
    return (vhashRet, ppstVhashItem)

def portVHashUpdate (pstItem : Option PortItem) (ppstVhashItem : Option NodePtr)
    (want : Option Nat) : PortW (UInt32 × Option NodePtr) := do
  let (vhashRet, pstVhashItem) ← vhashAddNode2 enPort pstItem pstItem (some none) want
  if vhashRet = vhashUpdateOk ∧ pstVhashItem.join.isSome ∧ ppstVhashItem.isSome then
    return (vhashRet, pstVhashItem)
  else
    return (vhashRet, ppstVhashItem)

def portVHashDel (pstItem : Option PortItem) : PortW UInt32 :=
  vhashDelNode enPort pstItem

def portVHashFindStruct (pstItem : Option PortItem) (ppstVhashItem : Option NodePtr) :
    PortW (UInt32 × Option NodePtr) :=
  vhashGetNode enPort pstItem ppstVhashItem

def portVHashGetNextNode (pstItem : Option PortItem) (ppstVhashItemPrev : NodePtr)
    (ppstVhashItem : Option NodePtr) : PortW (UInt32 × Option NodePtr) :=
  vhashGetNextNode enPort pstItem ppstVhashItemPrev ppstVhashItem

/-- `PORT_VHash_Clean`. -/
def portVHashCleanAll : PortW Unit := do
  let _ ← vhashCleanMoudle enPort

def portVHashExit : PortW Unit := do
  let _ ← vhashDestoryMoudle enPort

def portVHashLock : PortW Unit := vhashLock enPort

def portVHashUnLock : PortW Unit := vhashUnLock enPort

def portVHashGetCount (puicount : Option UInt32) : PortW (UInt32 × Option UInt32) :=
  vhashNodeTotal enPort puicount

/-- Reading an item through a pointer that a call has handed out; an item that
has been freed since is no longer there. -/
def readItem (a : Nat) : PortW PortVHashItem := fun w =>
  match w.astVHashHead enPort.toNat with
  | none => .error .badAddress
  | some h => if a ∈ h.live then .ok (h.pData a, w) else .error .badAddress

/-- Storing to fields of an item through such a pointer. -/
def writeItem (a : Nat) (change : PortVHashItem → PortVHashItem) : PortW Unit := fun w =>
  match w.astVHashHead enPort.toNat with
  | none => .error .badAddress
  | some h =>
      if a ∈ h.live then
        .ok ((), {w with
          astVHashHead := Function.update w.astVHashHead enPort.toNat
            (some {h with pData := Function.update h.pData a (change (h.pData a))})})
      else .error .badAddress

section Callbacks

theorem portVHash_lt (num : UInt32) : portVHash num < portVHashNumHashsize := by
  have hle : portVHash num ≤ portVHashNumHashsize - 1 := by
    rw [UInt32.le_iff_toNat_le, portVHash, UInt32.toNat_and]
    exact Nat.and_le_right
  exact UInt32.lt_of_le_of_lt hle (by decide)

theorem portVHashCompare_ok_iff (key : PortItem) (item : PortVHashItem) :
    portVHashCompare key item = vhashOk ↔ item.stPortItem = key := by
  unfold portVHashCompare
  cases key
  cases item with
  | mk sec uSec cmd stored =>
      cases stored
      simp only [PortItem.mk.injEq]
      split
      · next h => simp [h.1, h.2.1, h.2.2.1, h.2.2.2]
      · next h =>
          have hcode : vhashErr ≠ vhashOk := by decide
          simp only [hcode, false_iff]
          intro heq
          exact h ⟨heq.2.2.1.symm, heq.2.2.2.symm, heq.2.1.symm, heq.1.symm⟩

/-- The connection table's callbacks as a complete set. -/
def portFull : FullMoudle PortItem PortItem PortVHashItem where
  uiBucketCount := portVHashNumHashsize
  uiDataLen := sizeofPortVHashItem
  hash := portVHashCalc
  compare := portVHashCompare
  isUpdate := portVHashIsUpdate
  clean := some portVHashClean
  cpy := macVHashCopy
  hash_lt := fun _ => portVHash_lt _

end Callbacks

section Buckets

/-- Folding bytes together with `^` never leaves the lowest byte. -/
theorem foldl_xor_lt (bytes : List UInt8) (uinum : UInt32) (hlt : uinum.toNat < 2 ^ 8) :
    (bytes.foldl (fun uinum byte => uinum ^^^ byte.toUInt32) uinum).toNat < 2 ^ 8 := by
  induction bytes generalizing uinum with
  | nil => exact hlt
  | cons byte bytes ih =>
      apply ih
      rw [UInt32.toNat_xor, UInt8.toNat_toUInt32]
      exact Nat.xor_lt_two_pow hlt byte.toNat_lt

theorem portVHashCalc_lt (key : PortItem) : portVHashCalc key < 256 := by
  have hfold := foldl_xor_lt key.bytes 0 (by decide)
  rw [UInt32.lt_iff_toNat_lt, portVHashCalc, portVHash, UInt32.toNat_and]
  exact lt_of_le_of_lt Nat.and_le_left hfold

/-- A key that falls into a given one of the first 256 buckets. -/
def keyOfBucket (b : UInt32) : PortItem := ⟨b.toUInt16, 0, 0, 0⟩

theorem portVHashCalc_keyOfBucket {b : UInt32} (hb : b < 256) :
    portVHashCalc (keyOfBucket b) = b := by
  have hlt : b.toNat < 256 := UInt32.lt_iff_toNat_lt.mp hb
  have hlow : b.toUInt16.toUInt8.toUInt32 = b := by
    apply UInt32.toNat_inj.mp
    simp
    omega
  have hhigh : (b.toUInt16 >>> 8).toUInt8 = 0 := by
    apply UInt8.toNat_inj.mp
    simp [Nat.shiftRight_eq_div_pow]
    omega
  have hfold : (keyOfBucket b).bytes.foldl (fun uinum byte => uinum ^^^ byte.toUInt32) 0 = b := by
    simp only [PortItem.bytes, keyOfBucket, List.foldl_cons, List.foldl_nil, hlow, hhigh]
    simp
  have hones : (portVHashNumHashsize - 1).toNat = 2 ^ 11 - 1 := by decide
  rw [portVHashCalc, portVHash, hfold]
  apply UInt32.toNat_inj.mp
  rw [UInt32.toNat_and, hones]
  exact Nat.and_two_pow_sub_one_of_lt_two_pow (by omega)

/-- A key reaches a bucket exactly when it is one of the first 256: the twelve
bytes are folded into one. -/
theorem portVHashCalc_reaches_iff (b : UInt32) : (∃ key, portVHashCalc key = b) ↔ b < 256 := by
  constructor
  · rintro ⟨key, rfl⟩
    exact portVHashCalc_lt key
  · intro hb
    exact ⟨keyOfBucket b, portVHashCalc_keyOfBucket hb⟩

/-- The table has a bucket 256, and no key falls into it. -/
theorem portVHashCalc_bucket_unused :
    ¬ ∀ b < portVHashNumHashsize, ∃ key, portVHashCalc key = b := by
  intro hall
  obtain ⟨key, hkey⟩ := hall 256 (by decide)
  exact absurd (hkey ▸ portVHashCalc_lt key) (by decide)

end Buckets

end RedisTrace
