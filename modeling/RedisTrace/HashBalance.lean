import Mathlib.SetTheory.Cardinal.Finite
import RedisTrace.PortVHash

/-!
How `PORT_VHash_Calc` spreads the connections. Of the 2048 buckets it uses 256,
and these evenly: changing one byte of a key moves it from any bucket to any
other, and every key comes to its new bucket in one way only.
-/

namespace RedisTrace

/-- The key with the low byte of its source port changed by `d`. -/
def PortItem.shift (key : PortItem) (d : UInt32) : PortItem :=
  {key with sport := key.sport ^^^ d.toUInt16}

section Shift

variable {d : UInt32}

theorem shift_shift (key : PortItem) (d : UInt32) : (key.shift d).shift d = key := by
  rw [PortItem.shift, PortItem.shift, UInt16.xor_assoc, UInt16.xor_self, UInt16.xor_zero]

/-- One byte of the fold is as good as another. -/
theorem foldl_xor (bytes : List UInt8) (uinum d : UInt32) :
    bytes.foldl (fun uinum byte => uinum ^^^ byte.toUInt32) (uinum ^^^ d) =
      bytes.foldl (fun uinum byte => uinum ^^^ byte.toUInt32) uinum ^^^ d := by
  induction bytes generalizing uinum with
  | nil => rfl
  | cons byte bytes ih =>
      have hswap : uinum ^^^ d ^^^ byte.toUInt32 = uinum ^^^ byte.toUInt32 ^^^ d := by
        rw [UInt32.xor_assoc, UInt32.xor_comm d, ← UInt32.xor_assoc]
      rw [List.foldl_cons, List.foldl_cons, hswap, ih]

/-- The mask of `PORT_VHASH` leaves a byte alone. -/
theorem portVHash_byte {num : UInt32} (hlt : num < 256) : portVHash num = num := by
  have hnum : num.toNat < 256 := UInt32.lt_iff_toNat_lt.mp hlt
  have hones : (portVHashNumHashsize - 1).toNat = 2 ^ 11 - 1 := by decide
  apply UInt32.toNat_inj.mp
  rw [portVHash, UInt32.toNat_and, hones]
  exact Nat.and_two_pow_sub_one_of_lt_two_pow (by omega)

theorem xor_lt {a : UInt32} (ha : a < 256) (hd : d < 256) : a ^^^ d < 256 := by
  rw [UInt32.lt_iff_toNat_lt] at *
  rw [UInt32.toNat_xor]
  exact Nat.xor_lt_two_pow (n := 8) ha hd

/-- Only the first of the twelve bytes has changed. -/
theorem bytes_shift (key : PortItem) (hd : d < 256) :
    (key.shift d).bytes = (key.sport.toUInt8 ^^^ d.toUInt8) :: key.bytes.tail := by
  have hhigh : (d.toUInt16 >>> 8) = 0 := by
    have hlt : d.toNat < 256 := UInt32.lt_iff_toNat_lt.mp hd
    apply UInt16.toNat_inj.mp
    simp [Nat.shiftRight_eq_div_pow]
    omega
  simp [PortItem.bytes, PortItem.shift, UInt16.shiftRight_xor, hhigh]

theorem portVHashCalc_shift (key : PortItem) (hd : d < 256) :
    portVHashCalc (key.shift d) = portVHashCalc key ^^^ d := by
  have hlow : d.toUInt8.toUInt32 = d := by
    have hlt : d.toNat < 256 := UInt32.lt_iff_toNat_lt.mp hd
    apply UInt32.toNat_inj.mp
    simp
    omega
  have hfold : ∀ k : PortItem, portVHashCalc k =
      k.bytes.foldl (fun uinum byte => uinum ^^^ byte.toUInt32) 0 := by
    intro k
    apply portVHash_byte
    rw [UInt32.lt_iff_toNat_lt]
    exact foldl_xor_lt k.bytes 0 (by decide)
  have hbytes : key.bytes = key.sport.toUInt8 :: key.bytes.tail := rfl
  rw [hfold, hfold, bytes_shift key hd, hbytes, List.foldl_cons, List.foldl_cons,
    UInt8.toUInt32_xor, hlow, ← UInt32.xor_assoc, foldl_xor]
  rfl

/-- Two of the buckets in use hold as many keys. -/
def bucketEquiv (b b' : UInt32) (hb : b < 256) (hb' : b' < 256) :
    {key // portVHashCalc key = b} ≃ {key // portVHashCalc key = b'} where
  toFun key := ⟨key.1.shift (b ^^^ b'), by
    rw [portVHashCalc_shift key.1 (xor_lt hb hb'), key.2, ← UInt32.xor_assoc, UInt32.xor_self,
      UInt32.zero_xor]⟩
  invFun key := ⟨key.1.shift (b ^^^ b'), by
    rw [portVHashCalc_shift key.1 (xor_lt hb hb'), key.2, UInt32.xor_comm b, ← UInt32.xor_assoc,
      UInt32.xor_self, UInt32.zero_xor]⟩
  left_inv key := Subtype.ext (shift_shift key.1 _)
  right_inv key := Subtype.ext (shift_shift key.1 _)

end Shift

section Count

/-- A key is its fields. -/
def fieldsEquiv : PortItem ≃ (UInt16 × UInt16) × (UInt32 × UInt32) where
  toFun key := ((key.sport, key.dport), (key.sip, key.dip))
  invFun fields := ⟨fields.1.1, fields.1.2, fields.2.1, fields.2.2⟩

def uint16Equiv : UInt16 ≃ Fin (2 ^ 16) where
  toFun := UInt16.toFin
  invFun := UInt16.ofFin

def uint32Equiv : UInt32 ≃ Fin (2 ^ 32) where
  toFun := UInt32.toFin
  invFun := UInt32.ofFin

theorem card_portItem : Nat.card PortItem = 2 ^ 96 := by
  have hshort : Nat.card UInt16 = 2 ^ 16 := (Nat.card_congr uint16Equiv).trans (Nat.card_fin _)
  have hlong : Nat.card UInt32 = 2 ^ 32 := (Nat.card_congr uint32Equiv).trans (Nat.card_fin _)
  rw [Nat.card_congr fieldsEquiv, Nat.card_prod, Nat.card_prod, Nat.card_prod, hshort, hlong]
  simp only [← pow_add]

/-- A key is a key of bucket 0 and the bucket it has been moved to. -/
def spreadEquiv :
    PortItem ≃ {key // portVHashCalc key = 0} × {b : UInt32 // b < 256} where
  toFun key := (⟨key.shift (portVHashCalc key), by
    rw [portVHashCalc_shift key (portVHashCalc_lt key), UInt32.xor_self]⟩,
    ⟨portVHashCalc key, portVHashCalc_lt key⟩)
  invFun p := p.1.1.shift p.2.1
  left_inv key := shift_shift key _
  right_inv p := by
    obtain ⟨⟨key, hkey⟩, b, hb⟩ := p
    have hmoved : portVHashCalc (key.shift b) = b := by
      rw [portVHashCalc_shift key hb, hkey, UInt32.zero_xor]
    simp [hmoved, shift_shift]

def byteEquiv : {b : UInt32 // b < 256} ≃ Fin 256 where
  toFun b := ⟨b.1.toNat, UInt32.lt_iff_toNat_lt.mp b.2⟩
  invFun i := ⟨UInt32.ofNat i, by
    rw [UInt32.lt_iff_toNat_lt, UInt32.toNat_ofNat']
    exact (Nat.mod_le _ _).trans_lt i.2⟩
  left_inv b := Subtype.ext (by simp)
  right_inv i := by
    apply Fin.ext
    have hi := i.2
    simp
    omega

/-- Of all the keys there are, each of the first 256 buckets gets as many as any
other, and the others get none. -/
theorem portVHashCalc_balanced (b : UInt32) :
    Nat.card {key // portVHashCalc key = b} = if b < 256 then 2 ^ 88 else 0 := by
  split
  · next hb =>
      have hall := card_portItem
      rw [Nat.card_congr spreadEquiv, Nat.card_prod, Nat.card_congr byteEquiv, Nat.card_fin] at hall
      rw [Nat.card_congr (bucketEquiv b 0 hb (by decide))]
      have hsplit : (2 : Nat) ^ 96 = 2 ^ 88 * 256 := pow_add 2 88 8
      exact Nat.eq_of_mul_eq_mul_right (by decide) (hall.trans hsplit)
  · next hb =>
      have : IsEmpty {key // portVHashCalc key = b} :=
        ⟨fun key => hb (key.2 ▸ portVHashCalc_lt key.1)⟩
      exact Nat.card_of_isEmpty

end Count

end RedisTrace
