import RedisTrace.Output

/-!
The monitored address. `main` hands the string of the command line to
`inet_addr` and swaps the bytes of the answer. The C functions `strtoul` and
`inet_addr` are written out for the C locale: up to four numbers between dots,
octal behind a leading zero and hexadecimal behind `0x`, the last of them for
all bytes that are left.
-/

namespace RedisTrace

section Libc

/-- The value of a digit, or 16. -/
def digitValue (c : UInt8) : Nat :=
  if isDigit c then c.toNat - 0x30
  else if 0x61 ≤ c && c ≤ 0x66 then c.toNat - 0x57
  else if 0x41 ≤ c && c ≤ 0x46 then c.toNat - 0x37
  else 16

def isDigitIn (base : Nat) (c : UInt8) : Bool := digitValue c < base

/-- The number at the head of a string, and what stands behind it. -/
def numeral (base : Nat) (nptr : List UInt8) : Nat × List UInt8 :=
  ((nptr.takeWhile (isDigitIn base)).foldl (fun n c => base * n + digitValue c) 0,
    nptr.dropWhile (isDigitIn base))

/-- `strtoul(nptr, &endptr, 0)` of a string that begins with a digit. The
numbers that saturate are too large for an address anyway. -/
def strtoul (nptr : List UInt8) : Nat × List UInt8 :=
  if nptr.head? ≠ some 0x30 then numeral 10 nptr
  else
    match nptr.tail with
    | x :: d :: rest =>
        if (x = 0x78 || x = 0x58) && isDigitIn 16 d then numeral 16 (d :: rest)
        else numeral 8 nptr
    | _ => numeral 8 nptr

/-- The numbers of an address, with `dots` more dots at most, and what stands
behind the last of them. Those before a dot are single bytes. -/
def addressParts : Nat → List UInt8 → Option (List Nat × List UInt8)
  | dots, cp =>
      if !(cp.head?.any isDigit) then none
      else
        let (val, rest) := strtoul cp
        match dots, rest with
        | dots + 1, 0x2e :: rest =>
            if 0xff < val then none
            else (addressParts dots rest).map (fun (vals, rest) => (val :: vals, rest))
        | 0, 0x2e :: _ => none
        | _, rest => some ([val], rest)

/-- The last number fills the bytes that the others leave. -/
def addressValue : Nat → List Nat → Option Nat
  | bytes, [val] => if val < 256 ^ bytes then some val else none
  | bytes + 1, val :: vals => (addressValue bytes vals).map (val * 256 ^ bytes + ·)
  | _, _ => none

/-- The number that a string denotes as an address. -/
def inetAton (cp : List UInt8) : Option UInt32 := do
  let (vals, rest) ← addressParts 3 cp
  if rest.head?.all isSpace then
    let value ← addressValue 4 vals
    return UInt32.ofNat value
  else none

/-- `htonl` on a little-endian machine. -/
def htonl (hostlong : UInt32) : UInt32 := pktSwapu32 hostlong

/-- The answer is in network order; `INADDR_NONE` stands for an error. -/
def inetAddr (cp : List UInt8) : UInt32 :=
  match inetAton cp with
  | some addr => htonl addr
  | none => 0xffffffff

end Libc

/-- `pktdump->ip`. -/
def monitoredIp (ip : List UInt8) : UInt32 := htonl (inetAddr ip)

/-- An address as it is usually written. -/
def dottedQuad (a b c d : UInt8) : List UInt8 :=
  decimal a.toNat ++ ascii "." ++ decimal b.toNat ++ ascii "." ++ decimal c.toNat ++ ascii "." ++
    decimal d.toNat

section Numbers

theorem decimal_head {n : Nat} (hn : 0 < n) : (decimal n).head? ≠ some 0x30 := by
  induction n using Nat.strong_induction_on with
  | _ n ih =>
      unfold decimal
      rcases Nat.lt_or_ge n 10 with hsmall | hlarge
      · rw [Nat.toDigits_of_lt_base hsmall]
        interval_cases n <;> decide
      · rw [Nat.toDigits_of_base_le (by decide) hlarge, List.map_append, List.head?_append]
        have hfront := ih (n / 10) (by omega) (by omega)
        unfold decimal at hfront
        cases hdigits : ((Nat.toDigits 10 (n / 10)).map Char.toUInt8).head? with
        | none =>
            rw [List.head?_eq_none_iff, List.map_eq_nil_iff] at hdigits
            exact absurd hdigits Nat.toDigits_ne_nil
        | some c =>
            rw [hdigits] at hfront
            exact hfront

theorem digitValue_of_isDigit {c : UInt8} (hc : isDigit c = true) :
    digitValue c = c.toNat - 0x30 ∧ isDigitIn 10 c = true := by
  have hvalue : digitValue c = c.toNat - 0x30 := if_pos hc
  refine ⟨hvalue, ?_⟩
  simp only [isDigit, Bool.and_eq_true, decide_eq_true_eq, UInt8.le_iff_toNat_le] at hc
  have hhigh : c.toNat ≤ 57 := hc.2
  rw [isDigitIn, decide_eq_true_eq, hvalue]
  omega

variable {n : Nat} {rest : List UInt8}

/-- What may stand behind a number of an address: a dot, or nothing. -/
def EndsNumber (rest : List UInt8) : Prop := rest = [] ∨ ∃ cp, rest = 0x2e :: cp

theorem EndsNumber.stops (hrest : EndsNumber rest) {base : Nat} (hbase : base ≤ 16) :
    rest.takeWhile (isDigitIn base) = [] ∧ rest.dropWhile (isDigitIn base) = rest := by
  rcases hrest with rfl | ⟨cp, rfl⟩
  · exact ⟨rfl, rfl⟩
  · have hvalue : digitValue 0x2e = 16 := by decide
    have hdot : isDigitIn base 0x2e = false := by
      rw [isDigitIn, hvalue, decide_eq_false_iff_not]
      omega
    simp [hdot]

/-- A decimal number is read to its end. -/
theorem numeral_decimal (hrest : EndsNumber rest) :
    numeral 10 (decimal n ++ rest) = (n, rest) := by
  have hdigits : ∀ c ∈ decimal n, isDigitIn 10 c = true := fun c hc =>
    (digitValue_of_isDigit (isDigit_of_mem_decimal hc)).2
  obtain ⟨htake, hdrop⟩ := hrest.stops (by decide : 10 ≤ 16)
  have hvalue : (decimal n).foldl (fun n c => 10 * n + digitValue c) 0 = n := by
    calc (decimal n).foldl (fun n c => 10 * n + digitValue c) 0
        = digitsValue (decimal n) := by
          apply List.foldl_ext
          intro m c hc
          rw [(digitValue_of_isDigit (isDigit_of_mem_decimal hc)).1]
      _ = n := digitsValue_decimal n
  rw [numeral, List.takeWhile_append_of_pos hdigits, List.dropWhile_append_of_pos hdigits, htake,
    hdrop, List.append_nil, hvalue]

/-- The decimal of a number means the number, since it has no leading zeros. -/
theorem strtoul_decimal (hrest : EndsNumber rest) : strtoul (decimal n ++ rest) = (n, rest) := by
  rcases Nat.eq_zero_or_pos n with rfl | hn
  · have hoctal : numeral 8 (0x30 :: rest) = (0, rest) := by
      obtain ⟨htake, hdrop⟩ := hrest.stops (by decide : 8 ≤ 16)
      have hdigit : isDigitIn 8 0x30 = true := by decide
      rw [numeral, List.takeWhile_cons_of_pos hdigit, List.dropWhile_cons_of_pos hdigit, htake,
        hdrop]
      rfl
    change strtoul (0x30 :: rest) = (0, rest)
    rcases hrest with rfl | ⟨cp, rfl⟩
    · exact hoctal
    · cases cp with
      | nil => exact hoctal
      | cons d cp => exact hoctal
  · have hhead : (decimal n ++ rest).head? ≠ some 0x30 := by
      rw [List.head?_append]
      have hfirst := decimal_head hn
      obtain ⟨c, front, hfront⟩ := List.exists_cons_of_ne_nil (decimal_ne_nil n)
      rw [hfront] at hfirst ⊢
      exact hfirst
    rw [strtoul, if_pos hhead, numeral_decimal hrest]

theorem head_decimal_isDigit (n : Nat) (rest : List UInt8) :
    (decimal n ++ rest).head?.any isDigit = true := by
  obtain ⟨c, front, hfront⟩ := List.exists_cons_of_ne_nil (decimal_ne_nil n)
  have hc : c ∈ decimal n := by simp [hfront]
  rw [hfront]
  exact isDigit_of_mem_decimal hc

theorem addressParts_dot {dots : Nat} {cp : List UInt8} (hn : n ≤ 0xff) :
    addressParts (dots + 1) (decimal n ++ 0x2e :: cp) =
      (addressParts dots cp).map (fun (vals, rest) => (n :: vals, rest)) := by
  rw [addressParts, strtoul_decimal (.inr ⟨cp, rfl⟩), head_decimal_isDigit]
  simp [Nat.not_lt.mpr hn]

theorem addressParts_last (dots : Nat) : addressParts dots (decimal n) = some ([n], []) := by
  have hread := strtoul_decimal (n := n) (.inl rfl)
  have hdigit := head_decimal_isDigit n []
  rw [List.append_nil] at hread hdigit
  cases dots <;> simp [addressParts, hread, hdigit]

end Numbers

section Addresses

theorem htonl_htonl (n : UInt32) : htonl (htonl n) = n := by
  unfold htonl pktSwapu32
  apply UInt32.toBitVec_inj.mp
  simp only [UInt32.toBitVec_or, UInt32.toBitVec_and, UInt32.toBitVec_shiftLeft,
    UInt32.toBitVec_shiftRight]
  apply BitVec.eq_of_getLsbD_eq
  intro i hi
  interval_cases i <;> simp

/-- The number of an address. -/
def quadValue (a b c d : UInt8) : Nat :=
  a.toNat * 256 ^ 3 + (b.toNat * 256 ^ 2 + (c.toNat * 256 ^ 1 + d.toNat))

/-- The address as the tracer compares it. -/
def addressOf (a b c d : UInt8) : UInt32 := UInt32.ofNat (quadValue a b c d)

theorem quadValue_lt (a b c d : UInt8) : quadValue a b c d < 2 ^ 32 := by
  have ha := a.toNat_lt
  have hb := b.toNat_lt
  have hc := c.toNat_lt
  have hd := d.toNat_lt
  unfold quadValue
  omega

theorem be32_addressOf (a b c d : UInt8) : be32 (addressOf a b c d) = [a, b, c, d] := by
  have ha := a.toNat_lt
  have hb := b.toNat_lt
  have hc := c.toNat_lt
  have hd := d.toNat_lt
  have hvalue : (addressOf a b c d).toNat = quadValue a b c d :=
    UInt32.toNat_ofNat_of_lt' (quadValue_lt a b c d)
  have hbyte : ∀ (k : Nat) (x : UInt8), quadValue a b c d / 2 ^ k % 2 ^ 8 = x.toNat → k < 32 →
      (addressOf a b c d >>> UInt32.ofNat k).toUInt8 = x := by
    intro k x hx hk
    apply UInt8.toNat_inj.mp
    rw [UInt32.toNat_toUInt8, UInt32.toNat_shiftRight, hvalue, Nat.shiftRight_eq_div_pow,
      UInt32.toNat_ofNat_of_lt' (hk.trans (by decide)), Nat.mod_eq_of_lt hk, hx]
  have hlow : (addressOf a b c d).toUInt8 = d := by
    apply UInt8.toNat_inj.mp
    rw [UInt32.toNat_toUInt8, hvalue]
    unfold quadValue
    omega
  rw [be32, hlow]
  congr 1
  · exact hbyte 24 a (by unfold quadValue; omega) (by decide)
  · congr 1
    · exact hbyte 16 b (by unfold quadValue; omega) (by decide)
    · congr 1
      exact hbyte 8 c (by unfold quadValue; omega) (by decide)

theorem inetAton_dottedQuad (a b c d : UInt8) :
    inetAton (dottedQuad a b c d) = some (addressOf a b c d) := by
  have ha := a.toNat_lt
  have hb := b.toNat_lt
  have hc := c.toNat_lt
  have hd := d.toNat_lt
  have hquad : dottedQuad a b c d = decimal a.toNat ++ 0x2e :: (decimal b.toNat ++ 0x2e ::
      (decimal c.toNat ++ 0x2e :: decimal d.toNat)) := by
    have hdot : ascii "." = [0x2e] := by decide
    simp [dottedQuad, hdot]
  have hparts : addressParts 3 (dottedQuad a b c d) =
      some ([a.toNat, b.toNat, c.toNat, d.toNat], []) := by
    rw [hquad, addressParts_dot (by omega), addressParts_dot (by omega),
      addressParts_dot (by omega), addressParts_last]
    rfl
  have hvalue : addressValue 4 [a.toNat, b.toNat, c.toNat, d.toNat] =
      some (quadValue a b c d) := by
    have hlast : d.toNat < 256 := by omega
    simp [addressValue, hlast, quadValue]
  rw [inetAton, hparts]
  simp [hvalue, addressOf]

theorem monitoredIp_dottedQuad (a b c d : UInt8) :
    monitoredIp (dottedQuad a b c d) = addressOf a b c d := by
  rw [monitoredIp, inetAddr, inetAton_dottedQuad]
  exact htonl_htonl _

/-- A number that is loaded and swapped has the bytes of the buffer. -/
theorem pktSwapu32_load32_iff (rbuf : Bytes) (p : Nat) (n : UInt32) :
    pktSwapu32 (load32 rbuf p) = n ↔
      [rbuf p, rbuf (p + 1), rbuf (p + 2), rbuf (p + 3)] = be32 n := by
  constructor
  · rintro rfl
    exact (be32_load rbuf p).symm
  · exact pktSwapu32_load32 rbuf p n

/-- The address bytes that the tracer looks for. -/
theorem accepted_iff_bytes (f : Frame) (ip : UInt32) :
    f.Accepted ip ↔ f.decoded.1 = 1 ∧
      ([f.rbuf 26, f.rbuf 27, f.rbuf 28, f.rbuf 29] = be32 ip ∨
        [f.rbuf 30, f.rbuf 31, f.rbuf 32, f.rbuf 33] = be32 ip) := by
  apply and_congr_right
  intro hok
  have htuple : f.tuple = f.decoded.2.stPortItem := rfl
  rw [htuple, decoded_desc hok]
  exact or_congr (pktSwapu32_load32_iff _ 26 _) (pktSwapu32_load32_iff _ 30 _)

/-- The tracer started for an address looks exactly at the packets from it and
to it, for every address and every frame. -/
theorem accepted_dottedQuad_iff (f : Frame) (a b c d : UInt8) :
    f.Accepted (monitoredIp (dottedQuad a b c d)) ↔
      f.decoded.1 = 1 ∧
        ([f.rbuf 26, f.rbuf 27, f.rbuf 28, f.rbuf 29] = [a, b, c, d] ∨
          [f.rbuf 30, f.rbuf 31, f.rbuf 32, f.rbuf 33] = [a, b, c, d]) := by
  rw [accepted_iff_bytes, monitoredIp_dottedQuad, be32_addressOf]

/-- A leading zero makes a number octal. -/
example : monitoredIp (ascii "010.0.0.1") = addressOf 8 0 0 1 := by decide +kernel

/-- Without an address the broadcast address is looked for. -/
theorem monitoredIp_rejected {ip : List UInt8} (hip : inetAton ip = none) :
    be32 (monitoredIp ip) = [255, 255, 255, 255] := by
  rw [monitoredIp, inetAddr, hip]
  decide

end Addresses

end RedisTrace
