import RedisTrace.PortVHash

/-!
The functions of `pkt_parse.c`. A packet buffer is a function from offsets to
bytes, `rbuf` being offset 0; it goes on behind the frame, as memory does. The
C functions `atoi` and `strncpy` are written out for the C locale, with the
64-bit `long` that `atoi` converts through.
-/

namespace RedisTrace

open CircularList

abbrev Bytes := Nat → UInt8

section Libc

def isSpace (c : UInt8) : Bool := c = 0x20 || (0x09 ≤ c && c ≤ 0x0d)

def isDigit (c : UInt8) : Bool := 0x30 ≤ c && c ≤ 0x39

def digitsValue (digits : List UInt8) : Nat :=
  digits.foldl (fun n c => 10 * n + (c.toNat - 0x30)) 0

/-- `strtol(nptr, NULL, 10)`, which saturates. -/
def strtol (nptr : List UInt8) : Int :=
  match nptr.dropWhile isSpace with
  | 0x2d :: rest => max (-(2 ^ 63)) (-(digitsValue (rest.takeWhile isDigit) : Int))
  | 0x2b :: rest => min (2 ^ 63 - 1) (digitsValue (rest.takeWhile isDigit))
  | rest => min (2 ^ 63 - 1) (digitsValue (rest.takeWhile isDigit))

/-- `atoi` keeps the low 32 bits. -/
def atoi (nptr : List UInt8) : Int32 := Int32.ofInt (strtol nptr)

/-- The C string at `p`, which ends after `n` bytes at the latest. -/
def cString (buf : Bytes) (p : Nat) : Nat → List UInt8
  | 0 => []
  | n + 1 => if buf p = 0 then [] else buf p :: cString buf (p + 1) n

/-- `strncpy(dest, src, 32)`: up to the first NUL of `src`, then zeros. -/
def strncpy (src : CmdChars) : CmdChars :=
  Vector.ofFn (fun i => if ∃ j : Fin 32, j ≤ i ∧ src[j] = 0 then 0 else src[i])

end Libc

section Decode

/-- `pkt_swapu16`. -/
def pktSwapu16 (n : UInt16) : UInt16 := ((n &&& 0x00ff) <<< 8) ||| ((n &&& 0xff00) >>> 8)

/-- `pkt_swapu32`. -/
def pktSwapu32 (n : UInt32) : UInt32 :=
  ((n &&& 0xff000000) >>> 24) ||| ((n &&& 0x000000ff) <<< 24) |||
    ((n &&& 0x00ff0000) >>> 8) ||| ((n &&& 0x0000ff00) <<< 8)

/-- A `u_short` load on a little-endian machine. -/
def load16 (buf : Bytes) (p : Nat) : UInt16 :=
  (buf p).toUInt16 ||| ((buf (p + 1)).toUInt16 <<< 8)

/-- A `u_int` load on a little-endian machine. -/
def load32 (buf : Bytes) (p : Nat) : UInt32 :=
  (buf p).toUInt32 ||| ((buf (p + 1)).toUInt32 <<< 8) |||
    ((buf (p + 2)).toUInt32 <<< 16) ||| ((buf (p + 3)).toUInt32 <<< 24)

structure DataDesc where
  dataptr : Nat
  sPort : UInt16
  dPort : UInt16
  usflag : UInt16
  sIp : UInt32
  dIp : UInt32
  uidatalen : UInt32
  deriving DecidableEq, Repr

instance : Zero DataDesc := ⟨⟨0, 0, 0, 0, 0, 0, 0⟩⟩

abbrev enIn : UInt16 := 1
abbrev enOut : UInt16 := 2

/-- `ipp->ip_v`, the high bits of the first byte of the IP header. -/
def ipV (rbuf : Bytes) : UInt8 := rbuf 14 >>> 4

def ipP (rbuf : Bytes) : UInt8 := rbuf 23

/-- `pTcp->th_len` of a TCP header at offset 34. -/
def thLen (rbuf : Bytes) : UInt8 := rbuf 46 >>> 4

/-- `iOffset` behind the TCP header. The IP header counts as 20 bytes. -/
def payloadOffset (rbuf : Bytes) : Nat := 34 + 4 * (thLen rbuf).toNat

def pparseGetDataptr (rbuf : Bytes) (irlen : Int32) (pDataDesc : DataDesc) :
    Int32 × DataDesc :=
  if ipV rbuf ≠ 4 then (0, pDataDesc)
  else if ipP rbuf ≠ 6 then (0, pDataDesc)
  else
    let pDataDesc := {pDataDesc with
      sIp := pktSwapu32 (load32 rbuf 26)
      dIp := pktSwapu32 (load32 rbuf 30)}
    let iOffset := Int32.ofNat (payloadOffset rbuf)
    if irlen ≤ iOffset then (0, pDataDesc)
    else (1, {pDataDesc with
      sPort := pktSwapu16 (load16 rbuf 34)
      dPort := pktSwapu16 (load16 rbuf 36)
      dataptr := payloadOffset rbuf
      uidatalen := (irlen - iOffset).toUInt32})

end Decode

section Parse

structure RedisCmd where
  cmd : CmdChars
  cmdNum : UInt32
  deriving DecidableEq, Repr

instance : Zero RedisCmd := ⟨⟨Vector.replicate 32 0, 0⟩⟩

/-- The loops over `i < len` that stop at the first CR LF. -/
def findCrlfFrom (buf : Bytes) (p1 : Nat) : Nat → Nat → Nat
  | 0, i => i
  | n + 1, i =>
      if buf (p1 + i) = 0x0d ∧ buf (p1 + i + 1) = 0x0a then i
      else findCrlfFrom buf p1 n (i + 1)

/-- Where such a loop leaves `i`: at the first CR LF, or at `len`. -/
def findCrlf (buf : Bytes) (p1 : Nat) (len : Int) : Nat := findCrlfFrom buf p1 len.toNat 0

/-- What `redis_cmd_parse` returns, the buffer and the command it leaves, and
how many bytes its `memcpy` has written into the command. -/
structure Parsed where
  ret : Int32
  buf : Bytes
  pstRdsCmd : RedisCmd
  copied : Nat

/-- `memcpy(pstRdsCmd->cmd[0],p1,cmd_len)`. -/
def copyCmd (buf : Bytes) (p1 : Nat) (cmdLen : Nat) (cmd : CmdChars) : CmdChars :=
  Vector.ofFn (fun i => if i.val < cmdLen then buf (p1 + i.val) else cmd[i])

/-- The rest of `redis_cmd_parse` once both numbers are read: `p1` is at the
command name and `len` bytes are left. The name is copied only when a CR LF is
found, but the answer is 0 also when none is. -/
def parseName (buf : Bytes) (p1 : Nat) (len : Int) (cmdLen : Int32) (pstRdsCmd : RedisCmd) :
    Except Fault Parsed :=
  let i := findCrlf buf p1 len
  if i < len then
    if cmdLen.toInt ≠ i then .ok ⟨-1, buf, pstRdsCmd, 0⟩
    else if 32 < i then .error .overflow
    else .ok ⟨0, buf, ⟨copyCmd buf p1 i pstRdsCmd.cmd, 1⟩, i⟩
  else .ok ⟨0, buf, pstRdsCmd, 0⟩

/-- The part behind the element count. -/
def parseBulk (buf : Bytes) (p1 : Nat) (len : Int) (pstRdsCmd : RedisCmd) :
    Except Fault Parsed :=
  if buf p1 ≠ 0x24 then .ok ⟨-1, buf, pstRdsCmd, 0⟩
  else
    let p1 := p1 + 1
    let len := len - 1
    let i := findCrlf buf p1 len
    let buf := Function.update buf (p1 + i) 0
    let cmdLen := atoi (cString buf p1 i)
    if len < i + 2 ∨ cmdLen = 0 then .ok ⟨-1, buf, pstRdsCmd, 0⟩
    else parseName buf (p1 + i + 2) (len - i - 2) cmdLen pstRdsCmd

def redisCmdParse (buf : Bytes) (pdata : Nat) (len : Int32) (pstRdsCmd : RedisCmd) :
    Except Fault Parsed :=
  if buf pdata ≠ 0x2a then .ok ⟨-1, buf, pstRdsCmd, 0⟩
  else
    let p1 := pdata + 1
    let len := len.toInt - 1
    let i := findCrlf buf p1 len
    let buf := Function.update buf (p1 + i) 0
    let rParaNum := (atoi (cString buf p1 i)).toUInt32
    if len < i + 2 ∨ rParaNum = 0 then .ok ⟨-1, buf, pstRdsCmd, 0⟩
    else parseBulk buf (p1 + i + 2) (len - i - 2) pstRdsCmd

end Parse

section Recv

/-- `PKTDUMP_INFO`, less the pointer to `pkt_recv`. -/
structure PktdumpInfo where
  sec : UInt32
  uSec : UInt32
  ip : UInt32
  deriving DecidableEq, Repr

/-- One line of output: the item it is about and the time of the packet that
caused it. -/
structure Report where
  item : PortVHashItem
  sec : UInt32
  uSec : UInt32
  deriving DecidableEq, Repr

/-- The times in a report are computed in 32 bits. -/
def Report.ulq (r : Report) : UInt64 := (r.item.sec * 1000000 + r.item.uSec).toUInt64

def Report.ula (r : Report) : UInt64 := (r.sec * 1000000 + r.uSec).toUInt64

def Report.es (r : Report) : UInt64 := r.ula - r.ulq

structure Received where
  ret : Int32
  report : Option Report
  rbuf : Bytes

def DataDesc.stPortItem (desc : DataDesc) : PortItem :=
  ⟨desc.sPort, desc.dPort, desc.sIp, desc.dIp⟩

def PortItem.swap (item : PortItem) : PortItem :=
  ⟨item.dport, item.sport, item.dip, item.sip⟩

def pktRecv (dumpInfo : PktdumpInfo) (rbuf : Bytes) (len : Int32) (want : Option Nat) :
    PortW Received := do
  let (ok, stDataDesc) := pparseGetDataptr rbuf len 0
  if ok ≠ 1 then
    return ⟨0, none, rbuf⟩
  else if stDataDesc.sIp ≠ dumpInfo.ip ∧ stDataDesc.dIp ≠ dumpInfo.ip then
    return ⟨0, none, rbuf⟩
  else
    -- the direction is worked out here and looked at nowhere
    let stDataDesc := {stDataDesc with
      usflag := if stDataDesc.sIp = dumpInfo.ip then enOut else enIn}
    let stPortItem : PortItem := stDataDesc.stPortItem
    let (_, pstVhashItem) ← portVHashFindStruct stPortItem (some none)
    match pstVhashItem.join with
    | some a =>
        let item ← readItem a
        let _ ← portVHashDel stPortItem
        return ⟨1, some ⟨item, dumpInfo.sec, dumpInfo.uSec⟩, rbuf⟩
    | none =>
        let stPortItem : PortItem := stPortItem.swap
        let (_, pstVhashItem) ← portVHashFindStruct stPortItem pstVhashItem
        match pstVhashItem.join with
        | some a =>
            writeItem a (fun item => {item with sec := dumpInfo.sec, uSec := dumpInfo.uSec})
            return ⟨1, none, rbuf⟩
        | none =>
            let parsed ← (redisCmdParse rbuf stDataDesc.dataptr stDataDesc.uidatalen.toInt32 0)
            if parsed.ret ≠ 0 then
              return ⟨0, none, parsed.buf⟩
            else
              let (_, pstVhashItem) ← portVHashAdd stPortItem pstVhashItem want
              match pstVhashItem.join with
              | some a =>
                  writeItem a (fun item => {item with
                    sec := dumpInfo.sec
                    uSec := dumpInfo.uSec
                    cmd := strncpy parsed.pstRdsCmd.cmd})
                  return ⟨1, none, parsed.buf⟩
              | none => return ⟨1, none, parsed.buf⟩

end Recv

end RedisTrace
