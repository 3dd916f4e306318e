import Mathlib.Data.List.GetD
import Mathlib.Tactic.IntervalCases
import RedisTrace.PktRecv

/-!
TCP segments on the wire and what `pparse_get_dataptr` makes of them. The wire
format is stated by offsets and in network byte order; the decoder loads the
same bytes little-endian and swaps them.
-/

namespace RedisTrace

/-- The two bytes of a number in network order. -/
def be16 (n : UInt16) : List UInt8 := [(n >>> 8).toUInt8, n.toUInt8]

def be32 (n : UInt32) : List UInt8 :=
  [(n >>> 24).toUInt8, (n >>> 16).toUInt8, (n >>> 8).toUInt8, n.toUInt8]

section ByteOrder

variable (rbuf : Bytes) (p : Nat)

theorem pktSwapu16_load16 (n : UInt16) (hbytes : [rbuf p, rbuf (p + 1)] = be16 n) :
    pktSwapu16 (load16 rbuf p) = n := by
  simp only [be16, List.cons.injEq, and_true] at hbytes
  unfold pktSwapu16 load16
  rw [hbytes.1, hbytes.2]
  apply UInt16.toBitVec_inj.mp
  simp only [UInt16.toBitVec_or, UInt16.toBitVec_and, UInt16.toBitVec_shiftLeft,
    UInt16.toBitVec_shiftRight, UInt8.toBitVec_toUInt16, UInt16.toBitVec_toUInt8]
  apply BitVec.eq_of_getLsbD_eq
  intro i hi
  interval_cases i <;> simp

theorem pktSwapu32_load32 (n : UInt32)
    (hbytes : [rbuf p, rbuf (p + 1), rbuf (p + 2), rbuf (p + 3)] = be32 n) :
    pktSwapu32 (load32 rbuf p) = n := by
  simp only [be32, List.cons.injEq, and_true] at hbytes
  unfold pktSwapu32 load32
  rw [hbytes.1, hbytes.2.1, hbytes.2.2.1, hbytes.2.2.2]
  apply UInt32.toBitVec_inj.mp
  simp only [UInt32.toBitVec_or, UInt32.toBitVec_and, UInt32.toBitVec_shiftLeft,
    UInt32.toBitVec_shiftRight, UInt8.toBitVec_toUInt32, UInt32.toBitVec_toUInt8]
  apply BitVec.eq_of_getLsbD_eq
  intro i hi
  interval_cases i <;> simp

/-- The decoder's numbers have the bytes of the frame, in network order. -/
theorem be16_load : be16 (pktSwapu16 (load16 rbuf p)) = [rbuf p, rbuf (p + 1)] := by
  simp only [be16, pktSwapu16, load16, List.cons.injEq, and_true, ← UInt8.toBitVec_inj,
    UInt16.toBitVec_or, UInt16.toBitVec_and, UInt16.toBitVec_shiftLeft,
    UInt16.toBitVec_shiftRight, UInt8.toBitVec_toUInt16, UInt16.toBitVec_toUInt8]
  constructor
  all_goals
    apply BitVec.eq_of_getLsbD_eq
    intro i hi
    interval_cases i <;> simp

theorem be32_load :
    be32 (pktSwapu32 (load32 rbuf p)) =
      [rbuf p, rbuf (p + 1), rbuf (p + 2), rbuf (p + 3)] := by
  simp only [be32, pktSwapu32, load32, List.cons.injEq, and_true, ← UInt8.toBitVec_inj,
    UInt32.toBitVec_or, UInt32.toBitVec_and, UInt32.toBitVec_shiftLeft,
    UInt32.toBitVec_shiftRight, UInt8.toBitVec_toUInt32, UInt32.toBitVec_toUInt8]
  refine ⟨?_, ?_, ?_, ?_⟩
  all_goals
    apply BitVec.eq_of_getLsbD_eq
    intro i hi
    interval_cases i <;> simp

end ByteOrder

section Decoder

variable {f : Frame}

theorem payloadOffset_le (rbuf : Bytes) : payloadOffset rbuf ≤ 94 := by
  have hnibble : (thLen rbuf).toNat ≤ 15 := by
    have hbyte := (rbuf 46).toNat_lt
    have hvalue : (thLen rbuf).toNat = (rbuf 46).toNat / 16 := by
      simp [thLen, Nat.shiftRight_eq_div_pow]
    omega
  unfold payloadOffset
  omega

theorem toInt_payloadOffset (rbuf : Bytes) :
    (Int32.ofNat (payloadOffset rbuf)).toInt = payloadOffset rbuf := by
  have hle := payloadOffset_le rbuf
  exact Int32.toInt_ofNat_of_lt (by omega)

/-- The three checks of the decoder. -/
theorem decoded_ok_iff :
    f.decoded.1 = 1 ↔
      ipV f.rbuf = 4 ∧ ipP f.rbuf = 6 ∧ (payloadOffset f.rbuf : Int) < f.len.toInt := by
  unfold Frame.decoded pparseGetDataptr
  by_cases hv : ipV f.rbuf = 4
  · by_cases hp : ipP f.rbuf = 6
    · have hle : f.len ≤ Int32.ofNat (payloadOffset f.rbuf) ↔
          ¬ (payloadOffset f.rbuf : Int) < f.len.toInt := by
        rw [Int32.le_iff_toInt_le, toInt_payloadOffset]
        omega
      by_cases hlen : f.len ≤ Int32.ofNat (payloadOffset f.rbuf)
      · simp [hv, hp, hlen, hle.mp hlen]
      · have hlt : (payloadOffset f.rbuf : Int) < f.len.toInt := by
          by_contra hge
          exact hlen (hle.mpr hge)
        simp [hv, hp, hlen, hlt]
    · simp [hv, hp]
  · simp [hv]

theorem decoded_desc (hok : f.decoded.1 = 1) :
    f.decoded.2 = {(0 : DataDesc) with
      dataptr := payloadOffset f.rbuf
      sPort := pktSwapu16 (load16 f.rbuf 34)
      dPort := pktSwapu16 (load16 f.rbuf 36)
      sIp := pktSwapu32 (load32 f.rbuf 26)
      dIp := pktSwapu32 (load32 f.rbuf 30)
      uidatalen := (f.len - Int32.ofNat (payloadOffset f.rbuf)).toUInt32} := by
  obtain ⟨hv, hp, hlen⟩ := decoded_ok_iff.mp hok
  have hle : ¬ f.len ≤ Int32.ofNat (payloadOffset f.rbuf) := by
    rw [Int32.le_iff_toInt_le, toInt_payloadOffset]
    omega
  unfold Frame.decoded pparseGetDataptr
  simp [hv, hp, hle]

theorem toInt_datalen {rbuf : Bytes} {irlen : Int32}
    (hlong : (payloadOffset rbuf : Int) < irlen.toInt) :
    (irlen - Int32.ofNat (payloadOffset rbuf)).toInt = irlen.toInt - payloadOffset rbuf := by
  have hmax := irlen.toInt_lt
  rw [Int32.toInt_sub, toInt_payloadOffset]
  apply Int.bmod_eq_of_le
  · omega
  · omega

theorem toInt_uidatalen (hok : f.decoded.1 = 1) :
    f.decoded.2.uidatalen.toInt32.toInt = f.len.toInt - payloadOffset f.rbuf := by
  rw [decoded_desc hok]
  simp only [Int32.toInt32_toUInt32]
  exact toInt_datalen (decoded_ok_iff.mp hok).2.2

end Decoder

structure Endpoint where
  ip : UInt32
  port : UInt16
  deriving DecidableEq, Repr

/-- The 4-tuple of a packet from `src` to `dst`. -/
def tupleOf (src dst : Endpoint) : PortItem := ⟨src.port, dst.port, src.ip, dst.ip⟩

/-- An unpadded Ethernet frame with an IPv4 header of 20 bytes and a TCP
header of at least 5 words. Fields the tracer does not look at are arbitrary,
and so is what follows the frame in memory. -/
structure Frame.IsSegment (f : Frame) (src dst : Endpoint) (payload : List UInt8) :
    Prop where
  etherType : [f.rbuf 12, f.rbuf 13] = be16 0x0800
  version : f.rbuf 14 = 0x45
  protocol : f.rbuf 23 = 6
  sourceIp : [f.rbuf 26, f.rbuf 27, f.rbuf 28, f.rbuf 29] = be32 src.ip
  destinationIp : [f.rbuf 30, f.rbuf 31, f.rbuf 32, f.rbuf 33] = be32 dst.ip
  sourcePort : [f.rbuf 34, f.rbuf 35] = be16 src.port
  destinationPort : [f.rbuf 36, f.rbuf 37] = be16 dst.port
  headerLength : 5 ≤ (thLen f.rbuf).toNat
  totalLength : ∃ total : UInt16, [f.rbuf 16, f.rbuf 17] = be16 total ∧
    total.toNat = 20 + 4 * (thLen f.rbuf).toNat + payload.length ∧
    f.len.toInt = 14 + total.toNat
  data : ∀ i (h : i < payload.length), f.rbuf (payloadOffset f.rbuf + i) = payload[i]

/-- The decoder takes the frame for a packet from `src` to `dst` that carries
`payload`. -/
structure Frame.Delivers (f : Frame) (src dst : Endpoint) (payload : List UInt8) :
    Prop where
  decoded_ok : f.decoded.1 = 1
  tuple_eq : f.tuple = tupleOf src dst
  len_eq : f.decoded.2.uidatalen.toInt32.toInt = payload.length
  data : ∀ i (h : i < payload.length), f.rbuf (f.decoded.2.dataptr + i) = payload[i]

section Segments

variable {f : Frame} {src dst : Endpoint} {payload : List UInt8}

theorem Frame.Delivers.accepted (hf : f.Delivers src dst payload) {ip : UInt32}
    (hip : src.ip = ip ∨ dst.ip = ip) : f.Accepted ip := by
  refine ⟨hf.decoded_ok, ?_⟩
  rw [hf.tuple_eq]
  exact hip

theorem Frame.IsSegment.len_eq (hf : f.IsSegment src dst payload) :
    f.len.toInt = payloadOffset f.rbuf + payload.length := by
  obtain ⟨total, _, htotal, hlen⟩ := hf.totalLength
  unfold payloadOffset
  omega

/-- The decoder goes by the headers of a segment and the length of the frame:
what pads a frame counts as payload. -/
theorem Frame.IsSegment.delivers_padded (hf : f.IsSegment src dst payload) {g : Frame}
    {padded : List UInt8} (hrbuf : g.rbuf = f.rbuf)
    (hlen : g.len.toInt = payloadOffset f.rbuf + padded.length) (hdata : padded ≠ [])
    (hpadded : ∀ i (h : i < padded.length), f.rbuf (payloadOffset f.rbuf + i) = padded[i]) :
    g.Delivers src dst padded := by
  have hok : g.decoded.1 = 1 := by
    apply decoded_ok_iff.mpr
    rw [hrbuf]
    refine ⟨?_, hf.protocol, ?_⟩
    · rw [ipV, hf.version]
      decide
    · have hpos := List.length_pos_iff.mpr hdata
      rw [hlen]
      omega
  have hsip := pktSwapu32_load32 f.rbuf 26 src.ip hf.sourceIp
  have hdip := pktSwapu32_load32 f.rbuf 30 dst.ip hf.destinationIp
  have hsport := pktSwapu16_load16 f.rbuf 34 src.port hf.sourcePort
  have hdport := pktSwapu16_load16 f.rbuf 36 dst.port hf.destinationPort
  refine ⟨hok, ?_, ?_, ?_⟩
  · rw [Frame.tuple, decoded_desc hok, hrbuf]
    simp only [DataDesc.stPortItem, hsip, hdip, hsport, hdport]
    rfl
  · rw [toInt_uidatalen hok, hlen, hrbuf]
    omega
  · rw [decoded_desc hok, hrbuf]
    exact hpadded

/-- The decoder finds the endpoints and the payload of a segment. -/
theorem Frame.IsSegment.delivers (hf : f.IsSegment src dst payload)
    (hdata : payload ≠ []) : f.Delivers src dst payload :=
  hf.delivers_padded rfl hf.len_eq hdata hf.data

/-- What is delivered is never empty. -/
theorem Frame.Delivers.payload_ne_nil (hf : f.Delivers src dst payload) : payload ≠ [] := by
  have hlong := (decoded_ok_iff.mp hf.decoded_ok).2.2
  have hlen := hf.len_eq
  rw [toInt_uidatalen hf.decoded_ok] at hlen
  rintro rfl
  rw [List.length_nil] at hlen
  omega

end Segments

section Sample

/-- Plain headers for a segment of `n` payload bytes. -/
def segmentHeader (src dst : Endpoint) (n : Nat) : List UInt8 :=
  List.replicate 12 0 ++ be16 0x0800 ++
    [0x45, 0] ++ be16 (UInt16.ofNat (40 + n)) ++ [0, 0, 0, 0, 64, 6, 0, 0] ++
    be32 src.ip ++ be32 dst.ip ++ be16 src.port ++ be16 dst.port ++
    List.replicate 8 0 ++ [0x50, 0x18] ++ List.replicate 6 0

/-- A segment as a frame followed by zeros. -/
def segmentFrame (src dst : Endpoint) (payload : List UInt8) (sec uSec : UInt32)
    (want : Option Nat) : Frame where
  rbuf := fun i => (segmentHeader src dst payload.length ++ payload).getD i 0
  len := Int32.ofNat (54 + payload.length)
  sec := sec
  uSec := uSec
  want := want

theorem segmentFrame_header (src dst : Endpoint) (payload : List UInt8)
    (sec uSec : UInt32) (want : Option Nat) {i : Nat} (hi : i < 54) :
    (segmentFrame src dst payload sec uSec want).rbuf i =
      (segmentHeader src dst payload.length).getD i 0 :=
  List.getD_append _ _ _ _ hi

theorem segmentFrame_isSegment (src dst : Endpoint) (payload : List UInt8)
    (sec uSec : UInt32) (want : Option Nat) (hfits : 40 + payload.length < 2 ^ 16) :
    (segmentFrame src dst payload sec uSec want).IsSegment src dst payload := by
  have hheader := @segmentFrame_header src dst payload sec uSec want
  have hthLen : thLen (segmentFrame src dst payload sec uSec want).rbuf = 5 := by
    rw [thLen, hheader (by omega)]
    exact (by decide : (0x50 : UInt8) >>> 4 = 5)
  have hoffset : payloadOffset (segmentFrame src dst payload sec uSec want).rbuf = 54 := by
    rw [payloadOffset, hthLen]
    decide
  constructor
  · rw [hheader (by omega), hheader (by omega)]
    simp [segmentHeader, be16, be32, List.replicate]
  · rw [hheader (by omega)]
    simp [segmentHeader, be16, be32, List.replicate]
  · rw [hheader (by omega)]
    simp [segmentHeader, be16, be32, List.replicate]
  · rw [hheader (by omega), hheader (by omega), hheader (by omega), hheader (by omega)]
    simp [segmentHeader, be16, be32, List.replicate]
  · rw [hheader (by omega), hheader (by omega), hheader (by omega), hheader (by omega)]
    simp [segmentHeader, be16, be32, List.replicate]
  · rw [hheader (by omega), hheader (by omega)]
    simp [segmentHeader, be16, be32, List.replicate]
  · rw [hheader (by omega), hheader (by omega)]
    simp [segmentHeader, be16, be32, List.replicate]
  · rw [hthLen]
    decide
  · refine ⟨UInt16.ofNat (40 + payload.length), ?_, ?_, ?_⟩
    · rw [hheader (by omega), hheader (by omega)]
      simp [segmentHeader, be16, be32, List.replicate]
    · rw [hthLen, UInt16.toNat_ofNat_of_lt' hfits]
      change 40 + payload.length = 20 + 4 * 5 + payload.length
      omega
    · have hlen : (Int32.ofNat (54 + payload.length)).toInt = (54 + payload.length : Nat) :=
        Int32.toInt_ofNat_of_lt (by omega)
      rw [UInt16.toNat_ofNat_of_lt' hfits]
      change (Int32.ofNat (54 + payload.length)).toInt = _
      omega
  · intro i hi
    rw [hoffset]
    have hright : (segmentHeader src dst payload.length).length = 54 := rfl
    change (segmentHeader src dst payload.length ++ payload).getD (54 + i) 0 = payload[i]
    rw [List.getD_append_right _ _ _ _ (by omega), hright]
    simp [hi]

theorem segmentFrame_delivers (src dst : Endpoint) (payload : List UInt8)
    (sec uSec : UInt32) (want : Option Nat) (hdata : payload ≠ [])
    (hfits : 40 + payload.length < 2 ^ 16) :
    (segmentFrame src dst payload sec uSec want).Delivers src dst payload :=
  (segmentFrame_isSegment src dst payload sec uSec want hfits).delivers hdata

def sampleClient : Endpoint := ⟨0x0a0a0067, 40000⟩

def sampleServer : Endpoint := ⟨0x0a0a0066, 6379⟩

/-- PING from the client. -/
def sampleRequest : Frame :=
  segmentFrame sampleClient sampleServer
    [0x2a, 0x31, 0x0d, 0x0a, 0x24, 0x34, 0x0d, 0x0a, 0x50, 0x49, 0x4e, 0x47, 0x0d, 0x0a]
    100 0 (some 0)

/-- A status reply from the server. -/
def sampleReply : Frame :=
  segmentFrame sampleServer sampleClient [0x2b, 0x4f, 0x4b, 0x0d, 0x0a] 101 0 (some 0)

end Sample

end RedisTrace
