import RedisTrace.BareSegments

/-!
Where the decoder looks for the TCP header. It adds 20 bytes for every IP
header, whatever `ip_hl` says, so behind IP options it reads the ports and the
length of the TCP header at the wrong place.
-/

namespace RedisTrace

/-- Where the TCP header starts. -/
def tcpStart (rbuf : Bytes) : Nat := 14 + 4 * (ipHl rbuf).toNat

/-- Where the TCP header ends. -/
def tcpEnd (rbuf : Bytes) : Nat := tcpStart rbuf + 4 * (thLenAfterIp rbuf).toNat

/-- An unpadded Ethernet/IPv4/TCP frame that its headers fit in. -/
structure TcpFrame (rbuf : Bytes) (irlen : Int32) : Prop where
  etherType : [rbuf 12, rbuf 13] = be16 0x0800
  version : ipV rbuf = 4
  protocol : ipP rbuf = 6
  ipHeader : 5 ≤ (ipHl rbuf).toNat
  tcpHeader : 5 ≤ (thLenAfterIp rbuf).toNat
  complete : tcpEnd rbuf ≤ irlen.toInt
  unpadded : irlen.toInt = 14 + (ipLen rbuf).toNat

/-- The decoder succeeds exactly on frames with a payload, and then describes
the segment. -/
def FindsSegment (rbuf : Bytes) (irlen : Int32) (pDataDesc : DataDesc) : Prop :=
  ((pparseGetDataptr rbuf irlen pDataDesc).1 = 1 ↔ tcpEnd rbuf < irlen.toInt) ∧
    ((pparseGetDataptr rbuf irlen pDataDesc).1 = 1 →
      let desc := (pparseGetDataptr rbuf irlen pDataDesc).2
      be32 desc.sIp = [rbuf 26, rbuf 27, rbuf 28, rbuf 29] ∧
        be32 desc.dIp = [rbuf 30, rbuf 31, rbuf 32, rbuf 33] ∧
        be16 desc.sPort = [rbuf (tcpStart rbuf), rbuf (tcpStart rbuf + 1)] ∧
        be16 desc.dPort = [rbuf (tcpStart rbuf + 2), rbuf (tcpStart rbuf + 3)] ∧
        desc.dataptr = tcpEnd rbuf ∧
        (desc.uidatalen.toNat : Int) = irlen.toInt - tcpEnd rbuf)

/-- There are no IP options, or the frame has no payload and does not seem to
have one, or the bytes that are taken for the TCP header happen to give the
right length and the right ports. -/
def OptionsHarmless (rbuf : Bytes) (irlen : Int32) : Prop :=
  ipHl rbuf = 5 ∨
    (irlen.toInt ≤ tcpEnd rbuf ∧ irlen.toInt ≤ 34 + 4 * (thLen rbuf).toNat) ∨
    ((thLen rbuf).toNat + 5 = (ipHl rbuf).toNat + (thLenAfterIp rbuf).toNat ∧
      ∀ i < 4, rbuf (34 + i) = rbuf (tcpStart rbuf + i))

section Decoding

variable {rbuf : Bytes} {irlen : Int32}

theorem length_le_iff :
    irlen ≤ Int32.ofNat (payloadOffset rbuf) ↔ irlen.toInt ≤ payloadOffset rbuf := by
  rw [Int32.le_iff_toInt_le, toInt_payloadOffset]

theorem toNat_toUInt32_of_nonneg {n : Int32} (hn : 0 ≤ n.toInt) :
    (n.toUInt32.toNat : Int) = n.toInt := by
  have hn' : 0 ≤ n := Int32.le_iff_toInt_le.mpr hn
  rw [Int32.toNat_toUInt32_of_le hn', Int32.cast_toNatClampNeg _ hn']

theorem toNat_datalen (hlong : (payloadOffset rbuf : Int) < irlen.toInt) :
    ((irlen - Int32.ofNat (payloadOffset rbuf)).toUInt32.toNat : Int) =
      irlen.toInt - payloadOffset rbuf := by
  have hdatalen := toInt_datalen hlong
  rw [toNat_toUInt32_of_nonneg (by omega), hdatalen]

/-- What the decoder makes of an IPv4/TCP frame. -/
theorem pparseGetDataptr_tcp (hversion : ipV rbuf = 4) (hprotocol : ipP rbuf = 6)
    (irlen : Int32) (pDataDesc : DataDesc) :
    (irlen.toInt ≤ payloadOffset rbuf ∧ (pparseGetDataptr rbuf irlen pDataDesc).1 = 0) ∨
      (payloadOffset rbuf < irlen.toInt ∧
        pparseGetDataptr rbuf irlen pDataDesc = (1, {pDataDesc with
          dataptr := payloadOffset rbuf
          sPort := pktSwapu16 (load16 rbuf 34)
          dPort := pktSwapu16 (load16 rbuf 36)
          sIp := pktSwapu32 (load32 rbuf 26)
          dIp := pktSwapu32 (load32 rbuf 30)
          uidatalen := (irlen - Int32.ofNat (payloadOffset rbuf)).toUInt32})) := by
  by_cases hshort : irlen ≤ Int32.ofNat (payloadOffset rbuf)
  · left
    exact ⟨length_le_iff.mp hshort, by simp [pparseGetDataptr, hversion, hprotocol, hshort]⟩
  · right
    refine ⟨?_, by simp [pparseGetDataptr, hversion, hprotocol, hshort]⟩
    by_contra hle
    exact hshort (length_le_iff.mpr (by omega))

theorem optionsHarmless_iff :
    OptionsHarmless rbuf irlen ↔
      (irlen.toInt ≤ tcpEnd rbuf ∧ irlen.toInt ≤ payloadOffset rbuf) ∨
        (payloadOffset rbuf = tcpEnd rbuf ∧ ∀ i < 4, rbuf (34 + i) = rbuf (tcpStart rbuf + i)) := by
  have hlengths : (thLen rbuf).toNat + 5 = (ipHl rbuf).toNat + (thLenAfterIp rbuf).toNat ↔
      payloadOffset rbuf = tcpEnd rbuf := by
    unfold payloadOffset tcpEnd tcpStart
    omega
  have hoffset : (34 + 4 * (thLen rbuf).toNat : Int) = payloadOffset rbuf := by
    unfold payloadOffset
    omega
  unfold OptionsHarmless
  rw [hlengths, hoffset]
  constructor
  · rintro (hfive | hharmless)
    · right
      have hstart : tcpStart rbuf = 34 := by
        rw [tcpStart, hfive]
        rfl
      have hthLen : thLenAfterIp rbuf = thLen rbuf := by
        rw [thLenAfterIp, hfive]
        rfl
      refine ⟨?_, fun i _ => by rw [hstart]⟩
      rw [tcpEnd, hstart, hthLen]
      rfl
    · exact hharmless
  · exact Or.inr

/-- For every unpadded frame: the decoder finds the TCP header and the payload
exactly when options in the IP header are harmless. -/
theorem findsSegment_iff (hframe : TcpFrame rbuf irlen) (pDataDesc : DataDesc) :
    FindsSegment rbuf irlen pDataDesc ↔ OptionsHarmless rbuf irlen := by
  rw [optionsHarmless_iff, FindsSegment]
  rcases pparseGetDataptr_tcp hframe.version hframe.protocol irlen pDataDesc with
    ⟨hshort, hret⟩ | ⟨hlong, hdesc⟩
  · have hfails : (pparseGetDataptr rbuf irlen pDataDesc).1 ≠ 1 := by
      rw [hret]
      decide
    constructor
    · rintro ⟨hret', _⟩
      have hend : ¬ tcpEnd rbuf < irlen.toInt := fun hlt => hfails (hret'.mpr hlt)
      exact Or.inl ⟨by omega, hshort⟩
    · intro hharmless
      have hend : ¬ tcpEnd rbuf < irlen.toInt := by
        rcases hharmless with ⟨hle, _⟩ | ⟨heq, _⟩
        · omega
        · omega
      exact ⟨iff_of_false hfails hend, fun hret' => absurd hret' hfails⟩
  · rw [hdesc]
    simp only [true_iff, forall_const, be16_load, be32_load, toNat_datalen hlong,
      List.cons.injEq, and_true, true_and]
    constructor
    · rintro ⟨_, ⟨hsport, hsport'⟩, ⟨hdport, hdport'⟩, hend, _⟩
      refine Or.inr ⟨hend, ?_⟩
      intro i hi
      interval_cases i
      · exact hsport
      · exact hsport'
      · exact hdport
      · exact hdport'
    · rintro (⟨_, hshort⟩ | ⟨hend, hports⟩)
      · omega
      · rw [hend] at hlong ⊢
        exact ⟨hlong, ⟨hports 0 (by decide), hports 1 (by decide)⟩,
          ⟨hports 2 (by decide), hports 3 (by decide)⟩, rfl, rfl⟩

theorem findsSegment_iff_ping :
    TcpFrame sampleRequest.rbuf 68 ∧
      (FindsSegment sampleRequest.rbuf 68 0 ↔ OptionsHarmless sampleRequest.rbuf 68) := by
  have hframe : TcpFrame sampleRequest.rbuf 68 := by
    constructor <;> decide +kernel
  exact ⟨hframe, findsSegment_iff hframe 0⟩

/-- A segment of one byte behind an IP header of six words. -/
def optionsBytes : List UInt8 :=
  List.replicate 12 0 ++ be16 0x0800 ++
    [0x46, 0] ++ be16 45 ++ [0, 0, 0, 0, 64, 6, 0, 0] ++
    be32 sampleClient.ip ++ be32 sampleServer.ip ++ [1, 1, 1, 0] ++
    be16 sampleClient.port ++ be16 sampleServer.port ++
    List.replicate 8 0 ++ [0x50, 0x18] ++ List.replicate 6 0 ++ [0x2a]

def optionsData : Bytes := fun i => optionsBytes.getD i 0

/-- The options are taken for ports, and the ports and the rest of the TCP
header for payload. -/
theorem findsSegment_options :
    TcpFrame optionsData 59 ∧ (pparseGetDataptr optionsData 59 0).1 = 1 ∧
      (pparseGetDataptr optionsData 59 0).2.dataptr = 34 ∧ tcpEnd optionsData = 58 ∧
      ¬ FindsSegment optionsData 59 0 := by
  have hdataptr : (pparseGetDataptr optionsData 59 0).2.dataptr = 34 := by decide +kernel
  have hret : (pparseGetDataptr optionsData 59 0).1 = 1 := by decide +kernel
  have hend : tcpEnd optionsData = 58 := by decide +kernel
  refine ⟨by constructor <;> decide +kernel, hret, hdataptr, hend, ?_⟩
  rintro ⟨_, hfields⟩
  have hfound := (hfields hret).2.2.2.2.1
  rw [hdataptr, hend] at hfound
  cases hfound

end Decoding

end RedisTrace
