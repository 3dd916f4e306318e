import RedisTrace.HeaderLengths

/-!
Truncated captures. Of a packet longer than the snapshot length only the first
`caplen` bytes are in memory, but `main` passes on `len`, the length on the
wire.
-/

namespace RedisTrace

/-- A packet that the loop passes on. `pcap` never captures more than there is. -/
structure PassedOn (header : PcapPkthdr) (pktData : Bytes) : Prop where
  passed : passes header pktData = true
  captured : header.caplen ≤ header.len

/-- What the decoder takes for payload has been captured, and there is some. -/
def SliceCaptured (header : PcapPkthdr) (pktData : Bytes) (want : Option Nat) : Prop :=
  let f := packetFrame header pktData want
  f.decoded.1 = 1 →
    0 < f.decoded.2.uidatalen.toNat ∧
      f.decoded.2.dataptr + f.decoded.2.uidatalen.toNat ≤ header.caplen.toNat

/-- The whole packet has been captured, or it is no IPv4/TCP packet, or not
longer, as an `int`, than its headers seem to be. -/
def CompleteOrRefused (header : PcapPkthdr) (pktData : Bytes) : Prop :=
  header.caplen = header.len ∨ ipV pktData ≠ 4 ∨ ipP pktData ≠ 6 ∨
    header.len.toInt32.toInt ≤ 34 + 4 * (thLen pktData).toNat

section Slices

variable {header : PcapPkthdr} {pktData : Bytes}

/-- The payload goes from the headers to the end of the packet. -/
theorem slice_eq {f : Frame} (hok : f.decoded.1 = 1) :
    0 < f.decoded.2.uidatalen.toNat ∧
      ((f.decoded.2.dataptr + f.decoded.2.uidatalen.toNat : Nat) : Int) = f.len.toInt := by
  have hlong := (decoded_ok_iff.mp hok).2.2
  have hdatalen := toNat_datalen hlong
  rw [decoded_desc hok]
  dsimp only
  omega

/-- For every packet that the loop passes on: what is taken for its payload has
been captured exactly when the packet is complete or refused. -/
theorem sliceCaptured_iff (hpassed : PassedOn header pktData) (want : Option Nat) :
    SliceCaptured header pktData want ↔ CompleteOrRefused header pktData := by
  have hcaptured := UInt32.le_iff_toNat_le.mp hpassed.captured
  by_cases hok : (packetFrame header pktData want).decoded.1 = 1
  · obtain ⟨hsome, hend⟩ := slice_eq hok
    obtain ⟨hversion, hprotocol, hlong⟩ := decoded_ok_iff.mp hok
    have hwire : ((packetFrame header pktData want).len.toUInt32.toNat : Int) =
        (packetFrame header pktData want).len.toInt := toNat_toUInt32_of_nonneg (by omega)
    change (header.len.toNat : Int) = _ at hwire
    constructor
    · intro hslice
      obtain ⟨_, hinside⟩ := hslice hok
      exact Or.inl (UInt32.toNat_inj.mp (by omega))
    · rintro (hcomplete | hother | hother | hshort)
      · intro _
        rw [hcomplete]
        exact ⟨hsome, by omega⟩
      · exact absurd hversion hother
      · exact absurd hprotocol hother
      · change (payloadOffset pktData : Int) < header.len.toInt32.toInt at hlong
        unfold payloadOffset at hlong
        omega
  · refine iff_of_true (fun hok' => absurd hok' hok) (Or.inr ?_)
    rw [decoded_ok_iff, not_and_or, not_and_or, not_lt] at hok
    exact hok

/-- A complete packet. -/
theorem sliceCaptured_iff_complete :
    PassedOn ⟨100, 0, 68, 68⟩ sampleRequest.rbuf ∧
      (SliceCaptured ⟨100, 0, 68, 68⟩ sampleRequest.rbuf none ↔
        CompleteOrRefused ⟨100, 0, 68, 68⟩ sampleRequest.rbuf) := by
  have hpassed : PassedOn ⟨100, 0, 68, 68⟩ sampleRequest.rbuf := by
    constructor <;> decide +kernel
  exact ⟨hpassed, sliceCaptured_iff hpassed none⟩

/-- The longest IP packet there is, of which `pcap` captures 65536 bytes. -/
def longHeader : PcapPkthdr := ⟨100, 0, 65536, 65549⟩

def longData : Bytes := fun i => (segmentHeader sampleClient sampleServer 65495).getD i 0

theorem sliceCaptured_truncated :
    PassedOn longHeader longData ∧
      (packetFrame longHeader longData none).decoded.1 = 1 ∧
      ¬ SliceCaptured longHeader longData none := by
  have hok : (packetFrame longHeader longData none).decoded.1 = 1 := by decide +kernel
  have hend : (packetFrame longHeader longData none).decoded.2.dataptr +
      (packetFrame longHeader longData none).decoded.2.uidatalen.toNat = 65549 := by
    decide +kernel
  refine ⟨by constructor <;> decide +kernel, hok, ?_⟩
  intro hslice
  obtain ⟨_, hinside⟩ := hslice hok
  rw [hend] at hinside
  revert hinside
  decide

end Slices

end RedisTrace
