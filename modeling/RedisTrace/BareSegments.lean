import RedisTrace.Capture
import RedisTrace.Resp

/-!
TCP segments without payload. `pparse_get_dataptr` looks for payload up to the
length of the Ethernet frame and never reads the length of the IP datagram, so
what an Ethernet driver pads a short frame with counts as payload.
-/

namespace RedisTrace

open CircularList Run Machine

/-- `ipp->ip_hl`, the low bits of the first byte of the IP header. -/
def ipHl (rbuf : Bytes) : UInt8 := rbuf 14 &&& 0x0f

/-- `ipp->ip_len` in host order. -/
def ipLen (rbuf : Bytes) : UInt16 := pktSwapu16 (load16 rbuf 16)

/-- `th_len` where the TCP header really is, behind the options of IP. -/
def thLenAfterIp (rbuf : Bytes) : UInt8 := rbuf (14 + 4 * (ipHl rbuf).toNat + 12) >>> 4

/-- A frame that the loop passes on and whose datagram ends with the TCP
header. What follows the datagram is arbitrary. -/
structure BareSegment (header : PcapPkthdr) (pktData : Bytes) : Prop where
  passed : passes header pktData = true
  version : ipV pktData = 4
  protocol : ipP pktData = 6
  ipHeader : 5 ≤ (ipHl pktData).toNat
  tcpHeader : 5 ≤ (thLenAfterIp pktData).toNat
  bare : (ipLen pktData).toNat =
    4 * (ipHl pktData).toNat + 4 * (thLenAfterIp pktData).toNat
  complete : 14 + (ipLen pktData).toNat ≤ header.len.toNat

/-- `pkt_recv` reports nothing and leaves the table as it was. -/
def NoEffect (ip : UInt32) (f : Frame) (w : PortWorld) (m : PortMap) : Prop :=
  ∃ received w', (f.recv ip).run w = .ok (received, w') ∧ received.report = none ∧
    PortTable w' m

/-- The frame is not longer than its headers seem to be, or is of no interest,
or does not meet a pending request and is not taken for one. A frame that
repeats a request at the very time the request already has changes nothing
either. -/
def Ignored (ip : UInt32) (f : Frame) (m : PortMap) : Prop :=
  f.len.toInt ≤ payloadOffset f.rbuf ∨ (f.tuple.sip ≠ ip ∧ f.tuple.dip ≠ ip) ∨
    (m f.tuple = none ∧
      ((∃ c, m f.tuple.swap = some c ∧ c.sec = f.sec ∧ c.uSec = f.uSec) ∨
        (m f.tuple.swap = none ∧
          ∃ parsed, f.parsed = .ok parsed ∧ (parsed.ret ≠ 0 ∨ f.want = none))))

section Effects

variable {ip : UInt32} {f : Frame} {w : PortWorld} {m : PortMap}

theorem refused_iff (hversion : ipV f.rbuf = 4) (hprotocol : ipP f.rbuf = 6) :
    ¬ f.Accepted ip ↔
      f.len.toInt ≤ payloadOffset f.rbuf ∨ (f.tuple.sip ≠ ip ∧ f.tuple.dip ≠ ip) := by
  rw [Frame.Accepted, decoded_ok_iff]
  simp only [hversion, hprotocol, true_and, not_and_or, not_lt, not_or, ne_eq]

theorem noEffect_of_ignored (ht : PortTable w m) (hversion : ipV f.rbuf = 4)
    (hprotocol : ipP f.rbuf = 6) (hignored : Ignored ip f m) : NoEffect ip f w m := by
  by_cases haccepted : f.Accepted ip
  · rcases hignored with hshort | haway | ⟨hnone, hswap⟩
    · exact absurd haccepted ((refused_iff hversion hprotocol).mpr (Or.inl hshort))
    · exact absurd haccepted ((refused_iff hversion hprotocol).mpr (Or.inr haway))
    · rcases hswap with ⟨c, hc, hsec, huSec⟩ | ⟨hnone', parsed, hparsed, hret⟩
      · obtain ⟨w', hrun, ht'⟩ := recv_repeat ht haccepted hnone hc
        have hsame : {c with sec := f.sec, uSec := f.uSec} = c := by
          rw [← hsec, ← huSec]
        rw [hsame, ← hc, Function.update_eq_self] at ht'
        exact ⟨_, w', hrun, rfl, ht'⟩
      · rcases eq_or_ne parsed.ret 0 with hzero | hnonzero
        · have hwant : f.want = none := hret.resolve_left (fun hne => hne hzero)
          obtain ⟨w', hrun, ht'⟩ :=
            recv_unstored ht haccepted hnone hnone' hparsed hzero hwant
          exact ⟨_, w', hrun, rfl, ht'⟩
        · obtain ⟨w', hrun, ht'⟩ := recv_unparsed ht haccepted hnone hnone' hparsed hnonzero
          exact ⟨_, w', hrun, rfl, ht'⟩
  · exact ⟨_, w, recv_refused haccepted, rfl, ht⟩

/-- The answers and the tables of two runs that end in `.ok` agree. -/
theorem NoEffect.elim {received : Received} {w' : PortWorld} {m' : PortMap}
    (hnone : NoEffect ip f w m) (hrun : (f.recv ip).run w = .ok (received, w'))
    (ht' : PortTable w' m') : received.report = none ∧ m' = m := by
  obtain ⟨received₁, w₁, hrun₁, hreport, ht₁⟩ := hnone
  rw [hrun] at hrun₁
  obtain ⟨rfl, rfl⟩ := Prod.mk.inj (Except.ok.inj hrun₁)
  exact ⟨hreport, ht'.unique ht₁⟩

theorem ignored_of_noEffect (ht : PortTable w m) (hversion : ipV f.rbuf = 4)
    (hprotocol : ipP f.rbuf = 6) (hnoEffect : NoEffect ip f w m) : Ignored ip f m := by
  by_cases haccepted : f.Accepted ip
  · cases hc : m f.tuple with
    | some c =>
        obtain ⟨w', hrun, ht'⟩ := recv_reply ht haccepted hc
        cases (hnoEffect.elim hrun ht').1
    | none =>
        refine Or.inr (Or.inr ⟨hc, ?_⟩)
        cases hc' : m f.tuple.swap with
        | some c =>
            obtain ⟨w', hrun, ht'⟩ := recv_repeat ht haccepted hc hc'
            have hsame := congrFun (hnoEffect.elim hrun ht').2 f.tuple.swap
            rw [Function.update_self, hc', Option.some.injEq] at hsame
            exact Or.inl ⟨c, rfl, by rw [← hsame], by rw [← hsame]⟩
        | none =>
            refine Or.inr ⟨rfl, ?_⟩
            cases hparsed : f.parsed with
            | error e =>
                obtain ⟨_, _, hrun, _⟩ := hnoEffect
                rw [recv_fault ht haccepted hc hc' hparsed] at hrun
                cases hrun
            | ok parsed =>
                refine ⟨parsed, rfl, ?_⟩
                by_contra hstored
                push Not at hstored
                obtain ⟨want, hwant⟩ := Option.ne_none_iff_exists'.mp hstored.2
                obtain ⟨w', a, hrun, _, ht'⟩ :=
                  recv_request ht haccepted hc hc' hparsed hstored.1 hwant
                have hsame := congrFun (hnoEffect.elim hrun ht').2 f.tuple.swap
                rw [Function.update_self, hc'] at hsame
                cases hsame
  · rcases (refused_iff hversion hprotocol).mp haccepted with hshort | haway
    · exact Or.inl hshort
    · exact Or.inr (Or.inl haway)

/-- Without options in the IP header, the headers end where the datagram does. -/
theorem BareSegment.payloadOffset_eq {header : PcapPkthdr} {pktData : Bytes}
    (hbare : BareSegment header pktData) (hoptions : ipHl pktData = 5) :
    payloadOffset pktData = 14 + (ipLen pktData).toNat := by
  have hthLen : thLenAfterIp pktData = thLen pktData := by
    rw [thLenAfterIp, hoptions]
    rfl
  have htotal := hbare.bare
  rw [hthLen, hoptions] at htotal
  have hfive : (5 : UInt8).toNat = 5 := rfl
  unfold payloadOffset
  omega

/-- So an unpadded segment is ignored. -/
theorem BareSegment.ignored_of_unpadded {header : PcapPkthdr} {pktData : Bytes}
    (hbare : BareSegment header pktData) (hoptions : ipHl pktData = 5)
    (hlen : header.len.toNat = 14 + (ipLen pktData).toNat) (want : Option Nat) :
    Ignored ip (packetFrame header pktData want) m := by
  left
  have hbound := (ipLen pktData).toNat_lt
  have hofNat : header.len.toInt32 = Int32.ofNat header.len.toNat := by
    rw [← UInt32.toInt32_ofNat', UInt32.ofNat_toNat]
  have hint : header.len.toInt32.toInt = header.len.toNat := by
    rw [hofNat]
    exact Int32.toInt_ofNat_of_lt (by omega)
  change header.len.toInt32.toInt ≤ payloadOffset pktData
  rw [hint, hbare.payloadOffset_eq hoptions, hlen]

/-- For every table, every segment without payload and whatever pads it: the
segment has no effect exactly when it is ignored. -/
theorem bareSegment_noEffect_iff {header : PcapPkthdr} {pktData : Bytes}
    (ht : PortTable w m) (hbare : BareSegment header pktData) (want : Option Nat) :
    NoEffect ip (packetFrame header pktData want) w m ↔
      Ignored ip (packetFrame header pktData want) m :=
  ⟨ignored_of_noEffect ht hbare.version hbare.protocol,
    noEffect_of_ignored ht hbare.version hbare.protocol⟩

/-- The bare segment from the server at `sec`, as a frame of `len` bytes. -/
def bareHeader (sec : Int64) (len : UInt32) : PcapPkthdr := ⟨sec, 0, len, len⟩

def bareData : Bytes := fun i => (segmentHeader sampleServer sampleClient 0).getD i 0

theorem bareSegment_padded : BareSegment (bareHeader 101 60) bareData := by
  constructor <;> decide +kernel

theorem bareSegment_noEffect_iff_padded :
    ∃ w, PortTable w PortMap.empty ∧
      (NoEffect sampleServer.ip (packetFrame (bareHeader 101 60) bareData none) w
          PortMap.empty ↔
        Ignored sampleServer.ip (packetFrame (bareHeader 101 60) bareData none)
          PortMap.empty) := by
  obtain ⟨w, _, ht⟩ := portVHashInit_run
  exact ⟨w, ht, bareSegment_noEffect_iff ht bareSegment_padded none⟩

/-- Six bytes of padding turn the acknowledgement of a PING into its reply. -/
theorem noEffect_padded :
    ∃ outs w m, (pktTrace sampleServer.ip [sampleRequest]).run (vhashInit enVHashMoudleMax) =
        .ok (outs, w) ∧ PortTable w m ∧ BareSegment (bareHeader 101 60) bareData ∧
      ¬ NoEffect sampleServer.ip (packetFrame (bareHeader 101 60) bareData none) w m := by
  let f : Frame := packetFrame (bareHeader 101 60) bareData none
  have hpending : (run (tracker sampleServer.ip) [sampleRequest] allIdle).1 f.tuple.conn =
      .pending f.tuple (storedName [0x50, 0x49, 0x4e, 0x47]) 100 0 := by decide +kernel
  obtain ⟨outs, w, m, a, hrun, ht, hcell⟩ := pktTrace_pending (by decide +kernel) hpending
  refine ⟨outs, w, m, hrun, ht, bareSegment_padded, ?_⟩
  intro hnone
  have haccepted : f.Accepted sampleServer.ip := by decide +kernel
  obtain ⟨w', hreply, ht'⟩ := recv_reply ht haccepted hcell
  cases (hnone.elim hreply ht').1

end Effects

end RedisTrace
