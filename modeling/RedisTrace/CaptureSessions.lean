import RedisTrace.Capture
import RedisTrace.SeenBytes
import RedisTrace.Traffic

/-!
Sessions seen through the capture loop. At a timeout the loop hands the last
packet to `pkt_recv` once more. That does nothing as long as each packet leaves
its connection waiting or is no array: a request renews the item it has just
made, and a reply that is no array is refused. So timeouts may come at any
moment of sessions whose replies are no arrays.
-/

namespace RedisTrace

open CircularList Machine

/-- A frame with this tuple and this payload may come again to a connection in
this slot. -/
def Frame.Rests (f : Frame) : Slot → Prop
  | .idle => f.rbuf f.decoded.2.dataptr ≠ 0x2a
  | .pending _ _ _ _ => f.tuple ≠ f.tuple.swap

/-- If the frame has a connection, its TCP header is whole and it may come again
to its connection as it leaves it. -/
def Frame.Settles (ip : UInt32) (f : Frame) (slots : Conn → Slot) : Prop :=
  ∀ k, f.route ip = some k →
    54 ≤ payloadOffset f.rbuf ∧ f.Rests (f.slotStep (slots k)).1

/-- Handling the last packet again would do nothing. -/
def Watch.Quiet (ip : UInt32) (s : Watch) : Prop :=
  s.passes = true → ∀ want,
    tracker ip (s.frame want) s.slots = (s.slots, none) ∧
      (s.frame want).bufferAfter ip s.slots = s.pktData ∧
      (s.frame want).Readable ip s.slots

section Repeats

variable {ip : UInt32} {f g : Frame} {slots : Conn → Slot} {slot : Slot} {k : Conn}

/-- A frame with the same headers comes from and goes to the same ends. -/
theorem decoded_same (hlen : f.len = g.len) (hsame : ∀ i < 54, f.rbuf i = g.rbuf i) :
    f.decoded = g.decoded := by
  apply decoded_congr hlen
  · rw [ipV, ipV, hsame 14 (by omega)]
  · rw [ipP, ipP, hsame 23 (by omega)]
  · rw [thLen, thLen, hsame 46 (by omega)]
  · exact fun i _ hi => hsame i (by omega)

/-- Up to the first byte of the payload the buffer stays as it is. -/
theorem rbufAfter_before (f : Frame) (slot : Slot) {i : Nat} (hi : i ≤ f.decoded.2.dataptr) :
    f.rbufAfter slot i = f.rbuf i := by
  cases slot with
  | idle =>
      cases hparsed : f.parsed with
      | error e => simp [Frame.rbufAfter, hparsed]
      | ok parsed => simp [Frame.rbufAfter, hparsed, redisCmdParse_buf hparsed hi]
  | pending key cmd sec uSec => rfl

/-- A connection that waits after the frame waits for the other side. -/
theorem slotStep_side {key : PortItem} {cmd : CmdChars} {sec uSec : UInt32}
    (hends : f.tuple ≠ f.tuple.swap)
    (hpending : (f.slotStep slot).1 = .pending key cmd sec uSec) : f.tuple ≠ key := by
  cases slot with
  | idle =>
      change f.opened = _ at hpending
      unfold Frame.opened at hpending
      split at hpending
      · rw [← (Slot.pending.inj hpending).1]
        exact hends
      · cases hpending
  | pending key' cmd' sec' uSec' =>
      rcases eq_or_ne f.tuple key' with hkey | hkey
      · rw [Frame.slotStep_answer hkey] at hpending
        cases hpending
      · rw [Frame.slotStep_renew hkey] at hpending
        rw [← (Slot.pending.inj hpending).1]
        exact hkey

theorem route_congr (hdecoded : g.decoded = f.decoded) : g.route ip = f.route ip := by
  have haccepted : g.Accepted ip ↔ f.Accepted ip := by
    rw [Frame.Accepted, Frame.Accepted, Frame.tuple, Frame.tuple, hdecoded]
  unfold Frame.route
  rw [Frame.tuple, Frame.tuple, hdecoded]
  exact if_congr haccepted rfl rfl

theorem bufferAfter_routed (hroute : f.route ip = some k) :
    f.bufferAfter ip slots = f.rbufAfter (slots k) := by
  rw [Frame.bufferAfter, hroute]

theorem bufferAfter_unrouted (hroute : f.route ip = none) :
    f.bufferAfter ip slots = f.rbuf := by
  rw [Frame.bufferAfter, hroute]

/-- On its own connection a frame does nothing the second time: an item has the
time of the frame already, and a payload that is no array is refused. -/
theorem slotStep_again (hrests : f.Rests (f.slotStep slot).1) (hdecoded : g.decoded = f.decoded)
    (hsec : g.sec = f.sec) (huSec : g.uSec = f.uSec)
    (hfirst : g.rbuf f.decoded.2.dataptr = f.rbuf f.decoded.2.dataptr) :
    g.slotStep (f.slotStep slot).1 = ((f.slotStep slot).1, none) ∧
      g.rbufAfter (f.slotStep slot).1 = g.rbuf ∧
      ((f.slotStep slot).1 = .idle → ∃ parsed, g.parsed = .ok parsed) := by
  cases hafter : (f.slotStep slot).1 with
  | idle =>
      have hother : g.rbuf g.decoded.2.dataptr ≠ 0x2a := by
        rw [hafter] at hrests
        rw [hdecoded, hfirst]
        exact hrests
      have hparsed : g.parsed = .ok ⟨-1, g.rbuf, 0, 0⟩ := redisCmdParse_other hother
      have hret : (-1 : Int32) ≠ 0 := by decide
      have hopened : g.opened = .idle := opened_of_rejected hparsed (.inl hret)
      refine ⟨?_, ?_, fun _ => ⟨_, hparsed⟩⟩
      · rw [Frame.slotStep, hopened]
      · rw [Frame.rbufAfter, hparsed]
  | pending key cmd sec uSec =>
      obtain ⟨rfl, rfl⟩ := slotStep_time hafter
      have hkey : g.tuple ≠ key := by
        rw [hafter] at hrests
        rw [Frame.tuple, hdecoded]
        exact slotStep_side hrests hafter
      refine ⟨?_, rfl, fun hidle => by cases hidle⟩
      rw [Frame.slotStep_renew hkey, hsec, huSec]

/-- A frame that settles does nothing the second time, with what the first time
has left of its buffer. -/
theorem repeated_settled (hsettles : f.Settles ip slots) (hlen : g.len = f.len)
    (hsec : g.sec = f.sec) (huSec : g.uSec = f.uSec) (hrbuf : g.rbuf = f.bufferAfter ip slots) :
    tracker ip g (tracker ip f slots).1 = ((tracker ip f slots).1, none) ∧
      g.bufferAfter ip (tracker ip f slots).1 = g.rbuf ∧
      g.Readable ip (tracker ip f slots).1 := by
  cases hroute : f.route ip with
  | none =>
      rw [bufferAfter_unrouted hroute] at hrbuf
      have hroute' : g.route ip = none := by
        rw [route_congr (decoded_same hlen (fun i _ => by rw [hrbuf])), hroute]
      refine ⟨family_unrouted _ hroute', bufferAfter_unrouted hroute', ?_⟩
      intro k hk
      rw [hroute'] at hk
      cases hk
  | some k =>
      rw [bufferAfter_routed hroute] at hrbuf
      obtain ⟨hheader, hrests⟩ := hsettles k hroute
      obtain ⟨haccepted, _⟩ := accepted_of_route hroute
      have hdata : 54 ≤ f.decoded.2.dataptr := by
        rw [decoded_desc haccepted.1]
        exact hheader
      have hbefore : ∀ i ≤ f.decoded.2.dataptr, g.rbuf i = f.rbuf i := by
        intro i hi
        rw [hrbuf, rbufAfter_before f (slots k) hi]
      have hdecoded : g.decoded = f.decoded :=
        decoded_same hlen (fun i hi => hbefore i (by omega))
      have hroute' : g.route ip = some k := by rw [route_congr hdecoded, hroute]
      obtain ⟨hstep, hbuffer, hparsed⟩ :=
        slotStep_again hrests hdecoded hsec huSec (hbefore _ le_rfl)
      have hslot : (tracker ip f slots).1 k = (f.slotStep (slots k)).1 := family_self slots hroute
      rw [← hslot] at hstep hbuffer hparsed
      refine ⟨?_, ?_, ?_⟩
      · apply tracker_unmoved
        intro k' hk'
        rw [hroute'] at hk'
        rw [← Option.some.inj hk', hstep]
      · rw [bufferAfter_routed hroute', hbuffer]
      · intro k' hk' hidle
        rw [hroute'] at hk'
        obtain rfl := Option.some.inj hk'
        exact hparsed hidle

end Repeats

section Loop

variable {ip : UInt32} {r : Round} {rounds : List Round} {s : Watch}

/-- A timeout in a quiet loop changes nothing. -/
theorem quiet_timeout (hquiet : s.Quiet ip) (hnext : r.next = .timeout) :
    r.Readable ip s ∧ r.Harmless ip s ∧ (watchStep ip r s).1 = s := by
  have hfetch : s.fetch r.next = s := by
    rw [hnext]
    rfl
  cases hpasses : s.passes with
  | true =>
      obtain ⟨hsame, hbuffer, hreadable⟩ := hquiet hpasses r.want
      refine ⟨?_, .inr (.inr hsame), ?_⟩
      · intro _
        rw [hfetch]
        exact hreadable
      · rw [watchStep_called ip (by rw [hfetch, hpasses]), hfetch, hsame, hbuffer]
  | false =>
      refine ⟨?_, .inr (.inl hpasses), ?_⟩
      · intro hcalled
        rw [hfetch, hpasses] at hcalled
        cases hcalled
      · rw [watchStep_skipped ip (by rw [hfetch, hpasses]), hfetch]

/-- A packet that settles, or that does not pass, leaves the loop quiet. -/
theorem quiet_packet {header : PcapPkthdr} {pktData : Bytes}
    (hnext : r.next = .packet header pktData)
    (hframe : ∀ f, r.frame = some f → f.Readable ip s.slots ∧ f.Settles ip s.slots) :
    r.Readable ip s ∧ (watchStep ip r s).1.Quiet ip := by
  have hfetch : s.fetch r.next = {s with header := header, pktData := pktData} := by
    rw [hnext]
    rfl
  cases hpasses : passes header pktData with
  | true =>
      have hcalled : (s.fetch r.next).passes = true := by
        rw [hfetch]
        exact hpasses
      have hr : r.frame = some (packetFrame header pktData r.want) := by
        simp [Round.frame, hnext, hpasses]
      obtain ⟨hreadable, hsettles⟩ := hframe _ hr
      refine ⟨?_, ?_⟩
      · intro _
        rw [hfetch]
        exact hreadable
      · rw [watchStep_called ip hcalled, hfetch]
        intro _ want
        exact repeated_settled hsettles rfl rfl rfl rfl
  | false =>
      have hskipped : (s.fetch r.next).passes = false := by
        rw [hfetch]
        exact hpasses
      refine ⟨?_, ?_⟩
      · intro hcalled
        rw [hskipped] at hcalled
        cases hcalled
      · rw [watchStep_skipped ip hskipped]
        intro hcalled
        rw [hskipped] at hcalled
        cases hcalled

/-- Rounds whose frames settle can be read, and their timeouts do no harm; the
induction is on the rounds. -/
theorem settled_run (rounds : List Round) (s : Watch) (hquiet : s.Quiet ip)
    (hsettles : Along (tracker ip) (fun f slots => f.Readable ip slots ∧ f.Settles ip slots)
      (framesIn rounds) s.slots) :
    Along (watchStep ip) (Round.Readable ip) rounds s ∧
      Along (watchStep ip) (Round.Harmless ip) rounds s := by
  induction rounds generalizing s with
  | nil => exact ⟨trivial, trivial⟩
  | cons r rounds ih =>
      cases hnext : r.next with
      | timeout =>
          obtain ⟨hreadable, hharmless, hsame⟩ := quiet_timeout hquiet hnext
          have hframes : framesIn (r :: rounds) = framesIn rounds :=
            List.filterMap_cons_none (by simp [Round.frame, hnext])
          rw [hframes] at hsettles
          obtain ⟨hreadables, hharmlesses⟩ := ih s hquiet hsettles
          refine ⟨⟨hreadable, ?_⟩, hharmless, ?_⟩
          · rw [hsame]
            exact hreadables
          · rw [hsame]
            exact hharmlesses
      | packet header pktData =>
          have hharmless : r.Harmless ip s := .inl (by simp [Round.delivers, hnext])
          have hfirst : ∀ f, r.frame = some f → f.Readable ip s.slots ∧ f.Settles ip s.slots := by
            intro f hf
            rw [framesIn, List.filterMap_cons_some hf] at hsettles
            exact hsettles.1
          have hrest : Along (tracker ip) (fun f slots => f.Readable ip slots ∧ f.Settles ip slots)
              (framesIn rounds) (watchStep ip r s).1.slots := by
            rcases watchStep_harmless hharmless with ⟨hframe, _, hslots⟩ | ⟨f, hframe, _, hslots⟩
            · rw [framesIn, List.filterMap_cons_none hframe] at hsettles
              rw [hslots]
              exact hsettles
            · rw [framesIn, List.filterMap_cons_some hframe] at hsettles
              rw [hslots]
              exact hsettles.2
          obtain ⟨hreadable, hquiet'⟩ := quiet_packet hnext hfirst
          obtain ⟨hreadables, hharmlesses⟩ := ih _ hquiet' hrest
          exact ⟨⟨hreadable, hreadables⟩, hharmless, hharmlesses⟩

end Loop

section Sessions

variable {ι : Type} {ip : UInt32} {clients : Clients ι ip} {after : ι → Option Outstanding}
  {rounds : List Round} {reports : List (Option Report)}

/-- What has to be so for timeouts to do no harm to sessions: TCP headers are
whole, there is memory for every command, and what comes from the server's side
is no array. -/
structure Clients.Tame (clients : Clients ι ip) (f : Frame) : Prop where
  header : 5 ≤ (thLen f.rbuf).toNat
  memory : f.command.isSome → f.want.isSome
  plain : ∀ i, f.tuple = tupleOf (clients.server i) (clients.client i) →
    f.rbuf f.decoded.2.dataptr ≠ 0x2a

/-- A waiting session may be asked again. -/
theorem rests_waiting {f : Frame} {i : ι} {payload : List UInt8} {request : Outstanding}
    (hsides : clients.client i ≠ clients.server i)
    (hf : f.Delivers (clients.client i) (clients.server i) payload) :
    f.Rests (clients.slot i (some request)) := by
  change f.tuple ≠ f.tuple.swap
  rw [hf.tuple_eq]
  exact tupleOf_ne_swap hsides

theorem Clients.Meets.settles {f : Frame} {slots : Conn → Slot} (hmeets : clients.Meets f slots)
    (hsides : ∀ i, clients.client i ≠ clients.server i)
    (htame : f.Accepted ip → clients.Tame f) : f.Settles ip slots := by
  intro k hk
  obtain ⟨haccepted, hconn⟩ := accepted_of_route hk
  obtain ⟨hheader, hmemory, hplain⟩ := htame haccepted
  refine ⟨by unfold payloadOffset; omega, ?_⟩
  cases hmeets with
  | @request i c slot delivers =>
      have hle := c.name_le
      have hcommand := command_request delivers c.name_pos (by omega) c.name_nul c.name_crlf
      have hwant : f.want.isSome := hmemory (by rw [hcommand]; rfl)
      rw [route_request delivers] at hk
      have hslot : slots s(clients.client i, clients.server i) = clients.slot i none := slot
      rw [← Option.some.inj hk, hslot, slotStep_request delivers hwant]
      exact rests_waiting (hsides i) delivers
  | @repeated i payload request sides slot delivers =>
      rw [route_request delivers] at hk
      rw [← Option.some.inj hk, slot, slotStep_repeated request sides delivers]
      exact rests_waiting sides delivers
  | @reply i payload request slot delivers =>
      rw [route_reply delivers] at hk
      rw [← Option.some.inj hk, slot, slotStep_reply request delivers]
      exact hplain i delivers.tuple_eq
  | @stray src dst payload slot head delivers =>
      rw [delivers.tuple_eq] at hconn
      rw [← hconn]
      change f.Rests (f.slotStep (slots s(src, dst))).1
      rw [slot, slotStep_plain delivers head]
      exact payload_plain delivers head
  | refused away => exact absurd haccepted away

/-- Noisy sessions settle, so their timeouts do no harm. -/
theorem Noisy.harmless [DecidableEq ι]
    (hnoisy : Noisy clients noneOutstanding (framesIn rounds) reports after)
    (hsides : ∀ i, clients.client i ≠ clients.server i)
    (htame : ∀ f ∈ framesIn rounds, f.Accepted ip → clients.Tame f) :
    Along (watchStep ip) (Round.Readable ip) rounds noPacket ∧
      Along (watchStep ip) (Round.Harmless ip) rounds noPacket := by
  obtain ⟨hmeets, _, _⟩ := hnoisy.run_tracker (expected_allIdle clients)
  apply settled_run rounds noPacket (fun hpasses => by cases hpasses)
  apply hmeets.mono_mem
  intro f hf slots h
  refine ⟨?_, h.settles hsides (htame f hf)⟩
  intro k hk hidle
  exact (h.nameFits k hk hidle).imp (fun _ hfits => hfits.1)

/-- Timeouts may come at every moment and as often as they like, and so may
packets that the loop skips: of noisy sessions the loop reports exactly the
requests that are answered, as long as there is memory for commands and nothing
that an answering side sends is an array; and when no request is outstanding the
table is empty. -/
theorem capture_noisy [DecidableEq ι] (clients : Clients ι ip)
    (hnoisy : Noisy clients noneOutstanding (framesIn rounds) reports after)
    (hsides : ∀ i, clients.client i ≠ clients.server i)
    (htame : ∀ f ∈ framesIn rounds, f.Accepted ip → clients.Tame f) :
    ∃ outs c m, capture ip rounds = .ok (outs, c) ∧ PortTable c.world m ∧
      reported outs = reports.reduceOption ∧ (after = noneOutstanding → m = PortMap.empty) := by
  obtain ⟨_, hreports, hend⟩ := hnoisy.run_tracker (expected_allIdle clients)
  obtain ⟨hreadable, hharmless⟩ := hnoisy.harmless hsides htame
  obtain ⟨c, hcapture, _, _, m, ht, hslots⟩ := capture_run ip rounds hreadable
  obtain ⟨hrun, hreported⟩ := watch_run ip rounds noPacket hharmless
  refine ⟨_, c, m, hcapture, ht, ?_, ?_⟩
  · rw [hreported, answers]
    exact congrArg List.reduceOption hreports
  · rintro rfl
    funext key
    have hslot := hslots key.conn
    have hidle : (run (tracker ip) (framesIn rounds) noPacket.slots).1 key.conn = .idle :=
      hend.all_idle _
    rw [hrun, hidle] at hslot
    exact hslot key rfl

end Sessions

section Sample

/-- PING, an acknowledgement, the reply, and a timeout after each. -/
def pingRounds : List Round :=
  [sampleRound sampleClient sampleServer (respArray [[0x50, 0x49, 0x4e, 0x47]]) 100,
    ⟨.timeout, some 0⟩,
    sampleRound sampleServer sampleClient [] 100,
    ⟨.timeout, some 0⟩,
    sampleRound sampleServer sampleClient [0x2b, 0x4f, 0x4b, 0x0d, 0x0a] 101,
    ⟨.timeout, some 0⟩]

def pingFrame : Frame :=
  segmentFrame sampleClient sampleServer (respArray [[0x50, 0x49, 0x4e, 0x47]]) 100 0 (some 0)

def ackFrame : Frame := segmentFrame sampleServer sampleClient [] 100 0 (some 0)

theorem framesIn_pingRounds : framesIn pingRounds = [pingFrame, ackFrame, sampleReply] := rfl

def pingClients : Clients Unit sampleServer.ip :=
  ⟨fun _ => sampleClient, fun _ => sampleServer, fun _ => Or.inr rfl, fun _ _ _ => rfl⟩

def pingRequest : Outstanding := ⟨[0x50, 0x49, 0x4e, 0x47], 100, 0⟩

def pingAfter : Unit → Option Outstanding :=
  Function.update (Function.update noneOutstanding () (some pingRequest)) () none

theorem pingFrame_delivers : pingFrame.Delivers sampleClient sampleServer
    (respArray [[0x50, 0x49, 0x4e, 0x47]]) :=
  segmentFrame_delivers _ _ _ _ _ _ (respArray_ne_nil _) (by decide)

theorem ackFrame_refused : ¬ ackFrame.Accepted sampleServer.ip := by decide +kernel

theorem sampleReply_delivers :
    sampleReply.Delivers sampleServer sampleClient [0x2b, 0x4f, 0x4b, 0x0d, 0x0a] :=
  segmentFrame_delivers _ _ _ _ _ _ (by decide) (by decide)

theorem pingRounds_noisy : Noisy pingClients noneOutstanding (framesIn pingRounds)
    [none, none, some (pingClients.report () pingRequest sampleReply)] pingAfter := by
  let ping : Command :=
    ⟨[0x50, 0x49, 0x4e, 0x47], [], by decide, by decide, by decide, by decide, by decide,
      by decide⟩
  rw [framesIn_pingRounds]
  exact .request (i := ()) (c := ping) rfl pingFrame_delivers rfl
    (.refused ackFrame_refused (.reply (i := ()) rfl sampleReply_delivers (.nil _)))

theorem pingClients_sides : ∀ i, pingClients.client i ≠ pingClients.server i := fun _ =>
  (by decide : sampleClient ≠ sampleServer)

theorem pingRounds_tame :
    ∀ f ∈ framesIn pingRounds, f.Accepted sampleServer.ip → pingClients.Tame f := by
  intro f hf haccepted
  rw [framesIn_pingRounds] at hf
  simp only [List.mem_cons, List.not_mem_nil, or_false] at hf
  rcases hf with rfl | rfl | rfl
  · refine ⟨by decide +kernel, fun _ => rfl, ?_⟩
    intro _ htuple
    rw [pingFrame_delivers.tuple_eq] at htuple
    have hother : tupleOf sampleClient sampleServer ≠ tupleOf sampleServer sampleClient := by
      decide
    exact absurd htuple hother
  · exact absurd haccepted ackFrame_refused
  · refine ⟨by decide +kernel, fun _ => rfl, ?_⟩
    intro _ _
    exact payload_plain sampleReply_delivers (by decide)

/-- The timeouts handle each packet once more. -/
theorem capture_noisy_ping :
    ∃ outs c m, capture sampleServer.ip pingRounds = .ok (outs, c) ∧ PortTable c.world m ∧
      reported outs =
        [none, none, some (pingClients.report () pingRequest sampleReply)].reduceOption ∧
      (pingAfter = noneOutstanding → m = PortMap.empty) :=
  capture_noisy pingClients pingRounds_noisy pingClients_sides pingRounds_tame

end Sample

end RedisTrace
