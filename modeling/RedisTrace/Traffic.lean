import RedisTrace.ReportNames
import RedisTrace.Sessions

/-!
Sessions as they are on a real wire. Requests and replies are sent again before
they are acknowledged, acknowledgements come with padding and without, `malloc`
may have nothing left for an item, and there is other traffic beside the
sessions. What is reported is still one line for each stored request that is
answered. The answer is the first packet of the other side in which the tracer
finds data or padding. Only an array that is neither a request nor an answer
must not come, such as an array reply that is sent again.
-/

namespace RedisTrace

open CircularList Run Machine

variable {ι : Type} {ip : UInt32}

/-- What the side of a request sends while it waits, the request again or
anything else, gives it its time. -/
def Outstanding.again (request : Outstanding) (f : Frame) : Outstanding :=
  {request with sec := f.sec, uSec := f.uSec}

/-- `Noisy clients before frames reports after`: like `Strict`, with noise. A
request for which there is no memory is not outstanding; while one is, its side
may send more; what else comes on a connection without one, or on other
connections, is no array; and what `pkt_recv` refuses may come at any time, such
as acknowledgements without padding, UDP and packets between other hosts. -/
inductive Noisy [DecidableEq ι] (clients : Clients ι ip) :
    (ι → Option Outstanding) → List Frame → List (Option Report) →
      (ι → Option Outstanding) → Prop where
  | nil (before : ι → Option Outstanding) : Noisy clients before [] [] before
  | request {before after : ι → Option Outstanding} {i : ι} {f : Frame} {c : Command}
      {frames : List Frame} {reports : List (Option Report)}
      (free : before i = none)
      (delivers : f.Delivers (clients.client i) (clients.server i) c.bytes)
      (allocated : f.want.isSome)
      (rest : Noisy clients
        (Function.update before i (some ⟨c.name, f.sec, f.uSec⟩)) frames reports after) :
      Noisy clients before (f :: frames) (none :: reports) after
  | unstored {before after : ι → Option Outstanding} {i : ι} {f : Frame} {c : Command}
      {frames : List Frame} {reports : List (Option Report)}
      (free : before i = none)
      (delivers : f.Delivers (clients.client i) (clients.server i) c.bytes)
      (failed : f.want = none) (rest : Noisy clients before frames reports after) :
      Noisy clients before (f :: frames) (none :: reports) after
  | repeated {before after : ι → Option Outstanding} {i : ι} {f : Frame}
      {payload : List UInt8} {request : Outstanding}
      {frames : List Frame} {reports : List (Option Report)}
      (sides : clients.client i ≠ clients.server i)
      (waiting : before i = some request)
      (delivers : f.Delivers (clients.client i) (clients.server i) payload)
      (rest : Noisy clients (Function.update before i (some (request.again f)))
        frames reports after) :
      Noisy clients before (f :: frames) (none :: reports) after
  | reply {before after : ι → Option Outstanding} {i : ι} {f : Frame}
      {payload : List UInt8} {request : Outstanding}
      {frames : List Frame} {reports : List (Option Report)}
      (waiting : before i = some request)
      (delivers : f.Delivers (clients.server i) (clients.client i) payload)
      (rest : Noisy clients (Function.update before i none) frames reports after) :
      Noisy clients before (f :: frames) (some (clients.report i request f) :: reports) after
  | stray {before after : ι → Option Outstanding} {f : Frame} {src dst : Endpoint}
      {payload : List UInt8} {frames : List Frame} {reports : List (Option Report)}
      (free : ∀ i, s(src, dst) = s(clients.client i, clients.server i) → before i = none)
      (head : payload.head? ≠ some 0x2a) (delivers : f.Delivers src dst payload)
      (rest : Noisy clients before frames reports after) :
      Noisy clients before (f :: frames) (none :: reports) after
  | refused {before after : ι → Option Outstanding} {f : Frame} {frames : List Frame}
      {reports : List (Option Report)} (away : ¬ f.Accepted ip)
      (rest : Noisy clients before frames reports after) :
      Noisy clients before (f :: frames) (none :: reports) after

/-- How a frame of noisy sessions finds its connection. -/
inductive Clients.Meets (clients : Clients ι ip) (f : Frame) (slots : Conn → Slot) : Prop where
  | request {i : ι} {c : Command} (slot : slots s(clients.client i, clients.server i) = .idle)
      (delivers : f.Delivers (clients.client i) (clients.server i) c.bytes)
  | repeated {i : ι} {payload : List UInt8} {request : Outstanding}
      (sides : clients.client i ≠ clients.server i)
      (slot : slots s(clients.client i, clients.server i) = clients.slot i (some request))
      (delivers : f.Delivers (clients.client i) (clients.server i) payload)
  | reply {i : ι} {payload : List UInt8} {request : Outstanding}
      (slot : slots s(clients.client i, clients.server i) = clients.slot i (some request))
      (delivers : f.Delivers (clients.server i) (clients.client i) payload)
  | stray {src dst : Endpoint} {payload : List UInt8} (slot : slots s(src, dst) = .idle)
      (head : payload.head? ≠ some 0x2a) (delivers : f.Delivers src dst payload)
  | refused (away : ¬ f.Accepted ip)

section Steps

variable {clients : Clients ι ip} {f : Frame} {i : ι}

theorem payload_plain {src dst : Endpoint} {payload : List UInt8}
    (hf : f.Delivers src dst payload) (hhead : payload.head? ≠ some 0x2a) :
    f.rbuf f.decoded.2.dataptr ≠ 0x2a := by
  obtain ⟨b, rest, rfl⟩ := List.exists_cons_of_ne_nil hf.payload_ne_nil
  have hfirst : f.rbuf f.decoded.2.dataptr = b := hf.data 0 (by simp)
  rw [hfirst]
  simpa using hhead

/-- A payload that is no array is not a command. -/
theorem parsed_plain {src dst : Endpoint} {payload : List UInt8}
    (hf : f.Delivers src dst payload) (hhead : payload.head? ≠ some 0x2a) :
    f.parsed = .ok ⟨-1, f.rbuf, 0, 0⟩ := if_pos (payload_plain hf hhead)

theorem slotStep_plain {src dst : Endpoint} {payload : List UInt8}
    (hf : f.Delivers src dst payload) (hhead : payload.head? ≠ some 0x2a) :
    f.slotStep .idle = (.idle, none) := by
  have hparsed := parsed_plain hf hhead
  have hret : (-1 : Int32) ≠ 0 := by decide
  have hopened : f.opened = .idle := opened_of_rejected hparsed (.inl hret)
  rw [Frame.slotStep, hopened]

theorem nameFits_plain {src dst : Endpoint} {payload : List UInt8}
    (hf : f.Delivers src dst payload) (hhead : payload.head? ≠ some 0x2a) :
    f.NameFits := ⟨_, parsed_plain hf hhead, Nat.zero_le 31⟩

theorem slotStep_unstored (hwant : f.want = none) :
    f.slotStep (clients.slot i none) = (clients.slot i none, none) := by
  have hopened : f.opened = .idle := (opened_idle_iff f).mpr (.inr hwant)
  rw [Clients.slot, Frame.slotStep, hopened]

/-- A packet between two different ends is not one of the other side. -/
theorem tupleOf_ne_swap {src dst : Endpoint} (hsides : src ≠ dst) :
    tupleOf src dst ≠ (tupleOf src dst).swap := by
  intro heq
  obtain ⟨hport, -, hip, -⟩ := PortItem.mk.inj heq
  apply hsides
  cases src
  cases dst
  rw [Endpoint.mk.injEq]
  exact ⟨hip, hport⟩

theorem slotStep_repeated {payload : List UInt8} (request : Outstanding)
    (hsides : clients.client i ≠ clients.server i)
    (hf : f.Delivers (clients.client i) (clients.server i) payload) :
    f.slotStep (clients.slot i (some request)) =
      (clients.slot i (some (request.again f)), none) := by
  apply Frame.slotStep_renew
  rw [hf.tuple_eq]
  exact tupleOf_ne_swap hsides

theorem route_refused (haway : ¬ f.Accepted ip) : f.route ip = none := if_neg haway

/-- A frame that leaves the slot of its connection alone leaves all alone. -/
theorem tracker_unmoved {slots : Conn → Slot} (hslot : ∀ k, f.route ip = some k →
    f.slotStep (slots k) = (slots k, none)) : tracker ip f slots = (slots, none) := by
  cases hroute : f.route ip with
  | none => exact family_unrouted slots hroute
  | some k =>
      have hstep := hslot k hroute
      apply Prod.ext
      · funext k'
        rcases eq_or_ne k' k with rfl | hne
        · rw [tracker, family_self slots hroute, hstep]
        · rw [tracker, family_elsewhere slots (by rw [hroute]; simpa using hne.symm)]
      · rw [tracker, family_answer slots hroute, hstep]

/-- A command that is copied has a name that fits. -/
theorem Clients.Meets.nameFits {slots : Conn → Slot} (hmeets : clients.Meets f slots) :
    ∀ k, f.route ip = some k → slots k = .idle → f.NameFits := by
  intro k hk hidle
  cases hmeets with
  | request slot delivers => exact nameFits_command delivers
  | repeated sides slot delivers =>
      rw [route_request delivers] at hk
      rw [← Option.some.inj hk, slot] at hidle
      cases hidle
  | reply slot delivers =>
      rw [route_reply delivers] at hk
      rw [← Option.some.inj hk, slot] at hidle
      cases hidle
  | stray slot head delivers => exact nameFits_plain delivers head
  | refused away =>
      rw [route_refused away] at hk
      cases hk

end Steps

section Runs

variable [DecidableEq ι] {clients : Clients ι ip} {before after : ι → Option Outstanding}
  {frames : List Frame} {reports : List (Option Report)}

/-- The slots along noisy sessions; the induction is on the trace. -/
theorem Noisy.run_tracker (hnoisy : Noisy clients before frames reports after)
    {slots : Conn → Slot} (hexpected : Expected clients before slots) :
    Along (tracker ip) clients.Meets frames slots ∧
      (run (tracker ip) frames slots).2 = reports ∧
      Expected clients after (run (tracker ip) frames slots).1 := by
  induction hnoisy generalizing slots with
  | nil before => exact ⟨trivial, rfl, hexpected⟩
  | @request before after i f c frames reports free delivers allocated rest ih =>
      have hroute := route_request delivers
      have hslot := hexpected.session i
      rw [free] at hslot
      have hstep := slotStep_request delivers allocated
      obtain ⟨hmeets, hreports, hend⟩ := ih (hexpected.step hroute (by rw [free, hstep]))
      have hanswer : (tracker ip f slots).2 = none := by
        rw [hexpected.answer hroute, free, hstep]
      rw [run, hanswer, hreports]
      exact ⟨⟨.request hslot delivers, hmeets⟩, rfl, hend⟩
  | @unstored before after i f c frames reports free delivers failed rest ih =>
      have hslot := hexpected.session i
      rw [free] at hslot
      have hsame : tracker ip f slots = (slots, none) := by
        apply tracker_unmoved
        intro k hk
        rw [route_request delivers] at hk
        rw [← Option.some.inj hk, hslot]
        exact slotStep_unstored failed
      obtain ⟨hmeets, hreports, hend⟩ := ih hexpected
      rw [run, Along, hsame, hreports]
      exact ⟨⟨.request hslot delivers, hmeets⟩, rfl, hend⟩
  | @repeated before after i f payload request frames reports sides waiting delivers rest ih =>
      have hroute := route_request delivers
      have hslot := hexpected.session i
      rw [waiting] at hslot
      have hstep := slotStep_repeated request sides delivers
      obtain ⟨hmeets, hreports, hend⟩ := ih (hexpected.step hroute (by rw [waiting, hstep]))
      have hanswer : (tracker ip f slots).2 = none := by
        rw [hexpected.answer hroute, waiting, hstep]
      rw [run, hanswer, hreports]
      exact ⟨⟨.repeated sides hslot delivers, hmeets⟩, rfl, hend⟩
  | @reply before after i f payload request frames reports waiting delivers rest ih =>
      have hroute := route_reply delivers
      have hslot := hexpected.session i
      rw [waiting] at hslot
      have hstep := slotStep_reply request delivers
      obtain ⟨hmeets, hreports, hend⟩ := ih (hexpected.step hroute (by rw [waiting, hstep]))
      have hanswer : (tracker ip f slots).2 = some (clients.report i request f) := by
        rw [hexpected.answer hroute, waiting, hstep]
      rw [run, hanswer, hreports]
      exact ⟨⟨.reply hslot delivers, hmeets⟩, rfl, hend⟩
  | @stray before after f src dst payload frames reports free head delivers rest ih =>
      have hidle := hexpected.idle free
      have hsame : tracker ip f slots = (slots, none) := by
        apply tracker_unmoved
        intro k hk
        obtain ⟨-, hconn⟩ := accepted_of_route hk
        rw [delivers.tuple_eq] at hconn
        rw [← hconn]
        change f.slotStep (slots s(src, dst)) = (slots s(src, dst), none)
        rw [hidle]
        exact slotStep_plain delivers head
      obtain ⟨hmeets, hreports, hend⟩ := ih hexpected
      rw [run, Along, hsame, hreports]
      exact ⟨⟨.stray hidle head delivers, hmeets⟩, rfl, hend⟩
  | @refused before after f frames reports away rest ih =>
      have hsame : tracker ip f slots = (slots, none) := family_unrouted slots (route_refused away)
      obtain ⟨hmeets, hreports, hend⟩ := ih hexpected
      rw [run, Along, hsame, hreports]
      exact ⟨⟨.refused away, hmeets⟩, rfl, hend⟩

/-- For every interleaving of noisy sessions the reports are exactly those of
the answers to requests that were stored, each with the name of the request and
the time of the last packet of its side; and when no request is outstanding the
table is empty. -/
theorem pktTrace_noisy (clients : Clients ι ip)
    (hnoisy : Noisy clients noneOutstanding frames reports after) :
    ∃ w m, (pktTrace ip frames).run (vhashInit enVHashMoudleMax) = .ok (reports, w) ∧
      PortTable w m ∧ (after = noneOutstanding → m = PortMap.empty) := by
  obtain ⟨hmeets, hreports, hend⟩ := hnoisy.run_tracker (expected_allIdle clients)
  obtain ⟨w, hrun, m, ht, hslots⟩ := pktTrace_run ip frames (hmeets.mono fun _ _ h => h.nameFits)
  rw [hreports] at hrun
  refine ⟨w, m, hrun, ht, ?_⟩
  rintro rfl
  funext key
  have hslot := hslots key.conn
  rw [hend.all_idle] at hslot
  exact hslot key rfl

/-- The client's acknowledgement, in a frame of 54 bytes. -/
def sampleAck : Frame := segmentFrame sampleClient sampleServer [] 100 500 none

/-- The same in a frame of 60 bytes. -/
def paddedAck : Frame := {sampleAck with len := 60}

theorem paddedAck_delivers : paddedAck.Delivers sampleClient sampleServer [0, 0, 0, 0, 0, 0] :=
  (segmentFrame_isSegment sampleClient sampleServer [] 100 500 none (by decide)).delivers_padded
    rfl (by decide) (by decide) (by decide)

/-- A PING that is sent twice and a reply that is sent twice, with
acknowledgements after each. -/
theorem pktTrace_noisy_ping :
    let clients : Clients Unit sampleServer.ip :=
      ⟨fun _ => sampleClient, fun _ => sampleServer, fun _ => Or.inr rfl, fun _ _ _ => rfl⟩
    let ping : Outstanding := ⟨[0x50, 0x49, 0x4e, 0x47], 100, 0⟩
    let twice := ping.again sampleRequest
    let after := Function.update (Function.update (Function.update (Function.update
      noneOutstanding () (some ping)) () (some twice)) () (some (twice.again paddedAck))) () none
    ∃ w m, (pktTrace sampleServer.ip [sampleRequest, sampleRequest, sampleAck, paddedAck,
        sampleReply, sampleReply, sampleAck, paddedAck]).run (vhashInit enVHashMoudleMax) =
        .ok ([none, none, none, none,
          some (clients.report () (twice.again paddedAck) sampleReply), none, none, none], w) ∧
      PortTable w m ∧ (after = noneOutstanding → m = PortMap.empty) := by
  intro clients ping twice after
  let command : Command :=
    ⟨[0x50, 0x49, 0x4e, 0x47], [], by decide, by decide, by decide, by decide, by decide,
      by decide⟩
  have hbytes : command.bytes = [0x2a, 0x31, 0x0d, 0x0a, 0x24, 0x34, 0x0d, 0x0a, 0x50, 0x49,
      0x4e, 0x47, 0x0d, 0x0a] := by decide
  have hrequest : sampleRequest.Delivers sampleClient sampleServer command.bytes := by
    rw [hbytes]
    exact segmentFrame_delivers _ _ _ _ _ _ (by decide) (by decide)
  have hreply : sampleReply.Delivers sampleServer sampleClient [0x2b, 0x4f, 0x4b, 0x0d, 0x0a] :=
    segmentFrame_delivers _ _ _ _ _ _ (by decide) (by decide)
  have hack : ¬ sampleAck.Accepted sampleServer.ip := by decide +kernel
  have hfree : Noisy clients after [sampleReply, sampleAck, paddedAck] [none, none, none] after :=
    .stray (fun _ _ => rfl) (by decide) hreply
      (.refused hack (.stray (fun _ _ => rfl) (by decide) paddedAck_delivers (.nil after)))
  exact pktTrace_noisy clients (.request (i := ()) (c := command) rfl hrequest rfl
    (.repeated (i := ()) (by decide) rfl hrequest
      (.refused hack (.repeated (i := ()) (by decide) rfl paddedAck_delivers
        (.reply (i := ()) rfl hreply hfree)))))

end Runs

end RedisTrace
