import RedisTrace.Resp

/-!
Strict sessions: on every connection the client sends one command a frame and
waits for one reply frame before the next. Any number of such connections may
be interleaved. The reports are then exactly one for each reply, with the
command and the time of the request it answers.
-/

namespace RedisTrace

open CircularList Run Machine

/-- The connections under trace: who asks and who answers. Each has an end at
the monitored address, and no two have the same pair of ends. -/
structure Clients (ι : Type) (ip : UInt32) where
  client : ι → Endpoint
  server : ι → Endpoint
  monitored : ∀ i, (client i).ip = ip ∨ (server i).ip = ip
  distinct : Function.Injective (fun i => s(client i, server i))

/-- A request that has not been answered yet. -/
structure Outstanding where
  name : List UInt8
  sec : UInt32
  uSec : UInt32

variable {ι : Type} {ip : UInt32}

/-- The report a reply ought to cause. -/
def Clients.report (clients : Clients ι ip) (i : ι) (request : Outstanding) (f : Frame) :
    Report :=
  ⟨⟨request.sec, request.uSec, storedName request.name,
    tupleOf (clients.server i) (clients.client i)⟩, f.sec, f.uSec⟩

/-- `Strict clients before frames reports after`: the frames are requests and
replies in strict alternation on every connection, `before` and `after` tell
which requests are outstanding, and `reports` has for every frame the report it
ought to cause. -/
inductive Strict [DecidableEq ι] (clients : Clients ι ip) :
    (ι → Option Outstanding) → List Frame → List (Option Report) →
      (ι → Option Outstanding) → Prop where
  | nil (before : ι → Option Outstanding) : Strict clients before [] [] before
  | request {before after : ι → Option Outstanding} {i : ι} {f : Frame} {c : Command}
      {frames : List Frame} {reports : List (Option Report)}
      (free : before i = none)
      (segment : f.IsSegment (clients.client i) (clients.server i) c.bytes)
      (allocated : f.want.isSome)
      (rest : Strict clients
        (Function.update before i (some ⟨c.name, f.sec, f.uSec⟩)) frames reports after) :
      Strict clients before (f :: frames) (none :: reports) after
  | reply {before after : ι → Option Outstanding} {i : ι} {f : Frame}
      {payload : List UInt8} {request : Outstanding}
      {frames : List Frame} {reports : List (Option Report)}
      (waiting : before i = some request)
      (data : payload ≠ [])
      (segment : f.IsSegment (clients.server i) (clients.client i) payload)
      (rest : Strict clients (Function.update before i none) frames reports after) :
      Strict clients before (f :: frames) (some (clients.report i request f) :: reports)
        after

def noneOutstanding : ι → Option Outstanding := fun _ => none

/-- The slot of a session. -/
def Clients.slot (clients : Clients ι ip) (i : ι) : Option Outstanding → Slot
  | none => .idle
  | some request =>
      .pending (tupleOf (clients.server i) (clients.client i)) (storedName request.name)
        request.sec request.uSec

/-- The connections' slots say which requests are outstanding, and nothing
else is pending. -/
structure Expected (clients : Clients ι ip) (outstanding : ι → Option Outstanding)
    (slots : Conn → Slot) : Prop where
  session : ∀ i, slots s(clients.client i, clients.server i) =
    clients.slot i (outstanding i)
  others : ∀ k, (∀ i, k ≠ s(clients.client i, clients.server i)) → slots k = .idle

section Steps

variable {clients : Clients ι ip} {f : Frame} {i : ι}

theorem route_request {payload : List UInt8}
    (hf : f.Delivers (clients.client i) (clients.server i) payload) :
    f.route ip = some s(clients.client i, clients.server i) := by
  rw [Frame.route, if_pos (hf.accepted (clients.monitored i)), hf.tuple_eq]
  rfl

theorem route_reply {payload : List UInt8}
    (hf : f.Delivers (clients.server i) (clients.client i) payload) :
    f.route ip = some s(clients.client i, clients.server i) := by
  rw [Frame.route, if_pos (hf.accepted (clients.monitored i).symm), hf.tuple_eq]
  exact congrArg some Sym2.eq_swap

theorem slotStep_request {c : Command}
    (hf : f.Delivers (clients.client i) (clients.server i) c.bytes)
    (hwant : f.want.isSome) :
    f.slotStep (clients.slot i none) =
      (clients.slot i (some ⟨c.name, f.sec, f.uSec⟩), none) := by
  obtain ⟨want, hwant⟩ := Option.isSome_iff_exists.mp hwant
  have hle := c.name_le
  have hcommand := command_request hf c.name_pos (by omega) c.name_nul c.name_crlf
  simp only [Clients.slot, Frame.slotStep, Frame.opened, hcommand, hwant, hf.tuple_eq]
  rfl

theorem slotStep_reply {payload : List UInt8} (request : Outstanding)
    (hf : f.Delivers (clients.server i) (clients.client i) payload) :
    f.slotStep (clients.slot i (some request)) =
      (clients.slot i none, some (clients.report i request f)) := by
  simp only [Clients.slot, Frame.slotStep, hf.tuple_eq, if_true]
  rfl

theorem nameFits_command {c : Command}
    (hf : f.Delivers (clients.client i) (clients.server i) c.bytes) : f.NameFits := by
  have hle := c.name_le
  obtain ⟨buf', hparsed⟩ := parsed_request hf c.name_pos (by omega) c.name_crlf
  exact ⟨_, hparsed, hle⟩

theorem expected_allIdle (clients : Clients ι ip) :
    Expected clients noneOutstanding allIdle :=
  ⟨fun _ => rfl, fun _ _ => rfl⟩

/-- A connection without an outstanding request is idle. -/
theorem Expected.idle {outstanding : ι → Option Outstanding} {slots : Conn → Slot} {k : Conn}
    (hexpected : Expected clients outstanding slots)
    (hfree : ∀ i, k = s(clients.client i, clients.server i) → outstanding i = none) :
    slots k = .idle := by
  by_cases hk : ∃ i, k = s(clients.client i, clients.server i)
  · obtain ⟨i, rfl⟩ := hk
    rw [hexpected.session i, hfree i rfl]
    rfl
  · exact hexpected.others k (fun i heq => hk ⟨i, heq⟩)

/-- When nothing is outstanding, nothing is pending. -/
theorem Expected.all_idle {slots : Conn → Slot}
    (hexpected : Expected clients noneOutstanding slots) (k : Conn) : slots k = .idle :=
  hexpected.idle (fun _ _ => rfl)

/-- What the tracker answers to a frame of a session. -/
theorem Expected.answer {outstanding : ι → Option Outstanding} {slots : Conn → Slot}
    (hexpected : Expected clients outstanding slots)
    (hroute : f.route ip = some s(clients.client i, clients.server i)) :
    (tracker ip f slots).2 = (f.slotStep (clients.slot i (outstanding i))).2 := by
  rw [tracker, family_answer slots hroute, hexpected.session i]

end Steps

section Runs

variable [DecidableEq ι] {clients : Clients ι ip} {before after : ι → Option Outstanding}
  {frames : List Frame} {reports : List (Option Report)}

/-- Changing the slot of one session. -/
theorem Expected.step {outstanding : ι → Option Outstanding} {slots : Conn → Slot}
    {f : Frame} {i : ι} (hexpected : Expected clients outstanding slots)
    (hroute : f.route ip = some s(clients.client i, clients.server i))
    {next : Option Outstanding}
    (hnext : (f.slotStep (clients.slot i (outstanding i))).1 = clients.slot i next) :
    Expected clients (Function.update outstanding i next) (tracker ip f slots).1 where
  session := by
    intro j
    rcases eq_or_ne j i with rfl | hne
    · rw [tracker, family_self slots hroute, hexpected.session, Function.update_self]
      exact hnext
    · have hother : f.route ip ≠ some s(clients.client j, clients.server j) := by
        rw [hroute]
        intro heq
        exact hne (clients.distinct (Option.some.inj heq)).symm
      rw [tracker, family_elsewhere slots hother, hexpected.session,
        Function.update_of_ne hne]
  others := by
    intro k hk
    have hother : f.route ip ≠ some k := by
      rw [hroute]
      intro heq
      exact hk i (Option.some.inj heq).symm
    rw [tracker, family_elsewhere slots hother]
    exact hexpected.others k hk

/-- The slots of strict sessions, frame by frame; the induction is on the
trace. -/
theorem Strict.run_tracker (hstrict : Strict clients before frames reports after)
    {slots : Conn → Slot} (hexpected : Expected clients before slots) :
    NamesFit ip frames slots ∧ (run (tracker ip) frames slots).2 = reports ∧
      Expected clients after (run (tracker ip) frames slots).1 := by
  induction hstrict generalizing slots with
  | nil before => exact ⟨trivial, rfl, hexpected⟩
  | @request before after i f c frames reports free segment allocated rest ih =>
      have hf := segment.delivers (respArray_ne_nil _)
      have hroute := route_request hf
      have hstep := slotStep_request hf allocated
      have hnext : Expected clients _ (tracker ip f slots).1 :=
        hexpected.step hroute (by rw [free, hstep])
      have hanswer : (tracker ip f slots).2 = none := by
        rw [hexpected.answer hroute, free, hstep]
      obtain ⟨hfits, hreports, hend⟩ := ih hnext
      refine ⟨⟨fun _ _ _ => nameFits_command hf, hfits⟩, ?_, hend⟩
      rw [run, hanswer, hreports]
  | @reply before after i f payload request frames reports waiting data segment rest ih =>
      have hf := segment.delivers data
      have hroute := route_reply hf
      have hslot := hexpected.session i
      rw [waiting] at hslot
      have hstep := slotStep_reply request hf
      have hnext : Expected clients _ (tracker ip f slots).1 :=
        hexpected.step hroute (by rw [waiting, hstep])
      have hanswer : (tracker ip f slots).2 = some (clients.report i request f) := by
        rw [hexpected.answer hroute, waiting, hstep]
      obtain ⟨hfits, hreports, hend⟩ := ih hnext
      refine ⟨⟨?_, hfits⟩, ?_, hend⟩
      · intro k hk hidle
        rw [hroute] at hk
        rw [← Option.some.inj hk, hslot] at hidle
        cases hidle
      · rw [run, hanswer, hreports]

/-- For every interleaving of strict sessions, `pkt_recv` reports exactly the
replies, each with the command and time of the request it answers; and once
every request has been answered the table is empty. -/
theorem pktTrace_strict (clients : Clients ι ip)
    (hstrict : Strict clients noneOutstanding frames reports after) :
    ∃ w m, (pktTrace ip frames).run (vhashInit enVHashMoudleMax) = .ok (reports, w) ∧
      PortTable w m ∧ (after = noneOutstanding → m = PortMap.empty) := by
  obtain ⟨hfits, hreports, hend⟩ := hstrict.run_tracker (expected_allIdle clients)
  obtain ⟨w, hrun, m, ht, hslots⟩ := pktTrace_run ip frames hfits
  rw [hreports] at hrun
  refine ⟨w, m, hrun, ht, ?_⟩
  rintro rfl
  funext key
  have hslot := hslots key.conn
  rw [hend.all_idle] at hslot
  exact hslot key rfl

/-- One client, one PING, one reply. -/
theorem pktTrace_strict_ping :
    let clients : Clients Unit sampleServer.ip :=
      ⟨fun _ => sampleClient, fun _ => sampleServer, fun _ => Or.inr rfl, fun _ _ _ => rfl⟩
    ∃ w m, (pktTrace sampleServer.ip [sampleRequest, sampleReply]).run
        (vhashInit enVHashMoudleMax) =
        .ok ([none, some (clients.report () ⟨[0x50, 0x49, 0x4e, 0x47], 100, 0⟩ sampleReply)],
          w) ∧
      PortTable w m ∧
      (Function.update (Function.update noneOutstanding ()
        (some ⟨[0x50, 0x49, 0x4e, 0x47], 100, 0⟩)) () none = noneOutstanding →
        m = PortMap.empty) := by
  intro clients
  let ping : Command :=
    ⟨[0x50, 0x49, 0x4e, 0x47], [], by decide, by decide, by decide, by decide, by decide,
      by decide⟩
  have hbytes : ping.bytes = [0x2a, 0x31, 0x0d, 0x0a, 0x24, 0x34, 0x0d, 0x0a, 0x50, 0x49,
      0x4e, 0x47, 0x0d, 0x0a] := by decide
  have hrequest : sampleRequest.IsSegment sampleClient sampleServer ping.bytes := by
    rw [hbytes]
    exact segmentFrame_isSegment _ _ _ _ _ _ (by decide)
  have hreply : sampleReply.IsSegment sampleServer sampleClient [0x2b, 0x4f, 0x4b, 0x0d, 0x0a] :=
    segmentFrame_isSegment _ _ _ _ _ _ (by decide)
  exact pktTrace_strict clients (.request (i := ()) (c := ping) rfl hrequest rfl
    (.reply (i := ()) rfl (by decide) hreply (.nil _)))

end Runs

end RedisTrace
