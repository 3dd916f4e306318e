import RedisTrace.Directions

/-!
The command name and the request time in a report. Both come from the pending
item, but a request that finds an item renews only the time, so they belong
together only as long as such requests repeat the name.
-/

namespace RedisTrace

open CircularList Run Machine

variable {ip : UInt32} {d : Duplex ip}
variable {w : PortWorld} {slot : Slot} {packets : List (Packet d)}

/-- Printing `cmd` gives exactly this name. -/
def Names (cmd : CmdChars) (name : List UInt8) : Prop :=
  name.length ≤ 31 ∧ 0 ∉ name ∧ cmd = storedName name

/-- `r` names the command of `p` and has its time as request time. -/
def Report.About (r : Report) (p : Packet d) : Prop :=
  match p with
  | .command f name _ _ => r.item.sec = f.sec ∧ r.item.uSec = f.uSec ∧ Names r.item.cmd name
  | .reply _ _ _ _ => False

/-- Whatever leaves a connection pending has stored its own time, so the packet
whose time a report uses is the one before. Every report is about that one. -/
def Belongs (previous : Option (Packet d)) :
    List (Packet d) → List (Option Report) → Prop
  | [], [] => True
  | p :: packets, out :: outs =>
      (∀ r, out = some r → ∃ q, previous = some q ∧ r.About q) ∧
        Belongs (some p) packets outs
  | _, _ => False

/-- The time of a pending slot is that of the packet just received. -/
theorem slotStep_time {f : Frame} {key : PortItem} {cmd : CmdChars} {sec uSec : UInt32}
    (hpending : (f.slotStep slot).1 = .pending key cmd sec uSec) :
    sec = f.sec ∧ uSec = f.uSec := by
  cases slot with
  | idle =>
      change f.opened = _ at hpending
      unfold Frame.opened at hpending
      split at hpending
      · obtain ⟨_, _, hsec, huSec⟩ := Slot.pending.inj hpending
        exact ⟨hsec.symm, huSec.symm⟩
      · cases hpending
  | pending key' cmd' sec' uSec' =>
      rcases eq_or_ne f.tuple key' with hkey | hkey
      · rw [Frame.slotStep_answer hkey] at hpending
        cases hpending
      · rw [Frame.slotStep_renew hkey] at hpending
        obtain ⟨_, _, hsec, huSec⟩ := Slot.pending.inj hpending
        exact ⟨hsec.symm, huSec.symm⟩

def Packet.NonArray (p : Packet d) : Prop :=
  match p with
  | .command _ _ _ _ => True
  | .reply _ payload _ _ => payload.head? ≠ some 0x2a

/-- A request that meets an idle connection is rejected by `redis_cmd_parse`,
finds no memory for an item, or has a name that can be stored; one that meets a
pending request repeats its name. -/
def Packet.KeepsName (p : Packet d) (slot : Slot) : Prop :=
  match p, slot with
  | .command f name _ _, .idle =>
      (∃ parsed, f.parsed = .ok parsed ∧ (parsed.ret ≠ 0 ∨ f.want = none)) ∨
        (name ≠ [] ∧ name.length ≤ 31 ∧ 0 ∉ name ∧ ¬ crlf <:+: name)
  | .command _ name _ _, .pending _ cmd _ _ => Names cmd name
  | .reply _ _ _ _, _ => True

/-- A pending slot holds the name and the time of the packet before, a request
of the client. -/
def Slot.WrittenBy (previous : Option (Packet d)) : Slot → Prop
  | .idle => True
  | .pending key cmd sec uSec =>
      key = tupleOf d.server d.client ∧ ∃ f name args delivers,
        previous = some (.command f name args delivers) ∧
          sec = f.sec ∧ uSec = f.uSec ∧ Names cmd name

theorem parsed_nonArray {f : Frame} {payload : List UInt8} {src dst : Endpoint}
    (hf : f.Delivers src dst payload) (hdata : payload ≠ [])
    (hhead : payload.head? ≠ some 0x2a) :
    ∃ parsed, f.parsed = .ok parsed ∧ parsed.ret ≠ 0 := by
  obtain ⟨b, rest, rfl⟩ := List.exists_cons_of_ne_nil hdata
  have hfirst : f.rbuf f.decoded.2.dataptr = b := hf.data 0 (by simp)
  have hstar : f.rbuf f.decoded.2.dataptr ≠ 0x2a := by
    rw [hfirst]
    simpa using hhead
  have hret : (-1 : Int32) ≠ 0 := by decide
  refine ⟨⟨-1, f.rbuf, 0, 0⟩, ?_, hret⟩
  simp [Frame.parsed, redisCmdParse, hstar]

theorem opened_of_rejected {f : Frame} {parsed : Parsed} (hparsed : f.parsed = .ok parsed)
    (hret : parsed.ret ≠ 0 ∨ f.want = none) : f.opened = .idle := by
  rw [opened_idle_iff]
  apply hret.imp_left
  intro hnonzero
  simp [Frame.command, hparsed, hnonzero]

/-- One packet keeps name and time together. -/
theorem writtenBy_step {previous : Option (Packet d)} (p : Packet d)
    (hwritten : slot.WrittenBy previous) (hreply : p.NonArray) (hkeeps : p.KeepsName slot) :
    p.Readable slot ∧ (packetStep p slot).1.WrittenBy (some p) ∧
      ∀ r, (packetStep p slot).2 = some r → ∃ q, previous = some q ∧ r.About q := by
  cases slot with
  | idle =>
      refine ⟨?_, ?_, by rintro r ⟨⟩⟩
      · rintro _
        cases p with
        | command f name args delivers =>
            rcases hkeeps with ⟨parsed, hparsed, _⟩ | ⟨hname, hle, _, hcrlf⟩
            · exact ⟨parsed, hparsed⟩
            · obtain ⟨buf', hparsed⟩ := parsed_request delivers hname (by omega) hcrlf
              exact ⟨_, hparsed⟩
        | reply f payload data delivers =>
            obtain ⟨parsed, hparsed, _⟩ := parsed_nonArray delivers data hreply
            exact ⟨parsed, hparsed⟩
      · cases p with
        | command f name args delivers =>
            change f.opened.WrittenBy _
            rcases hkeeps with ⟨parsed, hparsed, hret⟩ | ⟨hname, hle, hnul, hcrlf⟩
            · rw [opened_of_rejected hparsed hret]
              trivial
            · have hcommand := command_request delivers hname (by omega) hnul hcrlf
              unfold Frame.opened
              rw [hcommand, delivers.tuple_eq]
              cases f.want with
              | none => trivial
              | some want =>
                  exact ⟨rfl, f, name, args, delivers, rfl, rfl, rfl, hle, hnul, rfl⟩
        | reply f payload data delivers =>
            obtain ⟨parsed, hparsed, hret⟩ := parsed_nonArray delivers data hreply
            change f.opened.WrittenBy _
            rw [opened_of_rejected hparsed (Or.inl hret)]
            trivial
  | pending key cmd sec uSec =>
      obtain ⟨hkey, g, name', args', delivers', hprevious, hsec, huSec, hnames⟩ := hwritten
      refine ⟨by rintro ⟨⟩, ?_⟩
      cases p with
      | command f name args delivers =>
          have hne : f.tuple ≠ key := by
            rw [delivers.tuple_eq, hkey]
            exact tuple_ne d
          have hstep : packetStep (Packet.command f name args delivers)
              (.pending key cmd sec uSec) = _ := Frame.slotStep_renew hne cmd sec uSec
          rw [hstep]
          refine ⟨⟨hkey, f, name, args, delivers, rfl, rfl, rfl, hkeeps⟩, ?_⟩
          rintro r ⟨⟩
      | reply f payload data delivers =>
          have heq : f.tuple = key := by
            rw [delivers.tuple_eq, hkey]
          have hstep : packetStep (Packet.reply f payload data delivers)
              (.pending key cmd sec uSec) = _ := Frame.slotStep_answer heq cmd sec uSec
          rw [hstep]
          refine ⟨trivial, ?_⟩
          rintro r hr
          cases hr
          exact ⟨_, hprevious, hsec, huSec, hnames⟩

theorem belongs_run {previous : Option (Packet d)} (hwritten : slot.WrittenBy previous)
    (hreplies : ∀ p ∈ packets, p.NonArray)
    (hkeeps : Along packetStep Packet.KeepsName packets slot) :
    Along packetStep Packet.Readable packets slot ∧
      Belongs previous packets (run packetStep packets slot).2 := by
  induction packets generalizing slot previous with
  | nil => exact ⟨trivial, trivial⟩
  | cons p packets ih =>
      obtain ⟨hreadable, hwritten', hreport⟩ :=
        writtenBy_step p hwritten (hreplies p (by simp)) hkeeps.1
      obtain ⟨hrest, hbelongs⟩ :=
        ih hwritten' (fun q hq => hreplies q (by simp [hq])) hkeeps.2
      exact ⟨⟨hreadable, hrest⟩, hreport, hbelongs⟩

/-- For every trace of one connection, idle at the start, whose replies are no
arrays: as long as every request that meets a pending one repeats its name, and
every request that meets an idle connection has a name that fits or is
rejected, each report names the command of the packet whose time it uses. -/
theorem reports_belong (packets : List (Packet d)) (w : PortWorld)
    (hidle : SlotIs w d.conn .idle) (hreplies : ∀ p ∈ packets, p.NonArray)
    (hkeeps : Along packetStep Packet.KeepsName packets .idle) :
    ∃ outs w', (recvPackets packets).run w = .ok (outs, w') ∧
      Belongs none packets outs := by
  have hstart : Slot.WrittenBy (none : Option (Packet d)) .idle := trivial
  obtain ⟨hreadable, hbelongs⟩ := belongs_run hstart hreplies hkeeps
  obtain ⟨w', hrun, _⟩ := packets_run hidle hreadable
  exact ⟨_, w', hrun, hbelongs⟩

theorem reports_belong_ping :
    ∃ w outs w', SlotIs w sampleDuplex.conn .idle ∧
      (recvPackets pingPackets).run w = .ok (outs, w') ∧ Belongs none pingPackets outs := by
  obtain ⟨w, _, ht⟩ := portVHashInit_run
  have hreplies : ∀ p ∈ pingPackets, p.NonArray := by
    intro p hp
    rcases List.mem_pair.mp hp with rfl | rfl
    · trivial
    · exact (by decide : some (0x2b : UInt8) ≠ some 0x2a)
  have hname : ([0x50, 0x49, 0x4e, 0x47] : List UInt8) ≠ [] ∧
      [0x50, 0x49, 0x4e, 0x47].length ≤ 31 ∧ (0 : UInt8) ∉ [0x50, 0x49, 0x4e, 0x47] ∧
      ¬ crlf <:+: [0x50, 0x49, 0x4e, 0x47] := by decide
  obtain ⟨outs, w', hrun, hbelongs⟩ := reports_belong pingPackets w (slotIs_empty ht _)
    hreplies ⟨Or.inr hname, trivial, trivial⟩
  exact ⟨w, outs, w', slotIs_empty ht _, hrun, hbelongs⟩

/-- GET, then SET before GET is answered. -/
def crossedPackets : List (Packet sampleDuplex) :=
  [sampleCommand [0x47, 0x45, 0x54] [[0x6b]] 100 (by decide),
    sampleCommand [0x53, 0x45, 0x54] [[0x6b], [0x76]] 105 (by decide),
    answerOk 106]

/-- The report has the name of GET and the time of SET. -/
theorem reports_belong_crossed :
    ∃ w outs w', SlotIs w sampleDuplex.conn .idle ∧ (∀ p ∈ crossedPackets, p.NonArray) ∧
      (recvPackets crossedPackets).run w = .ok (outs, w') ∧
      ¬ Belongs none crossedPackets outs := by
  obtain ⟨w, _, ht⟩ := portVHashInit_run
  have hreadable : Along packetStep Packet.Readable crossedPackets .idle := by
    refine ⟨?_, ?_, ?_, trivial⟩
    · rintro _
      obtain ⟨buf', hparsed⟩ := parsed_request (segmentFrame_delivers sampleClient
        sampleServer (respArray [[0x47, 0x45, 0x54], [0x6b]]) 100 0 (some 0)
        (respArray_ne_nil _) (by decide)) (by decide) (by decide) (by decide)
      exact ⟨_, hparsed⟩
    · intro hidle
      exact absurd hidle (by decide +kernel)
    · intro hidle
      exact absurd hidle (by decide +kernel)
  obtain ⟨w', hrun, _⟩ := packets_run (slotIs_empty ht _) hreadable
  refine ⟨w, _, w', slotIs_empty ht _, ?_, hrun, ?_⟩
  · intro p hp
    simp only [crossedPackets, List.mem_cons, List.not_mem_nil, or_false] at hp
    rcases hp with rfl | rfl | rfl
    · trivial
    · trivial
    · exact (by decide : some (0x2b : UInt8) ≠ some 0x2a)
  · rintro ⟨_, _, hreport, _⟩
    obtain ⟨q, hq, habout⟩ := hreport
      ⟨⟨105, 0, storedName [0x47, 0x45, 0x54], tupleOf sampleServer sampleClient⟩, 106, 0⟩
      (by decide +kernel)
    cases hq
    obtain ⟨_, _, _, _, hcmd⟩ := habout
    revert hcmd
    decide +kernel

end RedisTrace
