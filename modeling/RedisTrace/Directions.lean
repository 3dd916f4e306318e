import RedisTrace.Resp

/-!
One connection whose ends have roles: the client sends requests, the server
replies. `pkt_recv` does not use the direction it computes, so what a packet
does depends only on whether its 4-tuple is in the table. This module says when
the roles and the table agree.
-/

namespace RedisTrace

open CircularList Run Machine

structure Duplex (ip : UInt32) where
  client : Endpoint
  server : Endpoint
  apart : client ≠ server
  monitored : client.ip = ip ∨ server.ip = ip

variable {ip : UInt32}

def Duplex.conn (d : Duplex ip) : Conn := s(d.client, d.server)

/-- An accepted data packet: a whole request from the client, or some bytes
from the server. -/
inductive Packet (d : Duplex ip) where
  | command (f : Frame) (name : List UInt8) (args : List (List UInt8))
      (delivers : f.Delivers d.client d.server (respArray (name :: args)))
  | reply (f : Frame) (payload : List UInt8) (data : payload ≠ [])
      (delivers : f.Delivers d.server d.client payload)

variable {d : Duplex ip}

def Packet.frame : Packet d → Frame
  | .command f _ _ _ => f
  | .reply f _ _ _ => f

def packetStep (p : Packet d) : Slot → Slot × Option Report := p.frame.slotStep

/-- `pkt_recv` on every packet in turn. -/
def recvPackets (packets : List (Packet d)) : PortW (List (Option Report)) :=
  packets.mapM (fun p => recvFrame ip p.frame)

/-- The table holds for connection `k` what `slot` says. -/
def SlotIs (w : PortWorld) (k : Conn) (slot : Slot) : Prop :=
  ∃ m, PortTable w m ∧ SlotRel m k slot

/-- A packet that meets an idle connection can be parsed without writing past
the 32 bytes of a command name. -/
def Packet.Readable (p : Packet d) (slot : Slot) : Prop :=
  slot = .idle → ∃ parsed, p.frame.parsed = .ok parsed

section Steps

variable {w : PortWorld} {slot : Slot} {p : Packet d}

theorem Packet.accepted (p : Packet d) : p.frame.Accepted ip := by
  cases p with
  | command f name args delivers => exact delivers.accepted d.monitored
  | reply f payload data delivers => exact delivers.accepted d.monitored.symm

theorem Packet.conn_eq (p : Packet d) : p.frame.tuple.conn = d.conn := by
  cases p with
  | command f name args delivers =>
      change f.tuple.conn = d.conn
      rw [delivers.tuple_eq]
      rfl
  | reply f payload data delivers =>
      change f.tuple.conn = d.conn
      rw [delivers.tuple_eq]
      exact Sym2.eq_swap

theorem packet_run (hslot : SlotIs w d.conn slot) (hreadable : p.Readable slot) :
    ∃ w', (recvFrame ip p.frame).run w = .ok ((packetStep p slot).2, w') ∧
      SlotIs w' d.conn (packetStep p slot).1 := by
  obtain ⟨m, ht, hrel⟩ := hslot
  rw [← p.conn_eq] at hrel ⊢
  obtain ⟨w', m', ret, hrun, ht', hrel', _⟩ := recv_slot ht p.accepted hrel hreadable
  exact ⟨w', by simp [recvFrame, hrun, packetStep], m', ht', hrel'⟩

theorem packet_breaks (hslot : SlotIs w d.conn slot) (hunreadable : ¬ p.Readable slot) :
    ∃ e, (recvFrame ip p.frame).run w = .error e := by
  obtain ⟨m, ht, hrel⟩ := hslot
  unfold Packet.Readable at hunreadable
  push Not at hunreadable
  obtain ⟨hidle, hnone⟩ := hunreadable
  subst hidle
  rw [← p.conn_eq] at hrel
  obtain ⟨e, hrun⟩ := recv_slot_breaks ht p.accepted hrel hnone
  exact ⟨e, by simp [recvFrame, hrun]⟩

theorem recvPackets_tail {packets : List (Packet d)} {w₁ w₂ : PortWorld}
    {out : Option Report} {outs : List (Option Report)}
    (hfirst : (recvFrame ip p.frame).run w = .ok (out, w₁))
    (hrun : (recvPackets (p :: packets)).run w = .ok (outs, w₂)) :
    ∃ rest, (recvPackets packets).run w₁ = .ok (rest, w₂) := by
  let body : Packet d → PortW (Option Report) := fun p => recvFrame ip p.frame
  have hbody : (body p).run w = .ok (out, w₁) := hfirst
  obtain ⟨rest, hrest, _⟩ := mapM_cons_ok hbody hrun
  exact ⟨rest, hrest⟩

/-- A run of readable packets is the run of the connection's slot. -/
theorem packets_run {packets : List (Packet d)} (hslot : SlotIs w d.conn slot)
    (hreadable : Along packetStep Packet.Readable packets slot) :
    ∃ w', (recvPackets packets).run w = .ok ((run packetStep packets slot).2, w') ∧
      SlotIs w' d.conn (run packetStep packets slot).1 :=
  mapM_follows packetStep (fun w slot => SlotIs w d.conn slot)
    (fun _ _ _ hslot hreadable => packet_run hslot hreadable) packets w slot hslot hreadable

/-- Requests and replies have different 4-tuples. -/
theorem tuple_ne (d : Duplex ip) : tupleOf d.client d.server ≠ tupleOf d.server d.client := by
  intro heq
  have hfields := PortItem.mk.inj heq
  apply d.apart
  cases hclient : d.client
  cases hserver : d.server
  rw [hclient, hserver] at hfields
  rw [Endpoint.mk.injEq]
  exact ⟨hfields.2.2.1, hfields.1⟩

end Steps

section Roles

/-- The slot waits for a packet from the server. -/
def Slot.AwaitsServer (d : Duplex ip) (slot : Slot) : Prop :=
  ∀ key cmd sec uSec, slot = .pending key cmd sec uSec → key = tupleOf d.server d.client

/-- When it meets an idle connection, a packet from the server must not look
like a command that could be stored. -/
def Packet.Recognised (p : Packet d) (slot : Slot) : Prop :=
  p.Readable slot ∧
    match p with
    | .command _ _ _ _ => True
    | .reply f _ _ _ => slot = .idle → f.command = none ∨ f.want = none

/-- RESP values, arrays included. -/
inductive IsReply : List UInt8 → Prop
  | status (line : List UInt8) (single : ¬ crlf <:+: line) : IsReply (0x2b :: (line ++ crlf))
  | error (line : List UInt8) (single : ¬ crlf <:+: line) : IsReply (0x2d :: (line ++ crlf))
  | integer (n : Nat) : IsReply (0x3a :: (decimal n ++ crlf))
  | bulk (s : List UInt8) : IsReply (bulkString s)
  | null : IsReply (0x24 :: 0x2d :: 0x31 :: crlf)
  | array (elements : List (List UInt8)) (values : ∀ e ∈ elements, IsReply e) :
      IsReply (0x2a :: (decimal elements.length ++ crlf ++ elements.flatten))

/-- The bytes received from the server. -/
def received (packets : List (Packet d)) : List UInt8 :=
  packets.flatMap (fun p => match p with
    | .command _ _ _ _ => []
    | .reply _ payload _ _ => payload)

/-- How many commands the client has sent. -/
def sent (packets : List (Packet d)) : Nat :=
  packets.countP (fun p => match p with
    | .command _ _ _ _ => true
    | .reply _ _ _ _ => false)

/-- The server sends one reply to each command, cut anywhere, and nothing to a
command it has not received. -/
def Dialogue (packets : List (Packet d)) : Prop :=
  ∃ replies : List (List UInt8), (∀ r ∈ replies, IsReply r) ∧
    ∀ before ∈ packets.inits, received before <+: (replies.take (sent before)).flatten

/-- No packet from the client is taken for a reply, and no packet from the
server makes an item. -/
def NeverMistaken (packets : List (Packet d)) (w : PortWorld) : Prop :=
  ∀ before p after, packets = before ++ p :: after →
    ∃ outs w₁ m₁ out w₂ m₂,
      (recvPackets before).run w = .ok (outs, w₁) ∧ PortTable w₁ m₁ ∧
      (recvFrame ip p.frame).run w₁ = .ok (out, w₂) ∧ PortTable w₂ m₂ ∧
      match p with
      | .command _ _ _ _ => out = none
      | .reply _ _ _ _ => (∀ key : PortItem, key.conn = d.conn → m₁ key = none) →
          ∀ key : PortItem, key.conn = d.conn → m₂ key = none

variable {w : PortWorld} {slot : Slot} {packets : List (Packet d)}

theorem opened_idle_iff (f : Frame) : f.opened = .idle ↔ f.command = none ∨ f.want = none := by
  unfold Frame.opened
  cases f.command <;> cases f.want <;> simp

/-- A recognised packet leaves a slot that waits for the server. -/
theorem awaitsServer_step (p : Packet d) (slot : Slot) (hawaits : slot.AwaitsServer d)
    (hrecognised : p.Recognised slot) : (packetStep p slot).1.AwaitsServer d := by
  cases slot with
  | idle =>
      intro key cmd sec uSec hpending
      cases p with
      | command f name args delivers =>
          change f.opened = _ at hpending
          unfold Frame.opened at hpending
          split at hpending
          · rw [← (Slot.pending.inj hpending).1, delivers.tuple_eq]
            rfl
          · cases hpending
      | reply f payload data delivers =>
          have hopened := (opened_idle_iff f).mpr (hrecognised.2 rfl)
          change f.opened = _ at hpending
          rw [hopened] at hpending
          cases hpending
  | pending key cmd sec uSec =>
      intro key' cmd' sec' uSec' hpending
      rcases eq_or_ne p.frame.tuple key with hkey | hkey
      · rw [packetStep, Frame.slotStep_answer hkey] at hpending
        cases hpending
      · rw [packetStep, Frame.slotStep_renew hkey] at hpending
        rw [← (Slot.pending.inj hpending).1]
        exact hawaits key cmd sec uSec rfl

theorem SlotRel.idle_of_none {m : PortMap} {k : Conn} (hrel : SlotRel m k slot)
    (hnone : ∀ key : PortItem, key.conn = k → m key = none) : slot = .idle := by
  cases slot with
  | idle => rfl
  | pending key cmd sec uSec =>
      obtain ⟨hconn, ⟨a, hcell⟩, _⟩ := hrel
      rw [hnone key hconn] at hcell
      cases hcell

theorem neverMistaken_of_recognised (hslot : SlotIs w d.conn slot)
    (hawaits : slot.AwaitsServer d)
    (halong : Along packetStep Packet.Recognised packets slot) :
    NeverMistaken packets w := by
  rintro before p after rfl
  obtain ⟨hbefore, hp, _⟩ := (along_append packetStep _ before (p :: after) slot).mp halong
  obtain ⟨w₁, hrun₁, hslot₁⟩ := packets_run hslot (hbefore.mono (fun _ _ h => h.1))
  have hawaits₁ := along_invariant (Slot.AwaitsServer d) awaitsServer_step before slot
    hawaits hbefore
  obtain ⟨m₁, ht₁, hrel₁⟩ := hslot₁
  obtain ⟨w₂, hrun₂, m₂, ht₂, hrel₂⟩ := packet_run ⟨m₁, ht₁, hrel₁⟩ hp.1
  refine ⟨_, w₁, m₁, _, w₂, m₂, hrun₁, ht₁, hrun₂, ht₂, ?_⟩
  cases p with
  | command f name args delivers =>
      change (f.slotStep _).2 = none
      cases hslot₁ : (run packetStep before slot).1 with
      | idle => rfl
      | pending key cmd sec uSec =>
          have hkey := hawaits₁ key cmd sec uSec hslot₁
          have hne : f.tuple ≠ key := by
            rw [delivers.tuple_eq, hkey]
            exact tuple_ne d
          rw [Frame.slotStep_renew hne]
  | reply f payload data delivers =>
      intro hnone
      have hidle := hrel₁.idle_of_none hnone
      have hopened : (packetStep (Packet.reply f payload data delivers)
          (run packetStep before slot).1).1 = .idle := by
        rw [hidle]
        exact (opened_idle_iff f).mpr (hp.2 hidle)
      rw [hopened] at hrel₂
      exact hrel₂

theorem recognised_of_neverMistaken (hslot : SlotIs w d.conn slot)
    (hnever : NeverMistaken packets w) :
    Along packetStep Packet.Recognised packets slot := by
  induction packets generalizing w slot with
  | nil => trivial
  | cons p packets ih =>
      obtain ⟨_, _, m₁, out, w₂, m₂, hnil, ht₁, hrun, ht₂, hp⟩ := hnever [] p packets rfl
      cases hnil
      have hreadable : p.Readable slot := by
        by_contra hunreadable
        obtain ⟨e, hbreaks⟩ := packet_breaks hslot hunreadable
        rw [hbreaks] at hrun
        cases hrun
      obtain ⟨w', hrun', hslot'⟩ := packet_run hslot hreadable
      obtain ⟨rfl, rfl⟩ : out = (packetStep p slot).2 ∧ w₂ = w' := by
        rw [hrun'] at hrun
        have hpair := Except.ok.inj hrun
        exact ⟨(Prod.mk.inj hpair).1.symm, (Prod.mk.inj hpair).2.symm⟩
      refine ⟨⟨hreadable, ?_⟩, ih hslot' ?_⟩
      · cases p with
        | command f name args delivers => trivial
        | reply f payload data delivers =>
            rintro rfl
            obtain ⟨m, ht, hrel⟩ := hslot
            obtain ⟨m', ht', hrel'⟩ := hslot'
            rw [ht₁.unique ht, ht₂.unique ht'] at hp
            exact (opened_idle_iff f).mp (hrel'.idle_of_none (hp hrel))
      · rintro before p' after rfl
        obtain ⟨outs, w₁, m₁, out, w₂, m₂, hrun₁, hrest⟩ :=
          hnever (p :: before) p' after rfl
        obtain ⟨rest, hrest₁⟩ := recvPackets_tail hrun' hrun₁
        exact ⟨rest, w₁, m₁, out, w₂, m₂, hrest₁, hrest⟩

/-- For every connection and every sequence of its packets, starting idle: the
roles are never mistaken exactly when every packet from the server that meets
the connection idle is rejected by `redis_cmd_parse`, or finds no memory for an
item. -/
theorem neverMistaken_iff (packets : List (Packet d)) (w : PortWorld)
    (hidle : SlotIs w d.conn .idle) :
    NeverMistaken packets w ↔ Along packetStep Packet.Recognised packets .idle := by
  constructor
  · exact recognised_of_neverMistaken hidle
  · apply neverMistaken_of_recognised hidle
    intro key cmd sec uSec hpending
    cases hpending

def sampleDuplex : Duplex sampleServer.ip := ⟨sampleClient, sampleServer, by decide, Or.inr rfl⟩

def sampleCommand (name : List UInt8) (args : List (List UInt8)) (sec : UInt32)
    (hfits : 40 + (respArray (name :: args)).length < 2 ^ 16) : Packet sampleDuplex :=
  .command (segmentFrame sampleClient sampleServer (respArray (name :: args)) sec 0 (some 0))
    name args (segmentFrame_delivers _ _ _ _ _ _ (respArray_ne_nil _) hfits)

def sampleAnswer (payload : List UInt8) (sec : UInt32) (data : payload ≠ [])
    (hfits : 40 + payload.length < 2 ^ 16) : Packet sampleDuplex :=
  .reply (segmentFrame sampleServer sampleClient payload sec 0 (some 0)) payload data
    (segmentFrame_delivers _ _ _ _ _ _ data hfits)

theorem slotIs_empty (ht : PortTable w PortMap.empty) (k : Conn) : SlotIs w k .idle :=
  ⟨PortMap.empty, ht, fun _ _ => rfl⟩

/-- The reply `+OK`. -/
def statusReply : List UInt8 := [0x2b, 0x4f, 0x4b, 0x0d, 0x0a]

/-- An array with the one element `foo`. -/
def arrayReply : List UInt8 :=
  [0x2a, 0x31, 0x0d, 0x0a, 0x24, 0x33, 0x0d, 0x0a, 0x66, 0x6f, 0x6f, 0x0d, 0x0a]

def answerOk (sec : UInt32) : Packet sampleDuplex :=
  sampleAnswer statusReply sec (by decide) (by decide)

/-- One PING and its answer. -/
def pingPackets : List (Packet sampleDuplex) :=
  [sampleCommand [0x50, 0x49, 0x4e, 0x47] [] 100 (by decide),
    answerOk 101]

theorem neverMistaken_iff_ping :
    ∃ w, SlotIs w sampleDuplex.conn .idle ∧
      (NeverMistaken pingPackets w ↔
        Along packetStep Packet.Recognised pingPackets .idle) := by
  obtain ⟨w, _, ht⟩ := portVHashInit_run
  exact ⟨w, slotIs_empty ht _, neverMistaken_iff pingPackets w (slotIs_empty ht _)⟩

/-- PING and KEYS are sent at once, and their answers come one by one. The
second answer is an array and finds the connection idle. -/
def pipelinedPackets : List (Packet sampleDuplex) :=
  [sampleCommand [0x50, 0x49, 0x4e, 0x47] [] 100 (by decide),
    sampleCommand [0x4b, 0x45, 0x59, 0x53] [[0x2a]] 101 (by decide),
    answerOk 102,
    sampleAnswer arrayReply 103 (by decide) (by decide)]

theorem dialogue_pipelined : Dialogue pipelinedPackets := by
  have hstatus : IsReply statusReply :=
    IsReply.status [0x4f, 0x4b] (by decide)
  have hfoo : IsReply [0x24, 0x33, 0x0d, 0x0a, 0x66, 0x6f, 0x6f, 0x0d, 0x0a] :=
    IsReply.bulk [0x66, 0x6f, 0x6f]
  have harray : IsReply arrayReply :=
    IsReply.array [[0x24, 0x33, 0x0d, 0x0a, 0x66, 0x6f, 0x6f, 0x0d, 0x0a]] (by simpa using hfoo)
  refine ⟨[statusReply, arrayReply], ?_, ?_⟩
  · intro r hr
    rcases List.mem_pair.mp hr with rfl | rfl
    · exact hstatus
    · exact harray
  · decide

/-- The array is taken for a command, and the item it makes for a pending
request. -/
theorem neverMistaken_pipelined :
    ∃ w, SlotIs w sampleDuplex.conn .idle ∧ Dialogue pipelinedPackets ∧
      ¬ NeverMistaken pipelinedPackets w := by
  obtain ⟨w, _, ht⟩ := portVHashInit_run
  refine ⟨w, slotIs_empty ht _, dialogue_pipelined, ?_⟩
  intro hnever
  obtain ⟨_, _, _, ⟨_, hrecognised⟩, _⟩ :=
    recognised_of_neverMistaken (slotIs_empty ht _) hnever
  have hparsed := hrecognised (by decide +kernel)
  revert hparsed
  decide +kernel

end Roles

end RedisTrace
