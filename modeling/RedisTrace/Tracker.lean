import Mathlib.Data.Sym.Sym2
import RedisTrace.Library.Machine
import RedisTrace.Frames

/-!
What `pkt_recv` is for: one slot per connection, idle or waiting for the reply
to a command. The connection table implements the family of these slots.
-/

namespace RedisTrace

open CircularList Run Machine

/-- The two ends of a connection, in no order. -/
abbrev Conn := Sym2 Endpoint

def PortItem.conn (item : PortItem) : Conn :=
  s(⟨item.sip, item.sport⟩, ⟨item.dip, item.dport⟩)

/-- A pending slot holds the 4-tuple its reply will have, the command, and the
time of the last packet from the asking side. -/
inductive Slot where
  | idle
  | pending (key : PortItem) (cmd : CmdChars) (sec uSec : UInt32)
  deriving DecidableEq, Repr

namespace Frame

/-- The command in the payload, when `redis_cmd_parse` accepts it. -/
def command (f : Frame) : Option CmdChars :=
  match f.parsed with
  | .ok parsed => if parsed.ret = 0 then some (strncpy parsed.pstRdsCmd.cmd) else none
  | .error _ => none

/-- The slot an idle connection turns to. -/
def opened (f : Frame) : Slot :=
  match f.command, f.want with
  | some cmd, some _ => .pending f.tuple.swap cmd f.sec f.uSec
  | _, _ => .idle

def slotStep (f : Frame) : Slot → Slot × Option Report
  | .idle => (f.opened, none)
  | .pending key cmd sec uSec =>
      if f.tuple = key then (.idle, some ⟨⟨sec, uSec, cmd, key⟩, f.sec, f.uSec⟩)
      else (.pending key cmd f.sec f.uSec, none)

theorem slotStep_answer {f : Frame} {key : PortItem} (hkey : f.tuple = key)
    (cmd : CmdChars) (sec uSec : UInt32) :
    f.slotStep (.pending key cmd sec uSec) =
      (.idle, some ⟨⟨sec, uSec, cmd, key⟩, f.sec, f.uSec⟩) := if_pos hkey

theorem slotStep_renew {f : Frame} {key : PortItem} (hkey : f.tuple ≠ key)
    (cmd : CmdChars) (sec uSec : UInt32) :
    f.slotStep (.pending key cmd sec uSec) = (.pending key cmd f.sec f.uSec, none) :=
  if_neg hkey

/-- Only accepted frames reach a slot. -/
def route (ip : UInt32) (f : Frame) : Option Conn :=
  if f.Accepted ip then some f.tuple.conn else none

/-- What is copied of a command name leaves room for a NUL. -/
def NameFits (f : Frame) : Prop := ∃ parsed, f.parsed = .ok parsed ∧ parsed.copied ≤ 31

/-- The buffer after `pkt_recv`, which parses only for idle connections. -/
def rbufAfter (f : Frame) : Slot → Bytes
  | .idle =>
      match f.parsed with
      | .ok parsed => parsed.buf
      | .error _ => f.rbuf
  | .pending _ _ _ _ => f.rbuf

/-- The same for a frame that need not be accepted. -/
def bufferAfter (ip : UInt32) (f : Frame) (slots : Conn → Slot) : Bytes :=
  match f.route ip with
  | some k => f.rbufAfter (slots k)
  | none => f.rbuf

/-- A frame that meets an idle connection can be parsed without writing past
the 32 bytes of a command name. -/
def Readable (ip : UInt32) (f : Frame) (slots : Conn → Slot) : Prop :=
  ∀ k, f.route ip = some k → slots k = .idle → ∃ parsed, f.parsed = .ok parsed

end Frame

/-- All slots together, driven by the frames the tracer looks at. -/
def tracker (ip : UInt32) : Frame → (Conn → Slot) → (Conn → Slot) × Option Report :=
  family (Frame.route ip) Frame.slotStep

def allIdle : Conn → Slot := fun _ => .idle

instance (f : Frame) : Decidable f.NameFits :=
  match h : f.parsed with
  | .ok parsed => decidable_of_iff (parsed.copied ≤ 31)
      ⟨fun hle => ⟨parsed, h, hle⟩, fun ⟨p, hp, hle⟩ => by
        rw [h] at hp
        cases hp
        exact hle⟩
  | .error _ => isFalse (fun ⟨p, hp, _⟩ => by
      rw [h] at hp
      cases hp)

instance (f : Frame) : Decidable (∃ parsed, f.parsed = .ok parsed) :=
  match h : f.parsed with
  | .ok parsed => isTrue ⟨parsed, rfl⟩
  | .error _ => isFalse (fun ⟨_, hp⟩ => by cases hp)

instance (ip : UInt32) (f : Frame) (slots : Conn → Slot) : Decidable (f.Readable ip slots) :=
  decidableRouted _ _

/-- A name that is copied while its connection is idle fits. -/
def NamesFit (ip : UInt32) (frames : List Frame) (slots : Conn → Slot) : Prop :=
  Along (tracker ip) (fun f slots =>
    ∀ k, f.route ip = some k → slots k = .idle → f.NameFits) frames slots

instance (ip : UInt32) (frames : List Frame) (slots : Conn → Slot) :
    Decidable (NamesFit ip frames slots) :=
  decidableAlong _ _ _ _

/-- `pkt_recv` on one frame, as far as its output goes. -/
def recvFrame (ip : UInt32) (f : Frame) : PortW (Option Report) := do
  let received ← f.recv ip
  return received.report

/-- `PORT_VHash_INIT` and `pkt_recv` on every frame in turn. -/
def pktTrace (ip : UInt32) (frames : List Frame) : PortW (List (Option Report)) := do
  portVHashInit true
  frames.mapM (recvFrame ip)

section Connections

theorem conn_swap (key : PortItem) : key.swap.conn = key.conn := Sym2.eq_swap

theorem conn_eq_iff (key key' : PortItem) :
    key.conn = key'.conn ↔ key = key' ∨ key = key'.swap := by
  constructor
  · intro heq
    cases key
    cases key'
    simp only [PortItem.conn, PortItem.swap, Sym2.eq_iff, Endpoint.mk.injEq,
      PortItem.mk.injEq] at heq ⊢
    tauto
  · rintro (rfl | rfl)
    · rfl
    · exact conn_swap key'

end Connections

/-- The table holds for connection `k` what its slot says: nothing, or one item
in one orientation. -/
def SlotRel (m : PortMap) (k : Conn) : Slot → Prop
  | .idle => ∀ key, key.conn = k → m key = none
  | .pending key cmd sec uSec =>
      key.conn = k ∧ (∃ a, m key = some ⟨a, sec, uSec, cmd⟩) ∧
        ∀ key', key'.conn = k → key' ≠ key → m key' = none

section Simulation

variable {w : PortWorld} {m m' : PortMap} {ip : UInt32} {f : Frame} {k : Conn}

theorem SlotRel.congr {slot : Slot} (hrel : SlotRel m k slot)
    (hsame : ∀ key, key.conn = k → m' key = m key) : SlotRel m' k slot := by
  cases slot with
  | idle =>
      intro key hkey
      rw [hsame key hkey]
      exact hrel key hkey
  | pending key cmd sec uSec =>
      obtain ⟨hconn, ⟨a, hcell⟩, hothers⟩ := hrel
      refine ⟨hconn, ⟨a, ?_⟩, ?_⟩
      · rw [hsame key hconn]
        exact hcell
      · intro key' hkey' hne
        rw [hsame key' hkey']
        exact hothers key' hkey' hne

/-- The slot decides what the table holds for its connection, addresses apart. -/
theorem SlotRel.items_eq {m m' : PortMap} {slot : Slot} (hm : SlotRel m k slot)
    (hm' : SlotRel m' k slot) {key : PortItem} (hkey : key.conn = k) :
    (m key).map (fun c => c.item key) = (m' key).map (fun c => c.item key) := by
  cases slot with
  | idle => rw [hm key hkey, hm' key hkey]
  | pending key₀ cmd sec uSec =>
      obtain ⟨_, ⟨a, hcell⟩, hothers⟩ := hm
      obtain ⟨_, ⟨a', hcell'⟩, hothers'⟩ := hm'
      rcases eq_or_ne key key₀ with rfl | hne
      · rw [hcell, hcell']
        rfl
      · rw [hothers key hkey hne, hothers' key hkey hne]

/-- Storing the only item of a connection. -/
theorem slotRel_update {key : PortItem} (c : Cell)
    (hothers : ∀ key', key'.conn = key.conn → key' ≠ key → m key' = none) :
    SlotRel (Function.update m key (some c)) key.conn (.pending key c.cmd c.sec c.uSec) := by
  refine ⟨rfl, ⟨c.ptr, Function.update_self _ _ _⟩, ?_⟩
  intro key' hkey' hne
  rw [Function.update_of_ne hne]
  exact hothers key' hkey' hne

theorem update_elsewhere {key : PortItem} (c : Option Cell) :
    ∀ key', key'.conn ≠ key.conn → Function.update m key c key' = m key' := by
  intro key' hne
  apply Function.update_of_ne
  rintro rfl
  exact hne rfl

/-- One accepted frame does to its connection's items what the slot does, and
nothing to the others'. -/
theorem recv_slot (ht : PortTable w m) (haccepted : f.Accepted ip) {slot : Slot}
    (hrel : SlotRel m f.tuple.conn slot)
    (hparsed : slot = .idle → ∃ parsed, f.parsed = .ok parsed) :
    ∃ w' m' ret, (f.recv ip).run w =
        .ok (⟨ret, (f.slotStep slot).2, f.rbufAfter slot⟩, w') ∧
      PortTable w' m' ∧ SlotRel m' f.tuple.conn (f.slotStep slot).1 ∧
      ∀ key, key.conn ≠ f.tuple.conn → m' key = m key := by
  have hswap := conn_swap f.tuple
  cases slot with
  | idle =>
      obtain ⟨parsed, hok⟩ := hparsed rfl
      have hnone := hrel f.tuple rfl
      have hnone' := hrel f.tuple.swap hswap
      have hafter : f.rbufAfter .idle = parsed.buf := by
        simp [Frame.rbufAfter, hok]
      rcases eq_or_ne parsed.ret 0 with hret | hret
      · have hcommand : f.command = some (strncpy parsed.pstRdsCmd.cmd) := by
          simp [Frame.command, hok, hret]
        cases hwant : f.want with
        | none =>
            obtain ⟨w', hrun, ht'⟩ :=
              recv_unstored ht haccepted hnone hnone' hok hret hwant
            have hopened : f.slotStep .idle = (.idle, none) := by
              simp [Frame.slotStep, Frame.opened, hcommand, hwant]
            rw [hopened, hafter]
            exact ⟨w', m, 1, hrun, ht', hrel, fun _ _ => rfl⟩
        | some want =>
            obtain ⟨w', a, hrun, _, ht'⟩ :=
              recv_request ht haccepted hnone hnone' hok hret hwant
            have hopened : f.slotStep .idle = (.pending f.tuple.swap
                (strncpy parsed.pstRdsCmd.cmd) f.sec f.uSec, none) := by
              simp [Frame.slotStep, Frame.opened, hcommand, hwant]
            rw [hopened, hafter]
            refine ⟨w', _, 1, hrun, ht', ?_, ?_⟩
            · rw [← hswap]
              apply slotRel_update ⟨a, f.sec, f.uSec, strncpy parsed.pstRdsCmd.cmd⟩
              intro key' hkey' _
              exact hrel key' (hkey'.trans hswap)
            · rw [← hswap]
              exact update_elsewhere _
      · obtain ⟨w', hrun, ht'⟩ := recv_unparsed ht haccepted hnone hnone' hok hret
        have hopened : f.slotStep .idle = (.idle, none) := by
          simp [Frame.slotStep, Frame.opened, Frame.command, hok, hret]
        rw [hopened, hafter]
        exact ⟨w', m, 0, hrun, ht', hrel, fun _ _ => rfl⟩
  | pending key cmd sec uSec =>
      obtain ⟨hconn, ⟨a, hcell⟩, hothers⟩ := hrel
      rcases eq_or_ne f.tuple key with rfl | hkey
      · obtain ⟨w', hrun, ht'⟩ := recv_reply ht haccepted hcell
        rw [Frame.slotStep_answer rfl]
        refine ⟨w', _, 1, hrun, ht', ?_, update_elsewhere _⟩
        intro key' hkey'
        rcases eq_or_ne key' f.tuple with rfl | hne
        · exact Function.update_self _ _ _
        · rw [Function.update_of_ne hne]
          exact hothers key' hkey' hne
      · have hswapped : f.tuple.swap = key := by
          rcases (conn_eq_iff key f.tuple).mp hconn with heq | heq
          · exact absurd heq.symm hkey
          · exact heq.symm
        subst hswapped
        have hnone : m f.tuple = none := hothers f.tuple rfl hkey
        obtain ⟨w', hrun, ht'⟩ := recv_repeat ht haccepted hnone hcell
        rw [Frame.slotStep_renew hkey]
        refine ⟨w', _, 1, hrun, ht', ?_, ?_⟩
        · rw [← hswap]
          apply slotRel_update ⟨a, f.sec, f.uSec, cmd⟩
          intro key' hkey' hne
          exact hothers key' (hkey'.trans hswap) hne
        · rw [← hswap]
          exact update_elsewhere _

theorem accepted_of_route (hroute : f.route ip = some k) :
    f.Accepted ip ∧ f.tuple.conn = k := by
  unfold Frame.route at hroute
  split at hroute
  · next haccepted => exact ⟨haccepted, Option.some.inj hroute⟩
  · cases hroute

theorem rbufAfter_header (haccepted : f.Accepted ip) (slot : Slot) {i : Nat} (hi : i < 34) :
    f.rbufAfter slot i = f.rbuf i := by
  have hdata : 34 ≤ f.decoded.2.dataptr := by
    rw [decoded_desc haccepted.1]
    exact Nat.le_add_right 34 _
  cases slot with
  | idle =>
      cases hparsed : f.parsed with
      | error e => simp [Frame.rbufAfter, hparsed]
      | ok parsed =>
          have hbuf : parsed.buf i = f.rbuf i := redisCmdParse_buf hparsed (by omega)
          simp [Frame.rbufAfter, hparsed, hbuf]
  | pending key cmd sec uSec => rfl

/-- What `pkt_recv` changes in the buffer lies behind the headers. -/
theorem bufferAfter_header (ip : UInt32) (f : Frame) (slots : Conn → Slot) {i : Nat}
    (hi : i < 34) : f.bufferAfter ip slots i = f.rbuf i := by
  unfold Frame.bufferAfter
  cases hroute : f.route ip with
  | none => rfl
  | some k => exact rbufAfter_header (accepted_of_route hroute).1 (slots k) hi

/-- The table and the slots agree. -/
def Tracks (w : PortWorld) (slots : Conn → Slot) : Prop :=
  ∃ m, PortTable w m ∧ ∀ k, SlotRel m k (slots k)

/-- One frame, whatever it is. -/
theorem recv_tracks {slots : Conn → Slot} (htracks : Tracks w slots)
    (hparsed : f.Readable ip slots) :
    ∃ w' received, (f.recv ip).run w = .ok (received, w') ∧
      received.report = (tracker ip f slots).2 ∧ received.rbuf = f.bufferAfter ip slots ∧
      Tracks w' (tracker ip f slots).1 := by
  by_cases haccepted : f.Accepted ip
  · have hroute : f.route ip = some f.tuple.conn := if_pos haccepted
    obtain ⟨m, ht, hslots⟩ := htracks
    obtain ⟨w', m', ret, hrun, ht', hslot, hsame⟩ :=
      recv_slot ht haccepted (hslots f.tuple.conn) (hparsed _ hroute)
    have hbuffer : f.bufferAfter ip slots = f.rbufAfter (slots f.tuple.conn) := by
      rw [Frame.bufferAfter, hroute]
    refine ⟨w', _, hrun, (family_answer slots hroute).symm, hbuffer.symm, m', ht', ?_⟩
    intro k
    rcases eq_or_ne k f.tuple.conn with rfl | hne
    · rw [tracker, family_self slots hroute]
      exact hslot
    · have hother : f.route ip ≠ some k := by
        rw [hroute]
        intro heq
        exact hne (Option.some.inj heq).symm
      rw [tracker, family_elsewhere slots hother]
      exact (hslots k).congr (fun key hkey => hsame key (by rw [hkey]; exact hne))
  · have hroute : f.route ip = none := if_neg haccepted
    refine ⟨w, _, recv_refused haccepted, ?_, ?_, ?_⟩
    · rw [tracker, family_unrouted slots hroute]
    · rw [Frame.bufferAfter, hroute]
    · rw [tracker, family_unrouted slots hroute]
      exact htracks

/-- A name too long for its 32 bytes ends the run. -/
theorem recv_slot_breaks (ht : PortTable w m) (haccepted : f.Accepted ip)
    (hidle : SlotRel m f.tuple.conn .idle) (hnone : ∀ parsed, f.parsed ≠ .ok parsed) :
    ∃ e, (f.recv ip).run w = .error e := by
  cases hparsed : f.parsed with
  | ok parsed => exact absurd hparsed (hnone parsed)
  | error e =>
      exact ⟨e, recv_fault ht haccepted (hidle _ rfl) (hidle _ (conn_swap _)) hparsed⟩

theorem recv_breaks {slots : Conn → Slot} (htracks : Tracks w slots)
    (hunreadable : ¬ f.Readable ip slots) : ∃ e, (f.recv ip).run w = .error e := by
  unfold Frame.Readable at hunreadable
  push Not at hunreadable
  obtain ⟨k, hroute, hidle, hnone⟩ := hunreadable
  obtain ⟨m, ht, hslots⟩ := htracks
  obtain ⟨haccepted, rfl⟩ := accepted_of_route hroute
  have hslot := hslots f.tuple.conn
  rw [hidle] at hslot
  exact recv_slot_breaks ht haccepted hslot hnone

theorem recvFrame_tracks {slots : Conn → Slot} (htracks : Tracks w slots)
    (hfits : ∀ k, f.route ip = some k → slots k = .idle → f.NameFits) :
    ∃ w', (recvFrame ip f).run w = .ok ((tracker ip f slots).2, w') ∧
      Tracks w' (tracker ip f slots).1 := by
  obtain ⟨w', received, hrun, hreport, _, htracks'⟩ := recv_tracks htracks (by
    intro k hroute hidle
    obtain ⟨parsed, hok, _⟩ := hfits k hroute hidle
    exact ⟨parsed, hok⟩)
  exact ⟨w', by simp [recvFrame, hrun, hreport], htracks'⟩

theorem tracks_empty (ht : PortTable w PortMap.empty) : Tracks w allIdle :=
  ⟨PortMap.empty, ht, fun _ _ _ => rfl⟩

/-- The run of the tracer from the empty table is the run of its slots. -/
theorem pktTrace_run (ip : UInt32) (frames : List Frame)
    (hfits : NamesFit ip frames allIdle) :
    ∃ w, (pktTrace ip frames).run (vhashInit enVHashMoudleMax) =
        .ok ((run (tracker ip) frames allIdle).2, w) ∧
      Tracks w (run (tracker ip) frames allIdle).1 := by
  obtain ⟨w₀, hinit, ht₀⟩ := portVHashInit_run
  obtain ⟨w, hrun, htracks⟩ := mapM_follows (tracker ip) Tracks
    (fun _ _ _ htracks hfits => recvFrame_tracks htracks hfits) frames w₀ allIdle
    (tracks_empty ht₀) hfits
  refine ⟨w, ?_, htracks⟩
  rw [pktTrace, StateT.run_bind, hinit]
  exact hrun

/-- After a run the table holds the item of a pending slot. -/
theorem pktTrace_pending {frames : List Frame} (hfits : NamesFit ip frames allIdle)
    {key : PortItem} {cmd : CmdChars} {sec uSec : UInt32}
    (hpending : (run (tracker ip) frames allIdle).1 key.conn = .pending key cmd sec uSec) :
    ∃ outs w m a, (pktTrace ip frames).run (vhashInit enVHashMoudleMax) = .ok (outs, w) ∧
      PortTable w m ∧ m key = some ⟨a, sec, uSec, cmd⟩ := by
  obtain ⟨w, hrun, m, ht, hslots⟩ := pktTrace_run ip frames hfits
  have hslot := hslots key.conn
  rw [hpending] at hslot
  obtain ⟨_, ⟨a, hcell⟩, _⟩ := hslot
  exact ⟨_, w, m, a, hrun, ht, hcell⟩

/-- At most one orientation of a connection has an item. -/
theorem Tracks.one_orientation {slots : Conn → Slot} (hslots : ∀ k, SlotRel m k (slots k))
    {key : PortItem} (hne : key ≠ key.swap) : m key = none ∨ m key.swap = none := by
  have hslot := hslots key.conn
  cases hk : slots key.conn with
  | idle =>
      rw [hk] at hslot
      exact Or.inl (hslot key rfl)
  | pending key' cmd sec uSec =>
      rw [hk] at hslot
      obtain ⟨_, _, hothers⟩ := hslot
      rcases eq_or_ne key key' with rfl | hkey
      · exact Or.inr (hothers key.swap (conn_swap key) (Ne.symm hne))
      · exact Or.inl (hothers key rfl hkey)

/-- For every sequence of frames from the empty table and at every moment of
it, the reports are those of the slots, the items in the table are the pending
slots, and no connection has items in both orientations. -/
theorem pktTrace_refines_tracker (ip : UInt32) (frames : List Frame)
    (hfits : NamesFit ip frames allIdle) (n : Nat) :
    ∃ w m, (pktTrace ip (frames.take n)).run (vhashInit enVHashMoudleMax) =
        .ok ((run (tracker ip) (frames.take n) allIdle).2, w) ∧
      PortTable w m ∧
      (∀ k, SlotRel m k ((run (tracker ip) (frames.take n) allIdle).1 k)) ∧
      ∀ key : PortItem, key ≠ key.swap → m key = none ∨ m key.swap = none := by
  obtain ⟨w, hrun, m, ht, hslots⟩ :=
    pktTrace_run ip (frames.take n) (along_take _ _ frames allIdle hfits n)
  exact ⟨w, m, hrun, ht, hslots, fun _ hne => Tracks.one_orientation hslots hne⟩

/-- A PING and its reply. -/
theorem pktTrace_refines_tracker_ping :
    ∃ w m, (pktTrace sampleServer.ip ([sampleRequest, sampleReply].take 2)).run
        (vhashInit enVHashMoudleMax) =
        .ok ((run (tracker sampleServer.ip) ([sampleRequest, sampleReply].take 2)
          allIdle).2, w) ∧
      PortTable w m ∧
      (∀ k, SlotRel m k ((run (tracker sampleServer.ip)
        ([sampleRequest, sampleReply].take 2) allIdle).1 k)) ∧
      ∀ key : PortItem, key ≠ key.swap → m key = none ∨ m key.swap = none :=
  pktTrace_refines_tracker sampleServer.ip [sampleRequest, sampleReply] (by decide +kernel) 2

end Simulation

end RedisTrace
