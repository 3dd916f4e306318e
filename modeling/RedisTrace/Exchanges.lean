import RedisTrace.Independence
import RedisTrace.Library.Exchange

/-!
What a trace says about its reports. The frames of a connection fall into
frames that are passed over and exchanges: a command that is stored, further
frames from the asking side, and the first frame from the other side. Every
report is the end of an exchange, and the table holds the exchange that is
still open. This is so for every trace the tracer gets through.
-/

namespace RedisTrace

open CircularList Run Machine Exchange

/-- A request that waits for its reply: the 4-tuple the reply will have, the
command, and the time of the last frame from the asking side. -/
structure Waiting where
  key : PortItem
  cmd : CmdChars
  sec : UInt32
  uSec : UInt32

def Slot.waiting : Slot → Option Waiting
  | .idle => none
  | .pending key cmd sec uSec => some ⟨key, cmd, sec, uSec⟩

def Waiting.renewed (q : Waiting) (f : Frame) : Waiting := {q with sec := f.sec, uSec := f.uSec}

/-- The report of a request that `f` answers. -/
def Waiting.report (q : Waiting) (f : Frame) : Report :=
  ⟨⟨q.sec, q.uSec, q.cmd, q.key⟩, f.sec, f.uSec⟩

/-- The exchanges on one connection. -/
def exchanges : Protocol Frame Waiting Report where
  opens f := f.opened.waiting
  closes q f := f.tuple = q.key
  renewed := Waiting.renewed
  answer := Waiting.report
  closes_renewed _ _ _ := rfl

/-- The frames that open an exchange, in order. -/
def storedFrames (ip : UInt32) (frames : List Frame) : List Frame :=
  answers (opening exchanges (Frame.route ip)) frames (fun _ => none)

section Slots

variable {ip : UInt32} {k : Conn}

theorem exchanges_step (f : Frame) (slot : Slot) :
    exchanges.step f slot.waiting = ((f.slotStep slot).1.waiting, (f.slotStep slot).2) := by
  cases slot with
  | idle => rfl
  | pending key cmd sec uSec =>
      rcases eq_or_ne f.tuple key with hkey | hkey
      · rw [Frame.slotStep_answer hkey]
        simp [Slot.waiting, Protocol.step, exchanges, hkey, Waiting.report]
      · rw [Frame.slotStep_renew hkey]
        simp [Slot.waiting, Protocol.step, exchanges, hkey, Waiting.renewed]

theorem exchanges_run (frames : List Frame) :
    run exchanges.step frames none =
      ((run Frame.slotStep frames .idle).1.waiting, (run Frame.slotStep frames .idle).2) :=
  run_map Slot.waiting exchanges_step frames .idle

theorem exchanges_answers (fs : List Frame) (slot : Slot) :
    answers Frame.slotStep fs slot = answers exchanges.step fs slot.waiting := by
  rw [answers, answers, run_map Slot.waiting exchanges_step]

/-- The tracker, with its slots seen as open requests. -/
theorem tracker_exchanges (ip : UInt32) (frames : List Frame) :
    run (family (Frame.route ip) exchanges.step) frames (fun _ => none) =
      ((fun k => ((run (tracker ip) frames allIdle).1 k).waiting),
        (run (tracker ip) frames allIdle).2) := by
  refine run_map (fun (slots : Conn → Slot) k => (slots k).waiting) ?_ frames allIdle
  intro f slots
  cases hroute : f.route ip with
  | none => rw [tracker, family_unrouted slots hroute, family_unrouted _ hroute]
  | some k =>
      apply Prod.ext
      · rw [tracker, family_state slots hroute, family_state _ hroute]
        funext k'
        rw [exchanges_step]
        exact (apply_ite Slot.waiting (k' = k) _ _).symm
      · rw [tracker, family_answer slots hroute, family_answer _ hroute, exchanges_step]

theorem slot_of_complete {fs : List Frame} {reports : List Report}
    (hcomplete : Complete exchanges fs reports) : (run Frame.slotStep fs .idle).1 = .idle := by
  have hstate := hcomplete.run.1
  rw [exchanges_run] at hstate
  cases hslot : (run Frame.slotStep fs .idle).1 with
  | idle => rfl
  | pending key cmd sec uSec =>
      rw [hslot] at hstate
      cases hstate

theorem slot_of_pending {fs : List Frame} {reports : List Report} {q : Waiting}
    (hpending : Pending exchanges fs reports q) :
    (run Frame.slotStep fs .idle).1 = .pending q.key q.cmd q.sec q.uSec := by
  have hstate := hpending.run.1
  rw [exchanges_run] at hstate
  cases hslot : (run Frame.slotStep fs .idle).1 with
  | idle =>
      rw [hslot] at hstate
      cases hstate
  | pending key cmd sec uSec =>
      rw [hslot] at hstate
      cases hstate
      rfl

/-- An exchange of frames begins with a command that is stored. -/
theorem opens_iff {f : Frame} {q : Waiting} :
    exchanges.opens f = some q ↔ ∃ cmd, f.command = some cmd ∧ f.want.isSome ∧
      q = ⟨f.tuple.swap, cmd, f.sec, f.uSec⟩ := by
  change f.opened.waiting = some q ↔ _
  cases hcommand : f.command with
  | none => simp [Frame.opened, hcommand, Slot.waiting]
  | some cmd =>
      cases hwant : f.want with
      | none => simp [Frame.opened, hcommand, hwant, Slot.waiting]
      | some want =>
          simp only [Frame.opened, hcommand, hwant, Slot.waiting, Option.some.injEq,
            Option.isSome_some, true_and, exists_eq_left']
          exact eq_comm

theorem conn_of_mem {frames : List Frame} {f : Frame} (hf : f ∈ framesOf ip k frames) :
    f.tuple.conn = k := by
  have hroute : f.route ip = some k := by simpa using (List.mem_filter.mp hf).2
  exact (accepted_of_route hroute).2

/-- Over a row of frames only the time changes, to that of the last one. -/
theorem foldl_renewed (q : Waiting) (f : Frame) (between : List Frame)
    (hsec : q.sec = f.sec) (huSec : q.uSec = f.uSec) :
    between.foldl Waiting.renewed q = {q with
      sec := ((f :: between).getLast (by simp)).sec
      uSec := ((f :: between).getLast (by simp)).uSec} := by
  induction between generalizing q f with
  | nil =>
      cases q
      cases hsec
      cases huSec
      rfl
  | cons g between ih => exact ih (q.renewed g) g rfl rfl

end Slots

section Runs

variable {ip : UInt32} {frames : List Frame} {outs : List (Option Report)} {w : PortWorld}

/-- A frame is received as the slots say. -/
theorem recvFrame_follows (w : PortWorld) (slots : Conn → Slot) (f : Frame)
    (htracks : Tracks w slots) (hreadable : f.Readable ip slots) :
    ∃ w', (recvFrame ip f).run w = .ok ((tracker ip f slots).2, w') ∧
      Tracks w' (tracker ip f slots).1 := by
  obtain ⟨w', received, hrecv, hreport, _, htracks'⟩ := recv_tracks htracks hreadable
  exact ⟨w', by simp [recvFrame, hrecv, hreport], htracks'⟩

/-- A trace the tracer gets through is read by the slots. -/
theorem pktTrace_ok
    (hrun : (pktTrace ip frames).run (vhashInit enVHashMoudleMax) = .ok (outs, w)) :
    outs = (run (tracker ip) frames allIdle).2 ∧
      Tracks w (run (tracker ip) frames allIdle).1 := by
  obtain ⟨w₀, hinit, ht₀⟩ := portVHashInit_run
  have hbreaks : ∀ (w : PortWorld) (slots : Conn → Slot) (f : Frame), Tracks w slots →
      ¬ f.Readable ip slots → ∃ e, (recvFrame ip f).run w = .error e := by
    intro w slots f htracks hunreadable
    obtain ⟨e, hrecv⟩ := recv_breaks htracks hunreadable
    exact ⟨e, by simp [recvFrame, hrecv]⟩
  rw [pktTrace, StateT.run_bind, hinit] at hrun
  have halong := along_of_mapM_ok (tracker ip) Tracks recvFrame_follows hbreaks frames w₀
    allIdle (tracks_empty ht₀) hrun
  obtain ⟨w', hrun', htracks⟩ :=
    mapM_follows (tracker ip) Tracks recvFrame_follows frames w₀ allIdle (tracks_empty ht₀) halong
  have heq : Except.ok (outs, w) = Except.ok (_, w') := hrun.symm.trans hrun'
  cases heq
  exact ⟨rfl, htracks⟩

/-- The reports about a connection are the answers of its exchanges. -/
theorem reportsOf_exchanges
    (hrun : (pktTrace ip frames).run (vhashInit enVHashMoudleMax) = .ok (outs, w)) (k : Conn) :
    reportsOf k outs = answers exchanges.step (framesOf ip k frames) none := by
  rw [(pktTrace_ok hrun).1, reportsOf_run, exchanges_answers]
  rfl

/-- The frames of connection `k` are passed over or make up complete exchanges,
whose reports are those about the connection, and nothing is stored for it; or
one exchange is still open at the end, and the table holds it and nothing else
of the connection. -/
def Described (ip : UInt32) (frames : List Frame) (outs : List (Option Report)) (m : PortMap)
    (k : Conn) : Prop :=
  (Complete exchanges (framesOf ip k frames) (reportsOf k outs) ∧
    ∀ key : PortItem, key.conn = k → m key = none) ∨
  ∃ q, Pending exchanges (framesOf ip k frames) (reportsOf k outs) q ∧ q.key.conn = k ∧
    (∃ a, m q.key = some ⟨a, q.sec, q.uSec, q.cmd⟩) ∧
    ∀ key : PortItem, key.conn = k → key ≠ q.key → m key = none

/-- For every trace the tracer gets through, the exchanges on each connection
account for the reports about it and for what the table holds in the end. -/
theorem pktTrace_exchanges
    (hrun : (pktTrace ip frames).run (vhashInit enVHashMoudleMax) = .ok (outs, w)) :
    ∃ m, PortTable w m ∧ ∀ k : Conn, Described ip frames outs m k := by
  obtain ⟨rfl, m, ht, hslots⟩ := pktTrace_ok hrun
  refine ⟨m, ht, ?_⟩
  intro k
  have hslot := hslots k
  have hanswers := (reportsOf_exchanges hrun k).symm
  rw [tracker, run_family_state] at hslot
  rcases run_described (e := exchanges) (framesOf ip k frames) with
    ⟨-, hcomplete⟩ | ⟨q, -, hpending⟩
  · rw [hanswers] at hcomplete
    have hidle : SlotRel m k (run Frame.slotStep (framesOf ip k frames) .idle).1 := hslot
    rw [slot_of_complete hcomplete] at hidle
    exact .inl ⟨hcomplete, hidle⟩
  · rw [hanswers] at hpending
    have hopen : SlotRel m k (run Frame.slotStep (framesOf ip k frames) .idle).1 := hslot
    rw [slot_of_pending hpending] at hopen
    exact .inr ⟨q, hpending, hopen⟩

/-- A PING and its reply. -/
theorem ping_run : ∃ outs w, (pktTrace sampleServer.ip [sampleRequest, sampleReply]).run
    (vhashInit enVHashMoudleMax) = .ok (outs, w) := by
  obtain ⟨w, hrun, -⟩ :=
    pktTrace_run sampleServer.ip [sampleRequest, sampleReply] (by decide +kernel)
  exact ⟨_, w, hrun⟩

theorem pktTrace_exchanges_ping :
    ∃ outs w m, (pktTrace sampleServer.ip [sampleRequest, sampleReply]).run
        (vhashInit enVHashMoudleMax) = .ok (outs, w) ∧ PortTable w m ∧
      ∀ k, Described sampleServer.ip [sampleRequest, sampleReply] outs m k := by
  obtain ⟨outs, w, hrun⟩ := ping_run
  obtain ⟨m, ht, hall⟩ := pktTrace_exchanges hrun
  exact ⟨outs, w, m, hrun, ht, hall⟩

/-- A slot answers only when it is pending and its reply has come. -/
theorem slotStep_reports_iff {slot : Slot} {g : Frame} {r : Report} :
    (g.slotStep slot).2 = some r ↔
      ∃ q, slot.waiting = some q ∧ g.tuple = q.key ∧ r = q.report g := by
  cases slot with
  | idle => simp [Frame.slotStep, Slot.waiting]
  | pending key cmd sec uSec =>
      rcases eq_or_ne g.tuple key with hkey | hkey
      · rw [Frame.slotStep_answer hkey]
        simp [Slot.waiting, hkey, Waiting.report, eq_comm]
      · rw [Frame.slotStep_renew hkey]
        simp [Slot.waiting, hkey]

/-- The open exchange of a connection, told from its frames. -/
theorem waiting_iff (fs : List Frame) (q : Waiting) :
    (run Frame.slotStep fs .idle).1.waiting = some q ↔
      ∃ before f between cmd, fs = before ++ f :: between ∧
        (∃ reports, Complete exchanges before reports) ∧ f.command = some cmd ∧
        f.want.isSome ∧ (∀ x ∈ between, x.tuple ≠ f.tuple.swap) ∧
        q = ⟨f.tuple.swap, cmd, ((f :: between).getLast (by simp)).sec,
          ((f :: between).getLast (by simp)).uSec⟩ := by
  have hpending : (run Frame.slotStep fs .idle).1.waiting = some q ↔
      ∃ reports, Pending exchanges fs reports q := by
    simp [pending_iff, exchanges_run]
  rw [hpending]
  constructor
  · rintro ⟨reports, before, f, between, p, rfl, hbefore, hopens, hkept, rfl⟩
    obtain ⟨cmd, hcommand, hwant, rfl⟩ := opens_iff.mp hopens
    exact ⟨before, f, between, cmd, rfl, ⟨reports, hbefore⟩, hcommand, hwant,
      fun x hx => of_decide_eq_false (hkept x hx), foldl_renewed _ f between rfl rfl⟩
  · rintro ⟨before, f, between, cmd, rfl, ⟨reports, hbefore⟩, hcommand, hwant, hkept, rfl⟩
    exact ⟨reports, before, f, between, _, rfl, hbefore, opens_iff.mpr ⟨cmd, hcommand, hwant, rfl⟩,
      fun x hx => decide_eq_false (hkept x hx),
      (foldl_renewed ⟨f.tuple.swap, cmd, f.sec, f.uSec⟩ f between rfl rfl).symm⟩

/-- Frame `j` ends an exchange that is reported as `r`: it comes from the other
side than a command that was stored when all earlier exchanges of its
connection were complete, and it is the first from there since. The report has
the name of that command, the time of the last frame of the connection before,
and the time of the frame itself. -/
def EndsExchange (ip : UInt32) (frames : List Frame) (j : Nat) (r : Report) : Prop :=
  ∃ g k before f between cmd, frames[j]? = some g ∧ g.route ip = some k ∧
    framesOf ip k (frames.take j) = before ++ f :: between ∧
    (∃ reports, Complete exchanges before reports) ∧ f.command = some cmd ∧
    f.want.isSome ∧ (∀ x ∈ between, x.tuple ≠ f.tuple.swap) ∧ g.tuple = f.tuple.swap ∧
    r = ⟨⟨((f :: between).getLast (by simp)).sec, ((f :: between).getLast (by simp)).uSec,
      cmd, f.tuple.swap⟩, g.sec, g.uSec⟩

/-- In every trace the tracer gets through, exactly the ends of exchanges are
reported, each at once and as what it is. -/
theorem reported_iff
    (hrun : (pktTrace ip frames).run (vhashInit enVHashMoudleMax) = .ok (outs, w))
    (j : Nat) (r : Report) :
    outs[j]? = some (some r) ↔ EndsExchange ip frames j r := by
  obtain ⟨rfl, -⟩ := pktTrace_ok hrun
  rw [run_getElem?]
  have hslot : ∀ k, (run (tracker ip) (frames.take j) allIdle).1 k =
      (run Frame.slotStep (framesOf ip k (frames.take j)) .idle).1 := by
    intro k
    rw [tracker, run_family_state]
    rfl
  constructor
  · intro hout
    obtain ⟨g, hg, hanswer⟩ := Option.map_eq_some_iff.mp hout
    cases hroute : g.route ip with
    | none =>
        rw [tracker, family_unrouted _ hroute] at hanswer
        cases hanswer
    | some k =>
        have hreport : (g.slotStep ((run (tracker ip) (frames.take j) allIdle).1 k)).2 =
            some r := by
          rw [← hanswer]
          exact (family_answer _ hroute).symm
        rw [hslot] at hreport
        obtain ⟨q, hq, hkey, rfl⟩ := slotStep_reports_iff.mp hreport
        obtain ⟨before, f, between, cmd, hcut, hbefore, hcommand, hwant, hkept, rfl⟩ :=
          (waiting_iff _ q).mp hq
        exact ⟨g, k, before, f, between, cmd, hg, hroute, hcut, hbefore, hcommand, hwant, hkept,
          hkey, rfl⟩
  · rintro ⟨g, k, before, f, between, cmd, hg, hroute, hcut, hbefore, hcommand, hwant, hkept,
      hkey, rfl⟩
    rw [hg, Option.map_some, tracker, family_answer _ hroute, ← tracker, hslot, hcut]
    apply congrArg some
    apply slotStep_reports_iff.mpr
    exact ⟨_, (waiting_iff _ _).mpr ⟨before, f, between, cmd, rfl, hbefore, hcommand, hwant, hkept,
      rfl⟩, hkey, rfl⟩

/-- Of a PING and its reply, the reply. -/
theorem reported_iff_ping :
    ∃ outs w, (pktTrace sampleServer.ip [sampleRequest, sampleReply]).run
        (vhashInit enVHashMoudleMax) = .ok (outs, w) ∧ ∀ j r,
      (outs[j]? = some (some r) ↔
        EndsExchange sampleServer.ip [sampleRequest, sampleReply] j r) := by
  obtain ⟨outs, w, hrun⟩ := ping_run
  exact ⟨outs, w, hrun, reported_iff hrun⟩

end Runs

section Conservation

variable {ip : UInt32} {frames : List Frame} {outs : List (Option Report)} {w : PortWorld}

/-- The connections that frames of a trace belong to. -/
def connections (ip : UInt32) (frames : List Frame) : Finset Conn :=
  (frames.filterMap (Frame.route ip)).toFinset

/-- The items of the table and the open exchanges correspond. -/
theorem ncard_keys {m : PortMap} {slots : Conn → Slot} (hslots : ∀ k, SlotRel m k (slots k)) :
    Set.ncard m.keys = (waiting (fun k => (slots k).waiting)).ncard := by
  have hone : ∀ key ∈ m.keys, ∃ cmd sec uSec,
      slots key.conn = .pending key cmd sec uSec := by
    intro key hkey
    have hslot := hslots key.conn
    cases hk : slots key.conn with
    | idle =>
        rw [hk] at hslot
        rw [PortMap.keys, Set.mem_ofPred_eq, hslot key rfl] at hkey
        cases hkey
    | pending key' cmd sec uSec =>
        rw [hk] at hslot
        obtain ⟨_, _, hothers⟩ := hslot
        rcases eq_or_ne key key' with rfl | hne
        · exact ⟨cmd, sec, uSec, rfl⟩
        · rw [PortMap.keys, Set.mem_ofPred_eq, hothers key rfl hne] at hkey
          cases hkey
  have himage : PortItem.conn '' m.keys = waiting (fun k => (slots k).waiting) := by
    ext k
    constructor
    · rintro ⟨key, hkey, rfl⟩
      obtain ⟨cmd, sec, uSec, hk⟩ := hone key hkey
      simp [waiting, hk, Slot.waiting]
    · intro hk
      have hslot := hslots k
      cases hslotk : slots k with
      | idle => simp [waiting, hslotk, Slot.waiting] at hk
      | pending key cmd sec uSec =>
          rw [hslotk] at hslot
          obtain ⟨hconn, ⟨a, hcell⟩, _⟩ := hslot
          refine ⟨key, ?_, hconn⟩
          rw [PortMap.keys, Set.mem_ofPred_eq, hcell]
          rfl
  rw [← himage]
  apply (Set.InjOn.ncard_image _).symm
  intro key hkey key' hkey' heq
  obtain ⟨_, _, _, hk⟩ := hone key hkey
  obtain ⟨_, _, _, hk'⟩ := hone key' hkey'
  rw [heq, hk'] at hk
  exact (Slot.pending.inj hk).1.symm

theorem framesOf_eq_nil {k : Conn} (hk : k ∉ connections ip frames) :
    framesOf ip k frames = [] := by
  rw [connections, List.mem_toFinset, List.mem_filterMap] at hk
  push Not at hk
  rw [framesOf, inputsOf, List.filter_eq_nil_iff]
  intro f hf
  simpa using hk f hf

/-- Only connections that have been heard of have an exchange open. -/
theorem waiting_subset (ip : UInt32) (frames : List Frame) :
    waiting (run (family (Frame.route ip) exchanges.step) frames (fun _ => none)).1 ⊆
      connections ip frames := by
  intro k hk
  by_contra hnone
  have hempty : inputsOf (Frame.route ip) k frames = [] := framesOf_eq_nil hnone
  rw [waiting, Set.mem_ofPred_eq, run_family_state, hempty] at hk
  cases hk

/-- No request is lost and none is answered twice: after a trace the tracer
gets through, `PORT_VHash_GetCount` answers how many of the requests that were
stored have not been reported, and these are on as many connections. -/
theorem pktTrace_conserves
    (hrun : (pktTrace ip frames).run (vhashInit enVHashMoudleMax) = .ok (outs, w))
    (count : UInt32) :
    ∃ n w', (portVHashGetCount (some count)).run w =
        .ok ((vhashOk, some (UInt32.ofNat n)), w') ∧
      outs.reduceOption.length + n = (storedFrames ip frames).length ∧
      n ≤ (connections ip frames).card := by
  obtain ⟨rfl, m, ht, hslots⟩ := pktTrace_ok hrun
  obtain ⟨keys, ha⟩ := ht.arranged
  obtain ⟨w', hcount, -⟩ := portVHashGetCount_run ha count
  have hwaiting := ncard_keys hslots
  have htracker := tracker_exchanges ip frames
  have hconserved := conserved exchanges (Frame.route ip) (s := fun _ => none) frames
    (by simp [waiting])
  have hnone : (waiting (fun _ : Conn => (none : Option Waiting))).ncard = 0 := by
    simp [waiting]
  have hsubset := waiting_subset ip frames
  rw [answers, htracker, hnone] at hconserved
  rw [htracker] at hsubset
  refine ⟨_, w', hcount, ?_, ?_⟩
  · rw [hwaiting, storedFrames]
    dsimp only at hconserved
    omega
  · rw [hwaiting, ← Set.ncard_coe_finset]
    exact Set.ncard_le_ncard hsubset (Finset.finite_toSet _)

/-- Nothing is left of a PING that has been answered. -/
theorem pktTrace_conserves_ping :
    ∃ outs w n w', (pktTrace sampleServer.ip [sampleRequest, sampleReply]).run
        (vhashInit enVHashMoudleMax) = .ok (outs, w) ∧
      (portVHashGetCount (some 0)).run w = .ok ((vhashOk, some (UInt32.ofNat n)), w') ∧
      outs.reduceOption.length + n =
        (storedFrames sampleServer.ip [sampleRequest, sampleReply]).length ∧
      n ≤ (connections sampleServer.ip [sampleRequest, sampleReply]).card := by
  obtain ⟨outs, w, hrun⟩ := ping_run
  obtain ⟨n, w', hcount, hconserved, hle⟩ := pktTrace_conserves hrun 0
  exact ⟨outs, w, n, w', hrun, hcount, hconserved, hle⟩

end Conservation

end RedisTrace
