import RedisTrace.Capture

/-!
`PORT_VHash_INIT` has no way to tell that `malloc` gave no memory for the table,
and `main` goes on without one. The capture loop then does what it does with a
table when `malloc` never has memory for an item.
-/

namespace RedisTrace

open CircularList Run

/-- The capture loop behind `PORT_VHash_INIT`; `mallocOk` tells whether there was
memory for the table. -/
def captureFrom (mallocOk : Bool) (ip : UInt32) (rounds : List Round) :
    Except Fault (List (Option (Option Report)) × Capture) := do
  let (_, world) ← (portVHashInit mallocOk).run (vhashInit enVHashMoudleMax)
  (rounds.mapM (captureRound ip)).run ⟨⟨0, 0, 0, 0⟩, fun _ => 0, world⟩

/-- The pass without memory for an item. -/
def Round.starved (r : Round) : Round := {r with want := none}

/-- What the loop holds besides the table. -/
def Capture.packet (c : Capture) : PcapPkthdr × Bytes := (c.header, c.pktData)

section Recv

variable {ip : UInt32} {f g : Frame} {w w' : PortWorld}

/-- What `pkt_recv` answers about a frame whose connection has no item and gets
none. -/
def Frame.unstored (ip : UInt32) (f : Frame) : Except Fault Received :=
  if f.Accepted ip then do
    let parsed ← f.parsed
    return if parsed.ret ≠ 0 then ⟨0, none, parsed.buf⟩ else ⟨1, none, parsed.buf⟩
  else return ⟨0, none, f.rbuf⟩

theorem findStruct_absent (hnone : w.astVHashHead enPort.toNat = none) (key : PortItem) :
    (portVHashFindStruct key (some none)).run w = .ok ((vhashErr, some none), w) := by
  have hrun := withMoudle_none (getNode key (some none)) (vhashErr, some none) hnone
  simp [portVHashFindStruct, vhashGetNode, hrun]

theorem add_absent (hnone : w.astVHashHead enPort.toNat = none) (key : PortItem)
    (want : Option Nat) :
    (portVHashAdd key (some none) want).run w = .ok ((vhashErr, some none), w) := by
  have hcode : vhashErr ≠ vhashOk ∧ vhashErr ≠ vhashUpdateOk := by decide
  have hrun := withMoudle_none (addNode2 key key (some none) want) (vhashErr, some none) hnone
  simp [portVHashAdd, vhashAddNode2, hrun, hcode]

theorem recv_absent (hnone : w.astVHashHead enPort.toNat = none) :
    (f.recv ip).run w = (f.unstored ip).map (·, w) := by
  by_cases haccepted : f.Accepted ip
  · rw [recv_accepted haccepted, Frame.unstored, if_pos haccepted]
    have hhere := findStruct_absent hnone f.tuple
    have hthere := findStruct_absent hnone f.tuple.swap
    have hadd := add_absent hnone f.tuple.swap f.want
    cases hparsed : f.parsed with
    | error e => simp [hhere, hthere, Except.map]
    | ok parsed =>
        by_cases hret : parsed.ret = 0
        · simp [hhere, hthere, hadd, hret, Except.map]
        · simp [hhere, hthere, hret, Except.map]
  · rw [recv_refused haccepted, Frame.unstored, if_neg haccepted]
    rfl

/-- With an empty table and no memory it answers the same. -/
theorem recv_starved (ip : UInt32) (ht : PortTable w PortMap.empty) (hwant : f.want = none) :
    (∃ e, f.unstored ip = .error e ∧ (f.recv ip).run w = .error e) ∨
      ∃ received w', f.unstored ip = .ok received ∧ (f.recv ip).run w = .ok (received, w') ∧
        PortTable w' PortMap.empty := by
  by_cases haccepted : f.Accepted ip
  · rw [Frame.unstored, if_pos haccepted]
    cases hparsed : f.parsed with
    | error e => exact .inl ⟨e, rfl, recv_fault ht haccepted rfl rfl hparsed⟩
    | ok parsed =>
        right
        by_cases hret : parsed.ret = 0
        · obtain ⟨w', hrun, ht'⟩ := recv_unstored ht haccepted rfl rfl hparsed hret hwant
          exact ⟨_, w', by simp [hret], hrun, ht'⟩
        · obtain ⟨w', hrun, ht'⟩ := recv_unparsed ht haccepted rfl rfl hparsed hret
          exact ⟨_, w', by simp [hret], hrun, ht'⟩
  · rw [Frame.unstored, if_neg haccepted]
    exact .inr ⟨_, w, rfl, recv_refused haccepted, ht⟩

theorem unstored_report {received : Received} (hunstored : f.unstored ip = .ok received) :
    received.report = none := by
  unfold Frame.unstored at hunstored
  by_cases haccepted : f.Accepted ip
  · rw [if_pos haccepted] at hunstored
    obtain ⟨parsed, -, hend⟩ := ok_of_bind hunstored
    cases hend
    by_cases hret : parsed.ret = 0
    · simp [hret]
    · simp [hret]
  · rw [if_neg haccepted] at hunstored
    cases hunstored
    rfl

end Recv

section Loop

/-- One loop without a table, one with an empty one. -/
structure Deprived (c c' : Capture) : Prop where
  header : c.header = c'.header
  pktData : c.pktData = c'.pktData
  absent : c.world.astVHashHead enPort.toNat = none
  empty : PortTable c'.world PortMap.empty

/-- The loops answer the same, and not with a report. -/
def SilentAlike (answer answer' : Option (Option Report)) : Prop :=
  answer = answer' ∧ answer.join = none

variable {ip : UInt32} {r : Round} {c c' : Capture}

theorem Deprived.fetch (hdeprived : Deprived c c') (next : NextEx) :
    Deprived (c.fetch next) (c'.fetch next) := by
  cases next with
  | packet header pktData => exact ⟨rfl, rfl, hdeprived.absent, hdeprived.empty⟩
  | timeout => exact hdeprived

theorem round_alike (ip : UInt32) (r : Round) (hdeprived : Deprived c c') :
    Alike SilentAlike Deprived ((captureRound ip r).run c)
      ((captureRound ip r.starved).run c') := by
  obtain ⟨hheader, hdata, hnone, hempty⟩ := hdeprived.fetch r.next
  cases hpasses : passes (c.fetch r.next).header (c.fetch r.next).pktData with
  | false =>
      have hpasses' := hpasses
      rw [hheader, hdata] at hpasses'
      rw [round_skipped hpasses, round_skipped (r := r.starved) hpasses']
      exact .ok ⟨rfl, rfl⟩ (hdeprived.fetch r.next)
  | true =>
      have hpasses' := hpasses
      rw [hheader, hdata] at hpasses'
      rw [round_called hpasses, round_called (r := r.starved) hpasses']
      let f := packetFrame (c.fetch r.next).header (c.fetch r.next).pktData r.want
      let g := packetFrame (c'.fetch r.next).header (c'.fetch r.next).pktData none
      have hsame : g.unstored ip = f.unstored ip := by
        have hg : g = {f with want := none} := by
          simp only [f, g, hheader, hdata]
          rfl
        rw [hg]
        rfl
      have hrun : (f.recv ip).run (c.fetch r.next).world = _ := recv_absent hnone
      change Alike SilentAlike Deprived ((f.recv ip).run (c.fetch r.next).world >>= _)
        ((g.recv ip).run (c'.fetch r.next).world >>= _)
      rcases recv_starved (f := g) ip hempty rfl with ⟨e, hanswer, hrun'⟩ |
        ⟨received, w', hanswer, hrun', hempty'⟩
      · rw [hrun, ← hsame, hanswer, hrun']
        exact .error e
      · rw [hrun, ← hsame, hanswer, hrun']
        exact .ok ⟨rfl, unstored_report hanswer⟩ ⟨hheader, rfl, hnone, hempty'⟩

theorem silent_outs {outs outs' : List (Option (Option Report))}
    (halike : List.Forall₂ SilentAlike outs outs') : outs = outs' ∧ reported outs = [] := by
  induction halike with
  | nil => exact ⟨rfl, rfl⟩
  | cons answer answers ih =>
      obtain ⟨rfl, hnone⟩ := answer
      obtain ⟨rfl, hsilent⟩ := ih
      refine ⟨rfl, ?_⟩
      rw [reported, List.filterMap_cons_none hnone]
      exact hsilent

/-- Whatever is captured, the tracer without a table looks at the same packets,
leaves the same in its buffer and fails at the same place as a tracer for which
there is never memory for an item, and it reports nothing. -/
theorem capture_without_table (ip : UInt32) (rounds : List Round) :
    (captureFrom false ip rounds).map (Prod.map id Capture.packet) =
        (capture ip (rounds.map Round.starved)).map (Prod.map id Capture.packet) ∧
      ∀ outs c, captureFrom false ip rounds = .ok (outs, c) → reported outs = [] := by
  obtain ⟨w, hinit, ht⟩ := portVHashInit_run
  have hnone : (vhashInit enVHashMoudleMax : PortWorld).astVHashHead enPort.toNat = none := rfl
  have hfailed : (portVHashInit false).run (vhashInit enVHashMoudleMax) =
      .ok ((), vhashInit enVHashMoudleMax) := rfl
  have halike := mapM_alike Deprived
    (fun r _ _ hdeprived => round_alike ip r hdeprived) rounds
    (s := ⟨⟨0, 0, 0, 0⟩, fun _ => 0, vhashInit enVHashMoudleMax⟩)
    (t := ⟨⟨0, 0, 0, 0⟩, fun _ => 0, w⟩) ⟨rfl, rfl, hnone, ht⟩
  have hfrom : captureFrom false ip rounds = (rounds.mapM (captureRound ip)).run
      ⟨⟨0, 0, 0, 0⟩, fun _ => 0, vhashInit enVHashMoudleMax⟩ := by
    rw [captureFrom, hfailed]
    rfl
  have hstarved : capture ip (rounds.map Round.starved) =
      (rounds.mapM (fun r => captureRound ip r.starved)).run
        ⟨⟨0, 0, 0, 0⟩, fun _ => 0, w⟩ := by
    rw [capture, hinit, List.mapM_map]
    rfl
  rw [hfrom, hstarved]
  generalize (rounds.mapM (captureRound ip)).run _ = result at halike ⊢
  generalize (rounds.mapM (fun r => captureRound ip r.starved)).run _ = result' at halike ⊢
  cases halike with
  | error e =>
      refine ⟨rfl, ?_⟩
      rintro outs c ⟨⟩
  | @ok outs outs' c c' answers hdeprived =>
      obtain ⟨rfl, hsilent⟩ := silent_outs answers
      constructor
      · simp [Except.map, Capture.packet, hdeprived.header, hdeprived.pktData]
      · rintro _ _ ⟨⟩
        exact hsilent

end Loop

end RedisTrace
