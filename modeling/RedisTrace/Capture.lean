import RedisTrace.Tracker

/-!
The capture loop of `main`. `pcap_next_ex` delivers a packet or reports a
timeout. The loop means to skip timeouts but tests `if(res = 0)`, an assignment
whose value is false, so at every timeout it looks at the last packet again.
-/

namespace RedisTrace

open CircularList Run Machine

/-- `struct pcap_pkthdr`, with the two fields of `ts` in place. -/
structure PcapPkthdr where
  tvSec : Int64
  tvUsec : Int64
  caplen : UInt32
  len : UInt32
  deriving DecidableEq, Repr

/-- What `pcap_next_ex` does as long as the loop goes on. -/
inductive NextEx where
  | packet (header : PcapPkthdr) (pktData : Bytes)
  | timeout

/-- One pass of the loop. `want` is what `malloc` would answer in it. -/
structure Round where
  next : NextEx
  want : Option Nat

/-- The variables that outlive a pass, and the tables. -/
structure Capture where
  header : PcapPkthdr
  pktData : Bytes
  world : PortWorld

/-- A timeout leaves `header` and `pkt_data` as they were. -/
def Capture.fetch (c : Capture) : NextEx → Capture
  | .packet header pktData => {c with header := header, pktData := pktData}
  | .timeout => c

/-- What the loop hands to `pkt_recv`. -/
def packetFrame (header : PcapPkthdr) (pktData : Bytes) (want : Option Nat) : Frame where
  rbuf := pktData
  len := header.len.toInt32
  sec := header.tvSec.toUInt64.toUInt32
  uSec := header.tvUsec.toUInt64.toUInt32
  want := want

/-- The body of the loop. The answer is `some` when `pkt_recv` is called. -/
def captureRound (ip : UInt32) (r : Round) :
    StateT Capture (Except Fault) (Option (Option Report)) := do
  modify (fun c => c.fetch r.next)
  let c ← get
  -- the condition assigns to `res` what it should compare `res` with
  let res : Int32 := 0
  if res ≠ 0 then
    return none
  else if c.header.caplen < 54 then
    return none
  else if pktSwapu16 (load16 c.pktData 12) ≠ 0x0800 then
    return none
  else
    let (received, world) ← ((packetFrame c.header c.pktData r.want).recv ip).run c.world
    set {c with pktData := received.rbuf, world := world}
    return some received.report

/-- The loop, from freshly made tables. No packet has been captured yet. -/
def capture (ip : UInt32) (rounds : List Round) :
    Except Fault (List (Option (Option Report)) × Capture) := do
  let (_, world) ← (portVHashInit true).run (vhashInit enVHashMoudleMax)
  (rounds.mapM (captureRound ip)).run ⟨⟨0, 0, 0, 0⟩, fun _ => 0, world⟩

/-- The two filters of the loop. -/
def passes (header : PcapPkthdr) (pktData : Bytes) : Bool :=
  !decide (header.caplen < 54) && decide (pktSwapu16 (load16 pktData 12) = 0x0800)

/-- What there is to know between two passes, with slots for the table. -/
structure Watch where
  header : PcapPkthdr
  pktData : Bytes
  slots : Conn → Slot

def Watch.fetch (s : Watch) : NextEx → Watch
  | .packet header pktData => {s with header := header, pktData := pktData}
  | .timeout => s

def Watch.frame (s : Watch) (want : Option Nat) : Frame := packetFrame s.header s.pktData want

/-- A pass of the loop on slots. -/
def watchStep (ip : UInt32) (r : Round) (s : Watch) : Watch × Option (Option Report) :=
  let s := s.fetch r.next
  if passes s.header s.pktData then
    let f := s.frame r.want
    (⟨s.header, f.bufferAfter ip s.slots, (tracker ip f s.slots).1⟩,
      some (tracker ip f s.slots).2)
  else (s, none)

def noPacket : Watch := ⟨⟨0, 0, 0, 0⟩, fun _ => 0, allIdle⟩

def Watch.passes (s : Watch) : Bool := RedisTrace.passes s.header s.pktData

/-- A pass that calls `pkt_recv` does not write past a command name. -/
def Round.Readable (ip : UInt32) (r : Round) (s : Watch) : Prop :=
  (s.fetch r.next).passes = true →
    ((s.fetch r.next).frame r.want).Readable ip (s.fetch r.next).slots

instance (ip : UInt32) (r : Round) (s : Watch) : Decidable (r.Readable ip s) :=
  inferInstanceAs (Decidable (_ → _))

section Loop

variable {ip : UInt32} {r : Round} {c : Capture} {s : Watch}

theorem watchStep_called (ip : UInt32) (hpasses : (s.fetch r.next).passes = true) :
    watchStep ip r s =
      (⟨(s.fetch r.next).header,
        ((s.fetch r.next).frame r.want).bufferAfter ip (s.fetch r.next).slots,
        (tracker ip ((s.fetch r.next).frame r.want) (s.fetch r.next).slots).1⟩,
        some (tracker ip ((s.fetch r.next).frame r.want) (s.fetch r.next).slots).2) :=
  if_pos hpasses

theorem watchStep_skipped (ip : UInt32) (hfails : (s.fetch r.next).passes = false) :
    watchStep ip r s = (s.fetch r.next, none) := by
  apply if_neg
  rw [← Watch.passes, hfails]
  exact Bool.false_ne_true

/-- The loop's state and the watched one agree. -/
def Watches (c : Capture) (s : Watch) : Prop :=
  c.header = s.header ∧ c.pktData = s.pktData ∧ Tracks c.world s.slots

theorem Watches.fetch (hwatches : Watches c s) (next : NextEx) :
    Watches (c.fetch next) (s.fetch next) := by
  obtain ⟨hheader, hdata, htracks⟩ := hwatches
  cases next with
  | packet header pktData => exact ⟨rfl, rfl, htracks⟩
  | timeout => exact ⟨hheader, hdata, htracks⟩

theorem round_skipped (hpasses : passes (c.fetch r.next).header (c.fetch r.next).pktData = false) :
    (captureRound ip r).run c = .ok (none, c.fetch r.next) := by
  unfold passes at hpasses
  by_cases hshort : (c.fetch r.next).header.caplen < 54
  · simp [captureRound, hshort]
  · have htype : ¬ pktSwapu16 (load16 (c.fetch r.next).pktData 12) = 0x0800 := by
      simpa [hshort] using hpasses
    simp [captureRound, hshort, htype]

theorem round_called (hpasses : passes (c.fetch r.next).header (c.fetch r.next).pktData = true) :
    (captureRound ip r).run c =
      (((packetFrame (c.fetch r.next).header (c.fetch r.next).pktData r.want).recv ip).run
          (c.fetch r.next).world >>= fun (received, world) =>
        .ok (some received.report, {c.fetch r.next with
          pktData := received.rbuf
          world := world})) := by
  unfold passes at hpasses
  simp only [Bool.and_eq_true, Bool.not_eq_true', decide_eq_false_iff_not,
    decide_eq_true_eq] at hpasses
  simp [captureRound, hpasses.1, hpasses.2]

/-- One pass of the loop is one step of the watched loop. -/
theorem captureRound_run (hwatches : Watches c s) (hreadable : r.Readable ip s) :
    ∃ c', (captureRound ip r).run c = .ok ((watchStep ip r s).2, c') ∧
      Watches c' (watchStep ip r s).1 := by
  obtain ⟨hheader, hdata, htracks⟩ := hwatches.fetch r.next
  cases hpasses : (s.fetch r.next).passes with
  | true =>
      obtain ⟨w', received, hrun, hreport, hrbuf, htracks'⟩ :=
        recv_tracks htracks (hreadable hpasses)
      have hcalled := hpasses
      rw [Watch.passes, ← hheader, ← hdata] at hcalled
      have hframe : ((packetFrame (s.fetch r.next).header (s.fetch r.next).pktData
          r.want).recv ip).run (c.fetch r.next).world = .ok (received, w') := hrun
      have hstep : watchStep ip r s = (⟨(s.fetch r.next).header, received.rbuf,
          (tracker ip ((s.fetch r.next).frame r.want) (s.fetch r.next).slots).1⟩,
            some received.report) := by
        rw [watchStep_called ip hpasses, hreport, hrbuf]
      refine ⟨{c.fetch r.next with pktData := received.rbuf, world := w'}, ?_, ?_⟩
      · rw [round_called hcalled, hheader, hdata, hframe, hstep, ok_bind]
      · rw [hstep]
        exact ⟨hheader, rfl, htracks'⟩
  | false =>
      have hskipped := hpasses
      rw [Watch.passes, ← hheader, ← hdata] at hskipped
      rw [watchStep_skipped ip hpasses]
      exact ⟨c.fetch r.next, round_skipped hskipped, hheader, hdata, htracks⟩

theorem captureRound_breaks (hwatches : Watches c s) (hunreadable : ¬ r.Readable ip s) :
    ∃ e, (captureRound ip r).run c = .error e := by
  obtain ⟨hheader, hdata, htracks⟩ := hwatches.fetch r.next
  unfold Round.Readable at hunreadable
  push Not at hunreadable
  obtain ⟨hpasses, hunreadable⟩ := hunreadable
  obtain ⟨e, hrun⟩ := recv_breaks htracks hunreadable
  rw [Watch.passes, ← hheader, ← hdata] at hpasses
  refine ⟨e, ?_⟩
  rw [round_called hpasses, hheader, hdata]
  change ((((s.fetch r.next).frame r.want).recv ip).run _ >>= _) = _
  rw [hrun]
  rfl

/-- The loop runs to its end exactly when the watched loop is readable all
along, and then answers as it does. -/
theorem capture_run (ip : UInt32) (rounds : List Round)
    (hreadable : Along (watchStep ip) (Round.Readable ip) rounds noPacket) :
    ∃ c, capture ip rounds = .ok ((run (watchStep ip) rounds noPacket).2, c) ∧
      Watches c (run (watchStep ip) rounds noPacket).1 := by
  obtain ⟨w₀, hinit, ht₀⟩ := portVHashInit_run
  obtain ⟨c, hrun, hwatches⟩ := mapM_follows (watchStep ip) Watches
    (fun _ _ _ hwatches hreadable => captureRound_run hwatches hreadable) rounds
    ⟨⟨0, 0, 0, 0⟩, fun _ => 0, w₀⟩ noPacket ⟨rfl, rfl, tracks_empty ht₀⟩ hreadable
  refine ⟨c, ?_, hwatches⟩
  rw [capture, hinit]
  exact hrun

theorem readable_of_capture {rounds : List Round}
    {result : List (Option (Option Report)) × Capture}
    (hcapture : capture ip rounds = .ok result) :
    Along (watchStep ip) (Round.Readable ip) rounds noPacket := by
  obtain ⟨w₀, hinit, ht₀⟩ := portVHashInit_run
  rw [capture, hinit] at hcapture
  exact along_of_mapM_ok (watchStep ip) Watches
    (fun _ _ _ hwatches hreadable => captureRound_run hwatches hreadable)
    (fun _ _ _ hwatches hunreadable => captureRound_breaks hwatches hunreadable) rounds
    ⟨⟨0, 0, 0, 0⟩, fun _ => 0, w₀⟩ noPacket ⟨rfl, rfl, tracks_empty ht₀⟩ hcapture

end Loop

section Timeouts

namespace Round

def delivers (r : Round) : Bool :=
  match r.next with
  | .packet _ _ => true
  | .timeout => false

/-- A packet has been delivered that `pkt_recv` should look at. -/
def good (r : Round) : Bool :=
  match r.next with
  | .packet header pktData => passes header pktData
  | .timeout => false

/-- That packet. -/
def frame (r : Round) : Option Frame :=
  match r.next with
  | .packet header pktData =>
      if passes header pktData then some (packetFrame header pktData r.want) else none
  | .timeout => none

end Round

def withoutTimeouts (rounds : List Round) : List Round := rounds.filter Round.delivers

def framesIn (rounds : List Round) : List Frame := rounds.filterMap Round.frame

/-- Whether the last packet passed the filters. -/
def lastPasses (r : Round) (last : Bool) : Bool × Option Unit :=
  match r.next with
  | .packet header pktData => (passes header pktData, none)
  | .timeout => (last, none)

/-- No timeout follows a packet that passes, before another packet comes. -/
def NoRepeat (rounds : List Round) : Prop :=
  Along lastPasses (fun r last => r.delivers = true ∨ last = false) rounds false

instance (rounds : List Round) : Decidable (NoRepeat rounds) := decidableAlong _ _ _ _

variable {ip : UInt32} {r : Round} {rounds : List Round} {s : Watch}

theorem passes_congr {header : PcapPkthdr} {pktData pktData' : Bytes}
    (hsame : ∀ i < 34, pktData' i = pktData i) :
    passes header pktData' = passes header pktData := by
  unfold passes load16
  rw [hsame 12 (by decide), hsame 13 (by decide)]

theorem passes_fetch (r : Round) (s : Watch) :
    (s.fetch r.next).passes = (lastPasses r s.passes).1 := by
  unfold lastPasses
  cases r.next <;> rfl

theorem passes_step (ip : UInt32) (r : Round) (s : Watch) :
    (watchStep ip r s).1.passes = (lastPasses r s.passes).1 := by
  rw [← passes_fetch]
  cases hpasses : (s.fetch r.next).passes with
  | true =>
      rw [watchStep_called ip hpasses, ← hpasses]
      exact passes_congr (fun i hi => bufferAfter_header ip _ _ hi)
  | false => rw [watchStep_skipped ip hpasses, hpasses]

theorem watchStep_isSome (ip : UInt32) (r : Round) (s : Watch) :
    (watchStep ip r s).2.isSome = (lastPasses r s.passes).1 := by
  rw [← passes_fetch]
  cases hpasses : (s.fetch r.next).passes with
  | true => rw [watchStep_called ip hpasses, Option.isSome_some]
  | false => rw [watchStep_skipped ip hpasses, Option.isSome_none]

theorem isSome_eq_good_iff (ip : UInt32) (r : Round) (s : Watch) :
    (watchStep ip r s).2.isSome = r.good ↔ r.delivers = true ∨ s.passes = false := by
  rw [watchStep_isSome]
  unfold lastPasses Round.good Round.delivers
  cases r.next <;> simp

/-- `pkt_recv` is called for the good packets and for nothing else exactly when
nothing is repeated. -/
theorem calls_iff (ip : UInt32) (rounds : List Round) (s : Watch) :
    (run (watchStep ip) rounds s).2.map Option.isSome = rounds.map Round.good ↔
      Along lastPasses (fun r last => r.delivers = true ∨ last = false) rounds s.passes := by
  induction rounds generalizing s with
  | nil => simp [run, Along]
  | cons r rounds ih =>
      rw [run, List.map_cons, List.map_cons, List.cons.injEq, isSome_eq_good_iff, ih,
        passes_step]
      rfl

/-- A pass that repeats nothing handles its packet, if it has a good one, or
does nothing. -/
theorem watchStep_cases (ip : UInt32) (hfresh : r.delivers = true ∨ s.passes = false) :
    (r.frame = none ∧ (watchStep ip r s).2 = none ∧ (watchStep ip r s).1.slots = s.slots ∧
      r.Readable ip s) ∨
    ∃ f, r.frame = some f ∧ (watchStep ip r s).2 = some (tracker ip f s.slots).2 ∧
      (watchStep ip r s).1.slots = (tracker ip f s.slots).1 ∧
      (r.Readable ip s ↔ f.Readable ip s.slots) := by
  unfold Round.delivers at hfresh
  unfold Round.frame Round.Readable
  cases hpasses : (s.fetch r.next).passes with
  | true =>
      right
      rw [watchStep_called ip hpasses]
      cases hnext : r.next with
      | packet header pktData =>
          rw [hnext] at hpasses
          exact ⟨packetFrame header pktData r.want, if_pos hpasses, rfl, rfl, by
            simp [Watch.fetch, Watch.frame]⟩
      | timeout =>
          rw [hnext] at hpasses hfresh
          have hfails : s.passes = false := by simpa using hfresh
          exact absurd hpasses (by simp [Watch.fetch, hfails])
  | false =>
      left
      rw [watchStep_skipped ip hpasses]
      cases hnext : r.next with
      | packet header pktData =>
          rw [hnext] at hpasses
          have hfails : passes header pktData = false := hpasses
          exact ⟨by simp [hfails], rfl, rfl, by simp⟩
      | timeout => exact ⟨rfl, rfl, rfl, by simp⟩

/-- The reports a run of the loop printed. -/
def reported (outs : List (Option (Option Report))) : List Report := outs.filterMap Option.join

theorem reported_cons (out : Option (Option Report)) (outs : List (Option (Option Report))) :
    reported (out :: outs) = out.join.toList ++ reported outs := by
  unfold reported
  cases hout : out.join with
  | none => exact List.filterMap_cons_none hout
  | some r => exact List.filterMap_cons_some hout

/-- A timeout at which handling the last packet again changes no slot and
reports nothing, or a pass that does no such thing. -/
def Round.Harmless (ip : UInt32) (r : Round) (s : Watch) : Prop :=
  r.delivers = true ∨ s.passes = false ∨ tracker ip (s.frame r.want) s.slots = (s.slots, none)

theorem watchStep_harmless (hharmless : r.Harmless ip s) :
    (r.frame = none ∧ (watchStep ip r s).2.join = none ∧
      (watchStep ip r s).1.slots = s.slots) ∨
    ∃ f, r.frame = some f ∧ (watchStep ip r s).2 = some (tracker ip f s.slots).2 ∧
      (watchStep ip r s).1.slots = (tracker ip f s.slots).1 := by
  by_cases hfresh : r.delivers = true ∨ s.passes = false
  · rcases watchStep_cases ip hfresh with ⟨hframe, hout, hslots, _⟩ | ⟨f, hframe, hout, hslots, _⟩
    · exact Or.inl ⟨hframe, by rw [hout]; rfl, hslots⟩
    · exact Or.inr ⟨f, hframe, hout, hslots⟩
  · obtain ⟨hstays, hpasses⟩ := not_or.mp hfresh
    have hsame := (hharmless.resolve_left hstays).resolve_left hpasses
    have hnext : r.next = .timeout := by
      unfold Round.delivers at hstays
      cases hnext : r.next with
      | packet header pktData => simp [hnext] at hstays
      | timeout => rfl
    have hfetch : s.fetch r.next = s := by
      rw [hnext]
      rfl
    left
    rw [watchStep_called ip (by simpa [hfetch] using hpasses), hfetch, hsame]
    exact ⟨by simp [Round.frame, hnext], rfl, rfl⟩

/-- A run whose timeouts are harmless is a run of the tracer over the good
packets. -/
theorem watch_run (ip : UInt32) (rounds : List Round) (s : Watch)
    (hharmless : Along (watchStep ip) (Round.Harmless ip) rounds s) :
    (run (watchStep ip) rounds s).1.slots =
        (run (tracker ip) (framesIn rounds) s.slots).1 ∧
      reported (run (watchStep ip) rounds s).2 =
        answers (tracker ip) (framesIn rounds) s.slots := by
  induction rounds generalizing s with
  | nil => exact ⟨rfl, rfl⟩
  | cons r rounds ih =>
      obtain ⟨hslots, hreported⟩ := ih _ hharmless.2
      rw [run, reported_cons, hslots, hreported]
      rcases watchStep_harmless hharmless.1 with ⟨hframe, hout, hstep⟩ | ⟨f, hframe, hout, hstep⟩
      · have hframes : framesIn (r :: rounds) = framesIn rounds :=
          List.filterMap_cons_none hframe
        rw [hframes, hstep, hout]
        exact ⟨rfl, rfl⟩
      · have hframes : framesIn (r :: rounds) = f :: framesIn rounds :=
          List.filterMap_cons_some hframe
        rw [hframes, hstep, hout, answers_cons]
        exact ⟨rfl, rfl⟩

/-- Without repeats all passes are harmless, and what the loop reads are the
good packets. -/
theorem readable_iff (ip : UInt32) (rounds : List Round) (s : Watch)
    (hfresh : Along lastPasses (fun r last => r.delivers = true ∨ last = false) rounds
      s.passes) :
    Along (watchStep ip) (Round.Harmless ip) rounds s ∧
      (Along (watchStep ip) (Round.Readable ip) rounds s ↔
        Along (tracker ip) (Frame.Readable ip) (framesIn rounds) s.slots) := by
  induction rounds generalizing s with
  | nil => exact ⟨trivial, Iff.rfl⟩
  | cons r rounds ih =>
      obtain ⟨hfirst, hrest⟩ := hfresh
      rw [← passes_step ip] at hrest
      obtain ⟨hharmless, hreadable⟩ := ih _ hrest
      refine ⟨⟨hfirst.imp_right Or.inl, hharmless⟩, ?_⟩
      simp only [Along, hreadable]
      rcases watchStep_cases ip hfirst with
        ⟨hframe, _, hstep, hok⟩ | ⟨f, hframe, _, hstep, hok⟩
      · have hframes : framesIn (r :: rounds) = framesIn rounds :=
          List.filterMap_cons_none hframe
        rw [hframes, hstep]
        exact and_iff_right hok
      · have hframes : framesIn (r :: rounds) = f :: framesIn rounds :=
          List.filterMap_cons_some hframe
        rw [hframes, hstep, hok]
        exact Iff.rfl

theorem framesIn_withoutTimeouts (rounds : List Round) :
    framesIn (withoutTimeouts rounds) = framesIn rounds := by
  unfold framesIn withoutTimeouts
  rw [List.filterMap_filter]
  congr 1
  funext r
  unfold Round.frame Round.delivers
  cases r.next <;> rfl

theorem noRepeat_withoutTimeouts (rounds : List Round) : NoRepeat (withoutTimeouts rounds) := by
  have hall : ∀ (rounds : List Round) (last : Bool), (∀ r ∈ rounds, r.delivers = true) →
      Along lastPasses (fun r last => r.delivers = true ∨ last = false) rounds last := by
    intro rounds
    induction rounds with
    | nil => intro last _; trivial
    | cons r rounds ih =>
        intro last hdelivers
        exact ⟨Or.inl (hdelivers r (by simp)), ih _ (fun r' hr' => hdelivers r' (by simp [hr']))⟩
  apply hall
  intro r hr
  exact (List.mem_filter.mp hr).2

/-- With and without its timeouts the run prints the same reports and leaves
the same items, and `pkt_recv` is called once for each good packet and for
nothing else. -/
def TimeoutsChangeNothing (ip : UInt32) (rounds : List Round) : Prop :=
  ∃ outs c m outs' c' m',
    capture ip rounds = .ok (outs, c) ∧ PortTable c.world m ∧
    capture ip (withoutTimeouts rounds) = .ok (outs', c') ∧ PortTable c'.world m' ∧
    (∀ key : PortItem, (m key).map (fun c => c.item key) = (m' key).map (fun c => c.item key)) ∧
    reported outs = reported outs' ∧
    outs.map Option.isSome = rounds.map Round.good

/-- For every run of the loop: timeouts change nothing exactly when none comes
while the last packet is one that passes the filters, as long as no command
name that has to be copied is too long. -/
theorem timeoutsChangeNothing_iff (ip : UInt32) (rounds : List Round) :
    TimeoutsChangeNothing ip rounds ↔
      NoRepeat rounds ∧ Along (tracker ip) (Frame.Readable ip) (framesIn rounds) allIdle := by
  constructor
  · rintro ⟨outs, c, m, outs', c', m', hcapture, _, _, _, _, _, hcalls⟩
    have hreadable := readable_of_capture hcapture
    obtain ⟨c₁, hrun, _⟩ := capture_run ip rounds hreadable
    rw [hcapture] at hrun
    rw [(Prod.mk.inj (Except.ok.inj hrun)).1, calls_iff] at hcalls
    exact ⟨hcalls, (readable_iff ip rounds noPacket hcalls).2.mp hreadable⟩
  · rintro ⟨hfresh, hreadable⟩
    obtain ⟨hharmless, halong⟩ := readable_iff ip rounds noPacket hfresh
    obtain ⟨hharmless', halong'⟩ :=
      readable_iff ip (withoutTimeouts rounds) noPacket (noRepeat_withoutTimeouts rounds)
    obtain ⟨hslots, hreported⟩ := watch_run ip rounds noPacket hharmless
    obtain ⟨hslots', hreported'⟩ := watch_run ip (withoutTimeouts rounds) noPacket hharmless'
    rw [framesIn_withoutTimeouts] at hslots' hreported' halong'
    obtain ⟨c, hcapture, _, _, m, ht, hm⟩ := capture_run _ _ (halong.mpr hreadable)
    obtain ⟨c', hcapture', _, _, m', ht', hm'⟩ := capture_run _ _ (halong'.mpr hreadable)
    refine ⟨_, c, m, _, c', m', hcapture, ht, hcapture', ht', ?_, ?_, ?_⟩
    · intro key
      rw [hslots] at hm
      rw [hslots'] at hm'
      exact (hm key.conn).items_eq (hm' key.conn) rfl
    · rw [hreported, hreported']
    · exact (calls_iff ip rounds noPacket).mpr hfresh

def sampleRound (src dst : Endpoint) (payload : List UInt8) (sec : Int64) : Round :=
  let f := segmentFrame src dst payload 0 0 none
  ⟨.packet ⟨sec, 0, f.len.toUInt32, f.len.toUInt32⟩ f.rbuf, some 0⟩

/-- A PING is answered with an array, a timeout passes, and the next PING comes. -/
def repeatedRounds : List Round :=
  let ping : List UInt8 := [0x2a, 0x31, 0x0d, 0x0a, 0x24, 0x34, 0x0d, 0x0a, 0x50, 0x49, 0x4e,
    0x47, 0x0d, 0x0a]
  let array : List UInt8 := [0x2a, 0x31, 0x0d, 0x0a, 0x24, 0x33, 0x0d, 0x0a, 0x66, 0x6f, 0x6f,
    0x0d, 0x0a]
  [sampleRound sampleClient sampleServer ping 100,
    sampleRound sampleServer sampleClient array 101,
    ⟨.timeout, some 0⟩,
    sampleRound sampleClient sampleServer ping 110]

/-- The timeout makes an item of the array, which the second PING seems to
answer. -/
theorem timeoutsChangeNothing_repeated :
    (∃ outs c outs' c', capture sampleServer.ip repeatedRounds = .ok (outs, c) ∧
      capture sampleServer.ip (withoutTimeouts repeatedRounds) = .ok (outs', c') ∧
      (reported outs).length = 2 ∧ (reported outs').length = 1) ∧
    ¬ TimeoutsChangeNothing sampleServer.ip repeatedRounds := by
  obtain ⟨c, hcapture, _⟩ := capture_run sampleServer.ip repeatedRounds (by decide +kernel)
  obtain ⟨c', hcapture', _⟩ :=
    capture_run sampleServer.ip (withoutTimeouts repeatedRounds) (by decide +kernel)
  have htwo : (reported (run (watchStep sampleServer.ip) repeatedRounds noPacket).2).length =
      2 := by decide +kernel
  have hone : (reported (run (watchStep sampleServer.ip) (withoutTimeouts repeatedRounds)
      noPacket).2).length = 1 := by decide +kernel
  refine ⟨⟨_, c, _, c', hcapture, hcapture', htwo, hone⟩, ?_⟩
  rintro ⟨outs, c₁, m, outs', c₁', m', hrun, _, hrun', _, _, hreported, _⟩
  rw [hcapture] at hrun
  rw [hcapture'] at hrun'
  rw [← (Prod.mk.inj (Except.ok.inj hrun)).1, ← (Prod.mk.inj (Except.ok.inj hrun')).1] at hreported
  rw [hreported, hone] at htwo
  cases htwo

end Timeouts

end RedisTrace
