import RedisTrace.Exchanges
import RedisTrace.Output
import RedisTrace.SeenBytes

/-!
One connection, followed by two tracers. They may stand at its two ends, among
other traffic, with routers between them and with clocks of their own. What
they report about the connection corresponds, and the times differ as the
clocks do.
-/

namespace RedisTrace

open CircularList Run Machine Exchange

/-- Microseconds, as they are computed from seconds and microseconds. -/
def micros (t : UInt32 × UInt32) : UInt32 := t.1 * 1000000 + t.2

/-- The frames that carry data of a connection. -/
def dataOf (k : Conn) (frames : List Frame) : List Frame :=
  frames.filter (fun f => f.decoded.1 = 1 ∧ f.tuple.conn = k)

section Relations

variable (rel : UInt32 × UInt32 → UInt32 × UInt32 → Prop)

/-- The same frame as far as a tracer looks, captured again at another time. -/
structure Frame.SeenAgain (f g : Frame) : Prop where
  seen : f.SeenAs {g with sec := f.sec, uSec := f.uSec, want := f.want}
  time : rel (f.sec, f.uSec) (g.sec, g.uSec)
  memory : f.want.isSome = g.want.isSome

structure PortVHashItem.SeenAgain (i i' : PortVHashItem) : Prop where
  cmd : i.cmd = i'.cmd
  stPortItem : i.stPortItem = i'.stPortItem
  time : rel (i.sec, i.uSec) (i'.sec, i'.uSec)

structure Report.SeenAgain (r r' : Report) : Prop where
  item : r.item.SeenAgain rel r'.item
  time : rel (r.sec, r.uSec) (r'.sec, r'.uSec)

inductive Slot.SeenAgain : Slot → Slot → Prop where
  | idle : SeenAgain .idle .idle
  | pending {key : PortItem} {cmd : CmdChars} {sec uSec sec' uSec' : UInt32}
      (time : rel (sec, uSec) (sec', uSec')) :
      SeenAgain (.pending key cmd sec uSec) (.pending key cmd sec' uSec')

end Relations

/-- Lines whose times are `d` microseconds apart, in 32 bits; the elapsed times
are not, in as many bits. -/
structure Line.Apart (d : UInt32) (l l' : Line) : Prop where
  cmd : l'.cmd = l.cmd
  ulq : l'.ulq = (l.ulq.toUInt32 + d).toUInt64
  ula : l'.ula = (l.ula.toUInt32 + d).toUInt64
  es : (l'.ula - l'.ulq).toUInt32 = (l.ula - l.ulq).toUInt32

section Steps

variable {rel : UInt32 × UInt32 → UInt32 × UInt32 → Prop} {f g : Frame} {slot slot' : Slot}

theorem Frame.SeenAgain.tuple (hagain : f.SeenAgain rel g) : f.tuple = g.tuple :=
  congrArg (fun decoded => decoded.2.stPortItem) hagain.seen.decoded

theorem command_congr (hsame : f.parsed.map Parsed.outcome = g.parsed.map Parsed.outcome) :
    f.command = g.command := by
  unfold Frame.command
  cases hf : f.parsed with
  | error e =>
      cases hg : g.parsed with
      | error e' => rfl
      | ok parsed' =>
          rw [hf, hg] at hsame
          cases hsame
  | ok parsed =>
      cases hg : g.parsed with
      | error e' =>
          rw [hf, hg] at hsame
          cases hsame
      | ok parsed' =>
          rw [hf, hg] at hsame
          obtain ⟨hret, hcmd, -⟩ : parsed.ret = parsed'.ret ∧
              parsed.pstRdsCmd = parsed'.pstRdsCmd ∧ parsed.copied = parsed'.copied := by
            simpa [Except.map, Parsed.outcome] using hsame
          dsimp only
          rw [hret, hcmd]

theorem Frame.SeenAgain.command (hagain : f.SeenAgain rel g) (hok : f.decoded.1 = 1) :
    f.command = g.command :=
  command_congr (hagain.seen.parsed hok)

/-- Slots that stand for the same stay so. -/
theorem Frame.SeenAgain.slotStep (hagain : f.SeenAgain rel g) (hok : f.decoded.1 = 1)
    (hslot : slot.SeenAgain rel slot') :
    (f.slotStep slot).1.SeenAgain rel (g.slotStep slot').1 ∧
      Option.Rel (Report.SeenAgain rel) (f.slotStep slot).2 (g.slotStep slot').2 := by
  have htuple := hagain.tuple
  have hmemory := hagain.memory
  cases hslot with
  | idle =>
      refine ⟨?_, .none⟩
      change f.opened.SeenAgain rel g.opened
      unfold Frame.opened
      rw [← hagain.command hok, ← htuple]
      cases hcommand : f.command with
      | none => exact .idle
      | some cmd =>
          cases hf : f.want with
          | none =>
              cases hg : g.want with
              | none => exact .idle
              | some want => simp [hf, hg] at hmemory
          | some want =>
              cases hg : g.want with
              | none => simp [hf, hg] at hmemory
              | some want' => exact .pending hagain.time
  | @pending key cmd sec uSec sec' uSec' time =>
      rcases eq_or_ne f.tuple key with hkey | hkey
      · rw [Frame.slotStep_answer hkey, Frame.slotStep_answer (htuple ▸ hkey)]
        exact ⟨.idle, .some ⟨⟨rfl, rfl, time⟩, hagain.time⟩⟩
      · rw [Frame.slotStep_renew hkey, Frame.slotStep_renew (htuple ▸ hkey)]
        exact ⟨.pending hagain.time, .none⟩

end Steps

section Views

variable {rel : UInt32 × UInt32 → UInt32 × UInt32 → Prop} {k : Conn}

/-- A tracer at an end of a connection gets to see all of its data. -/
theorem framesOf_of_end {ip : UInt32} (hend : ∃ e ∈ k, e.ip = ip) (frames : List Frame) :
    framesOf ip k frames = dataOf k frames := by
  rw [framesOf, inputsOf, dataOf]
  apply List.filter_congr
  intro f _
  rw [decide_eq_decide]
  constructor
  · intro hroute
    obtain ⟨haccepted, hconn⟩ := accepted_of_route hroute
    exact ⟨haccepted.1, hconn⟩
  · rintro ⟨hok, rfl⟩
    obtain ⟨e, he, hip⟩ := hend
    have haccepted : f.Accepted ip := by
      refine ⟨hok, ?_⟩
      rcases Sym2.mem_iff.mp he with rfl | rfl
      · exact .inl hip
      · exact .inr hip
    exact if_pos haccepted

/-- The items of two slots that stand for the same. -/
theorem items_again {m m' : PortMap} {slot slot' : Slot} (hslot : slot.SeenAgain rel slot')
    (hm : SlotRel m k slot) (hm' : SlotRel m' k slot') {key : PortItem} (hkey : key.conn = k) :
    Option.Rel (PortVHashItem.SeenAgain rel) ((m key).map (fun c => c.item key))
      ((m' key).map (fun c => c.item key)) := by
  cases hslot with
  | idle =>
      rw [hm key hkey, hm' key hkey]
      exact .none
  | @pending key₀ cmd sec uSec sec' uSec' time =>
      obtain ⟨_, ⟨a, hcell⟩, hothers⟩ := hm
      obtain ⟨_, ⟨a', hcell'⟩, hothers'⟩ := hm'
      rcases eq_or_ne key key₀ with rfl | hne
      · rw [hcell, hcell']
        exact .some ⟨rfl, rfl, time⟩
      · rw [hothers key hkey hne, hothers' key hkey hne]
        exact .none

theorem Report.ulq_micros (r : Report) :
    r.ulq = (micros (r.item.sec, r.item.uSec)).toUInt64 := rfl

theorem Report.ula_micros (r : Report) : r.ula = (micros (r.sec, r.uSec)).toUInt64 := rfl

/-- Where the clocks are `d` microseconds apart, so are the printed times. -/
theorem Report.SeenAgain.line {r r' : Report} (hagain : r.SeenAgain rel r') {d : UInt32}
    (hclocks : ∀ t t', rel t t' → micros t' = micros t + d) :
    Option.Rel (Line.Apart d) r.line r'.line := by
  have hbytes : r'.item.cmdBytes = r.item.cmdBytes := by
    rw [PortVHashItem.cmdBytes, PortVHashItem.cmdBytes, hagain.item.cmd, hagain.item.stPortItem]
  have hulq := hclocks _ _ hagain.item.time
  have hula := hclocks _ _ hagain.time
  unfold Report.line
  rw [hbytes]
  cases printString r.item.cmdBytes with
  | none => exact .none
  | some cmd =>
      refine .some ⟨rfl, ?_, ?_, ?_⟩
      · simp [Report.ulq_micros, hulq]
      · simp [Report.ula_micros, hula]
      · rw [Report.ulq_micros, Report.ula_micros, Report.ulq_micros, Report.ula_micros, hulq, hula,
          UInt64.toUInt32_sub, UInt64.toUInt32_sub]
        simp only [UInt32.toUInt32_toUInt64, add_sub_add_right_eq_sub]

variable {ip ip' : UInt32} {frames frames' : List Frame} {outs outs' : List (Option Report)}
  {w w' : PortWorld}

/-- Two tracers at ends of a connection that capture the same data of it report
the same commands about it in the same order, whatever else they see; and they
keep the same request open. Their times differ as the times of the frames do. -/
theorem pktTrace_seenAgain (hend : ∃ e ∈ k, e.ip = ip) (hend' : ∃ e ∈ k, e.ip = ip')
    (hagain : List.Forall₂ (Frame.SeenAgain rel) (dataOf k frames) (dataOf k frames'))
    (hrun : (pktTrace ip frames).run (vhashInit enVHashMoudleMax) = .ok (outs, w))
    (hrun' : (pktTrace ip' frames').run (vhashInit enVHashMoudleMax) = .ok (outs', w')) :
    List.Forall₂ (Report.SeenAgain rel) (reportsOf k outs) (reportsOf k outs') ∧
      (∃ m m', PortTable w m ∧ PortTable w' m' ∧ ∀ key : PortItem, key.conn = k →
        Option.Rel (PortVHashItem.SeenAgain rel) ((m key).map (fun c => c.item key))
          ((m' key).map (fun c => c.item key))) ∧
      ∀ d, (∀ t t', rel t t' → micros t' = micros t + d) →
        List.Forall₂ (Option.Rel (Line.Apart d)) ((reportsOf k outs).map Report.line)
          ((reportsOf k outs').map Report.line) := by
  obtain ⟨rfl, m, ht, hslots⟩ := pktTrace_ok hrun
  obtain ⟨rfl, m', ht', hslots'⟩ := pktTrace_ok hrun'
  have hdata : ∀ f ∈ dataOf k frames, f.decoded.1 = 1 := by
    intro f hf
    exact (of_decide_eq_true (List.mem_filter.mp hf).2).1
  obtain ⟨hslot, hreports⟩ := run_related (Slot.SeenAgain rel)
    (fun f g slot slot' (hfg : f.decoded.1 = 1 ∧ f.SeenAgain rel g) hslot =>
      hfg.2.slotStep hfg.1 hslot)
    ((List.forall₂_and_left _ _).mpr ⟨hdata, hagain⟩) Slot.SeenAgain.idle
  have hm := hslots k
  have hm' := hslots' k
  rw [tracker, run_family_state] at hm hm'
  rw [← framesOf_of_end hend frames, ← framesOf_of_end hend' frames'] at hslot hreports
  rw [reportsOf_run, reportsOf_run]
  refine ⟨hreports, ⟨m, m', ht, ht', fun key hkey => items_again hslot hm hm' hkey⟩, ?_⟩
  intro d hclocks
  rw [List.forall₂_map_left_iff, List.forall₂_map_right_iff]
  exact hreports.imp fun _ _ h => h.line hclocks

/-- A PING and its reply at the server, and at the client, whose clock is a
second fast. -/
theorem pktTrace_seenAgain_ping :
    let frames' := [{sampleRequest with sec := sampleRequest.sec + 1},
      {sampleReply with sec := sampleReply.sec + 1}]
    let rel := fun t t' : UInt32 × UInt32 => t' = (t.1 + 1, t.2)
    ∃ outs w outs' w',
      (pktTrace sampleServer.ip [sampleRequest, sampleReply]).run (vhashInit enVHashMoudleMax) =
        .ok (outs, w) ∧
      (pktTrace sampleClient.ip frames').run (vhashInit enVHashMoudleMax) = .ok (outs', w') ∧
      List.Forall₂ (Report.SeenAgain rel) (reportsOf sampleRequest.tuple.conn outs)
        (reportsOf sampleRequest.tuple.conn outs') := by
  intro frames' rel
  obtain ⟨outs, w, hrun⟩ := ping_run
  obtain ⟨w', hrun', -⟩ := pktTrace_run sampleClient.ip frames' (by decide +kernel)
  have hdata : dataOf sampleRequest.tuple.conn [sampleRequest, sampleReply] =
      [sampleRequest, sampleReply] := by
    rw [dataOf, List.filter_eq_self]
    simp only [List.forall_mem_cons]
    decide +kernel
  have hdata' : dataOf sampleRequest.tuple.conn frames' = frames' := by
    rw [dataOf, List.filter_eq_self]
    simp only [frames', List.forall_mem_cons]
    decide +kernel
  have hagain : List.Forall₂ (Frame.SeenAgain rel) [sampleRequest, sampleReply] frames' :=
    .cons ⟨⟨rfl, rfl, rfl, rfl, rfl, rfl, rfl, fun _ _ _ => rfl, fun _ _ _ => rfl⟩, rfl, rfl⟩
      (.cons ⟨⟨rfl, rfl, rfl, rfl, rfl, rfl, rfl, fun _ _ _ => rfl, fun _ _ _ => rfl⟩, rfl, rfl⟩
        .nil)
  rw [← hdata] at hagain
  have hseen := pktTrace_seenAgain ⟨sampleServer, by decide +kernel, rfl⟩
    ⟨sampleClient, by decide +kernel, rfl⟩ (hdata' ▸ hagain) hrun hrun'
  exact ⟨outs, w, _, w', hrun, hrun', hseen.1⟩

end Views

end RedisTrace
