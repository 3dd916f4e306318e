import Mathlib.Algebra.Order.BigOperators.Group.Finset
import RedisTrace.Exchanges

/-!
Packets that the capture loses. Where the answering side of a connection sends
no commands, a lost packet costs at most one report, whichever packet it is and
however many are lost; and there are never more reports for it.
-/

namespace RedisTrace

open CircularList Run Machine Exchange

/-- No frame against the direction of a command is a command. -/
def PlainReplies (frames : List Frame) : Prop :=
  ∀ f ∈ frames, ∀ g ∈ frames, f.command ≠ none → g.tuple = f.tuple.swap → g.command = none

section Sides

variable {ip : UInt32} {k : Conn} {frames : List Frame}

theorem command_of_opens {f : Frame} {q : Waiting} (hopens : exchanges.opens f = some q) :
    f.command ≠ none ∧ ∀ g, exchanges.closes q g = decide (g.tuple = f.tuple.swap) := by
  obtain ⟨cmd, hcommand, -, rfl⟩ := opens_iff.mp hopens
  refine ⟨?_, fun g => rfl⟩
  rw [hcommand]
  exact Option.some_ne_none cmd

/-- The side that asks is the one the commands come from. -/
theorem sided_of_plain (hplain : PlainReplies (framesOf ip k frames)) :
    ∃ asks, exchanges.Sided asks (framesOf ip k frames) := by
  by_cases hsilent : ∀ f ∈ framesOf ip k frames, f.command = none
  · refine ⟨fun _ => true, ?_⟩
    intro f hf q hopens
    exact absurd (hsilent f hf) (command_of_opens hopens).1
  · push Not at hsilent
    obtain ⟨first, hfirst, hcommand⟩ := hsilent
    have hside : ∀ g ∈ framesOf ip k frames, g.tuple = first.tuple ∨ g.tuple = first.tuple.swap :=
      fun g hg => (conn_eq_iff _ _).mp ((conn_of_mem hg).trans (conn_of_mem hfirst).symm)
    have hswap : first.tuple ≠ first.tuple.swap :=
      fun heq => hcommand (hplain first hfirst first hfirst hcommand heq)
    refine ⟨fun g => g.tuple = first.tuple, ?_⟩
    intro f hf q hopens
    obtain ⟨hasks, hcloses⟩ := command_of_opens hopens
    have htuple : f.tuple = first.tuple := by
      rcases hside f hf with heq | heq
      · exact heq
      · exact absurd (hplain first hfirst f hf hcommand heq) hasks
    refine ⟨decide_eq_true htuple, ?_⟩
    intro g hg
    rw [hcloses, htuple]
    rcases hside g hg with heq | heq
    · simp [heq, hswap]
    · simp [heq, hswap.symm]

end Sides

section Totals

variable {ip : UInt32} {frames : List Frame} {outs : List (Option Report)} {w : PortWorld}

theorem connections_subset (ip : UInt32) {frames frames' : List Frame}
    (hsub : frames'.Sublist frames) : connections ip frames' ⊆ connections ip frames := by
  intro k hk
  rw [connections, List.mem_toFinset] at hk ⊢
  exact (hsub.filterMap _).subset hk

theorem conn_of_reported
    (hrun : (pktTrace ip frames).run (vhashInit enVHashMoudleMax) = .ok (outs, w)) {r : Report}
    (hr : r ∈ outs.reduceOption) : r.item.stPortItem.conn ∈ connections ip frames := by
  by_contra hunheard
  have hmem : r ∈ reportsOf r.item.stPortItem.conn outs := by simpa [reportsOf] using hr
  rw [reportsOf_exchanges hrun, framesOf_eq_nil hunheard] at hmem
  cases hmem

theorem sum_reports {s : Finset Conn} (hs : connections ip frames ⊆ s)
    (hrun : (pktTrace ip frames).run (vhashInit enVHashMoudleMax) = .ok (outs, w)) :
    ∑ k ∈ s, (reportsOf k outs).length = outs.reduceOption.length :=
  sum_owned (fun r : Report => r.item.stPortItem.conn) fun _ hr => hs (conn_of_reported hrun hr)

theorem sum_frames {s : Finset Conn} (hs : connections ip frames ⊆ s) :
    ∑ k ∈ s, (framesOf ip k frames).length =
      (frames.filter (fun f => (f.route ip).isSome)).length := by
  have howner : ∀ f ∈ frames.filter (fun f => (f.route ip).isSome), f.tuple.conn ∈ s := by
    intro f hf
    obtain ⟨hmem, hsome⟩ := List.mem_filter.mp hf
    obtain ⟨k, hk⟩ := Option.isSome_iff_exists.mp hsome
    apply hs
    rw [(accepted_of_route hk).2, connections, List.mem_toFinset, List.mem_filterMap]
    exact ⟨f, hmem, hk⟩
  rw [← sum_owned (fun f : Frame => f.tuple.conn) howner]
  apply Finset.sum_congr rfl
  intro k _
  rw [List.filter_filter, framesOf, inputsOf]
  congr 1
  apply List.filter_congr
  intro f _
  cases hroute : f.route ip with
  | none => simp
  | some k' => simp [(accepted_of_route hroute).2]

end Totals

section Traces

variable {ip : UInt32} {frames frames' : List Frame} {outs outs' : List (Option Report)}
  {w w' : PortWorld}

/-- A connection of which packets are lost. -/
theorem reportsOf_lossy (hsub : frames'.Sublist frames) (k : Conn)
    (hplain : PlainReplies (framesOf ip k frames))
    (hrun : (pktTrace ip frames).run (vhashInit enVHashMoudleMax) = .ok (outs, w))
    (hrun' : (pktTrace ip frames').run (vhashInit enVHashMoudleMax) = .ok (outs', w')) :
    (reportsOf k outs').length ≤ (reportsOf k outs).length ∧
      (reportsOf k outs).length + (framesOf ip k frames').length ≤
        (reportsOf k outs').length + (framesOf ip k frames).length := by
  have hframes : (framesOf ip k frames').Sublist (framesOf ip k frames) := hsub.filter _
  obtain ⟨asks, hsided⟩ := sided_of_plain hplain
  rw [reportsOf_exchanges hrun, reportsOf_exchanges hrun',
    length_answers hsided none (fun q hq => by cases hq),
    length_answers (hsided.sublist hframes) none (fun q hq => by cases hq)]
  exact closings_sublist hframes _

/-- Lost packets cost at most as many reports, on each connection and in all,
and there are never more for them. -/
theorem pktTrace_lossy (hsub : frames'.Sublist frames)
    (hplain : ∀ k, PlainReplies (framesOf ip k frames))
    (hrun : (pktTrace ip frames).run (vhashInit enVHashMoudleMax) = .ok (outs, w))
    (hrun' : (pktTrace ip frames').run (vhashInit enVHashMoudleMax) = .ok (outs', w')) :
    (∀ k, (reportsOf k outs').length ≤ (reportsOf k outs).length ∧
      (reportsOf k outs).length + (framesOf ip k frames').length ≤
        (reportsOf k outs').length + (framesOf ip k frames).length) ∧
      outs'.reduceOption.length ≤ outs.reduceOption.length ∧
      outs.reduceOption.length + frames'.length ≤ outs'.reduceOption.length + frames.length := by
  have hone := fun k => reportsOf_lossy hsub k (hplain k) hrun hrun'
  have hle := Finset.sum_le_sum (fun k (_ : k ∈ connections ip frames) => (hone k).1)
  have hlost := Finset.sum_le_sum (fun k (_ : k ∈ connections ip frames) => (hone k).2)
  have hsubset := connections_subset ip hsub
  rw [sum_reports hsubset hrun', sum_reports subset_rfl hrun] at hle
  rw [Finset.sum_add_distrib, Finset.sum_add_distrib, sum_reports subset_rfl hrun,
    sum_reports hsubset hrun', sum_frames subset_rfl, sum_frames hsubset] at hlost
  refine ⟨hone, hle, ?_⟩
  have hrest := (hsub.filter (fun f => !(f.route ip).isSome)).length_le
  have hframes := List.length_eq_length_filter_add (l := frames) (fun f => (f.route ip).isSome)
  have hframes' := List.length_eq_length_filter_add (l := frames') (fun f => (f.route ip).isSome)
  omega

/-- A PING is lost, and its reply is not. -/
theorem pktTrace_lossy_ping :
    ∃ outs w outs' w',
      (pktTrace sampleServer.ip [sampleRequest, sampleReply]).run (vhashInit enVHashMoudleMax) =
        .ok (outs, w) ∧
      (pktTrace sampleServer.ip [sampleReply]).run (vhashInit enVHashMoudleMax) =
        .ok (outs', w') ∧
      (∀ k, (reportsOf k outs').length ≤ (reportsOf k outs).length ∧
        (reportsOf k outs).length + (framesOf sampleServer.ip k [sampleReply]).length ≤
          (reportsOf k outs').length +
            (framesOf sampleServer.ip k [sampleRequest, sampleReply]).length) ∧
      outs'.reduceOption.length ≤ outs.reduceOption.length ∧
      outs.reduceOption.length + [sampleReply].length ≤
        outs'.reduceOption.length + [sampleRequest, sampleReply].length := by
  obtain ⟨outs, w, hrun⟩ := ping_run
  obtain ⟨w', hrun', -⟩ := pktTrace_run sampleServer.ip [sampleReply] (by decide +kernel)
  refine ⟨outs, w, _, w', hrun, hrun',
    pktTrace_lossy (List.sublist_cons_self _ _) ?_ hrun hrun'⟩
  intro k f hf g hg hcommand htuple
  have hreply : sampleReply.command = none := by decide +kernel
  have hother : sampleRequest.tuple ≠ sampleRequest.tuple.swap := by decide +kernel
  have hasked : f = sampleRequest := by
    have hmem := (List.mem_filter.mp hf).1
    rw [List.mem_pair] at hmem
    exact hmem.resolve_right fun heq => hcommand (heq ▸ hreply)
  subst hasked
  have hmem := (List.mem_filter.mp hg).1
  rw [List.mem_pair] at hmem
  rcases hmem with rfl | rfl
  · exact absurd htuple hother
  · exact hreply

end Traces

end RedisTrace
