import RedisTrace.Exchanges

/-!
A tracer that is started again in the middle of the traffic. It knows nothing
of the requests that are open at that moment. A connection without one does not
notice; on the others at most the report of the open request is lost, if the
packet that answers it is no command itself.
-/

namespace RedisTrace

open CircularList Run Machine Exchange

/-- The answer that an open request of connection `k` gets behind the cut is no
command. -/
def AnsweredPlainly (ip : UInt32) (k : Conn) (before after : List Frame) : Prop :=
  ∀ reports q kept g rest, Pending exchanges (framesOf ip k before) reports q →
    framesOf ip k after = kept ++ g :: rest → (∀ x ∈ kept, x.tuple ≠ q.key) →
    g.tuple = q.key → g.command = none

/-- The reports about `k` after the cut, and those of a tracer that is started
there: one may be missing at the beginning, or be different. -/
def Rejoins (ip : UInt32) (k : Conn) (before : List Frame) (outs outs' : List (Option Report)) :
    Prop :=
  ∃ lost got rest, reportsOf k (outs.drop before.length) = lost ++ rest ∧
    reportsOf k outs' = got ++ rest ∧ got.length ≤ lost.length ∧ lost.length ≤ 1 ∧
    ((∃ reports, Complete exchanges (framesOf ip k before) reports) → lost = [])

section Cut

variable {ip : UInt32} {k : Conn} {before after : List Frame}

/-- What is reported behind the cut is what the connection's exchanges answer,
from the request that is open there. -/
theorem reportsOf_drop (ip : UInt32) (k : Conn) (before after : List Frame) :
    reportsOf k ((run (tracker ip) (before ++ after) allIdle).2.drop before.length) =
      answers exchanges.step (framesOf ip k after)
        (run exchanges.step (framesOf ip k before) none).1 := by
  have hlength := length_run (tracker ip) before allIdle
  rw [run_append, ← hlength, List.drop_left, reportsOf_run, tracker, run_family_state,
    exchanges_answers, exchanges_run]
  rfl

/-- Frames of the connection that do not answer the request come from the side
that has asked. -/
theorem keeps_of_unanswered {q : Waiting} {kept : List Frame} (hkey : q.key.conn = k)
    (hconn : ∀ x ∈ kept, x.tuple.conn = k) (hkept : ∀ x ∈ kept, x.tuple ≠ q.key) :
    exchanges.Keeps q kept := by
  intro x hx
  refine ⟨decide_eq_false (hkept x hx), ?_⟩
  intro p hopens j
  obtain ⟨cmd, -, -, rfl⟩ := opens_iff.mp hopens
  have hside : x.tuple.swap = q.key := by
    rcases (conn_eq_iff x.tuple q.key).mp ((hconn x hx).trans hkey.symm) with heq | heq
    · exact absurd heq (hkept x hx)
    · rw [heq]
      rfl
  change decide (j.tuple = x.tuple.swap) = decide (j.tuple = q.key)
  rw [hside]

theorem conn_of_pending {reports : List Report} {q : Waiting}
    (hpending : Pending exchanges (framesOf ip k before) reports q) : q.key.conn = k := by
  have hwaiting : (run Frame.slotStep (framesOf ip k before) .idle).1.waiting = some q := by
    rw [← hpending.run.1, exchanges_run]
  obtain ⟨_, f, between, cmd, hcut, -, -, -, -, rfl⟩ := (waiting_iff _ q).mp hwaiting
  have hf : f ∈ framesOf ip k before := by simp [hcut]
  rw [← conn_of_mem hf]
  exact conn_swap f.tuple

/-- From the packet that answers the open request on, the two runs agree. -/
theorem answers_rejoin {q : Waiting} {kept rest : List Frame} {g : Frame} (hconn : q.key.conn = k)
    (hside : ∀ x ∈ kept, x.tuple.conn = k) (hkept : ∀ x ∈ kept, x.tuple ≠ q.key)
    (hkey : g.tuple = q.key) (hcommand : g.command = none) :
    ∃ r got, answers exchanges.step (kept ++ g :: rest) (some q) =
        r :: answers exchanges.step rest none ∧
      answers exchanges.step (kept ++ g :: rest) none = got ++ answers exchanges.step rest none ∧
      got.length ≤ 1 := by
  have hunopened : exchanges.opens g = none := by
    cases hopens : exchanges.opens g with
    | none => rfl
    | some p =>
        obtain ⟨cmd, hsome, -⟩ := opens_iff.mp hopens
        rw [hcommand] at hsome
        cases hsome
  exact rejoin (keeps_of_unanswered hconn hside hkept) (decide_eq_true hkey) hunopened rest

/-- Without such a packet neither of them has anything to report. -/
theorem answers_unanswered {q : Waiting} {fs : List Frame} (hconn : q.key.conn = k)
    (hside : ∀ x ∈ fs, x.tuple.conn = k) (hkept : ∀ x ∈ fs, x.tuple ≠ q.key) :
    answers exchanges.step fs (some q) = [] ∧ answers exchanges.step fs none = [] := by
  have hkeeps := keeps_of_unanswered hconn hside hkept
  exact ⟨(run_kept (fun x hx => (hkeeps x hx).1)).2, (run_none_of_keeps hkeeps).1⟩

/-- Starting again in the middle of a trace costs a connection at most one
report. -/
theorem restart_rejoins {outs outs' : List (Option Report)} {w w' : PortWorld}
    (hwhole : (pktTrace ip (before ++ after)).run (vhashInit enVHashMoudleMax) = .ok (outs, w))
    (hagain : (pktTrace ip after).run (vhashInit enVHashMoudleMax) = .ok (outs', w'))
    (hplain : AnsweredPlainly ip k before after) : Rejoins ip k before outs outs' := by
  obtain ⟨rfl, -⟩ := pktTrace_ok hwhole
  unfold Rejoins
  rw [reportsOf_drop, reportsOf_exchanges hagain]
  rcases run_described (e := exchanges) (framesOf ip k before) with
    ⟨hidle, -⟩ | ⟨q, hopen, hpending⟩
  · rw [hidle]
    exact ⟨[], [], _, rfl, rfl, le_rfl, Nat.zero_le 1, fun _ => rfl⟩
  · rw [hopen]
    have hincomplete : ¬ ∃ reports, Complete exchanges (framesOf ip k before) reports := by
      rintro ⟨reports, hcomplete⟩
      rw [hcomplete.run.1] at hopen
      cases hopen
    have hconn := conn_of_pending hpending
    have hside : ∀ x ∈ framesOf ip k after, x.tuple.conn = k := fun x hx => conn_of_mem hx
    cases hfind : (framesOf ip k after).find? (fun g => g.tuple = q.key) with
    | some g =>
        obtain ⟨hkey, kept, rest, hcut, hkept⟩ := List.find?_eq_some_iff_append.mp hfind
        rw [decide_eq_true_eq] at hkey
        have hkept' : ∀ x ∈ kept, x.tuple ≠ q.key := fun x hx => by simpa using hkept x hx
        have hcommand := hplain _ q kept g rest hpending hcut hkept' hkey
        obtain ⟨r, got, hfirst, hsecond, hlength⟩ :=
          answers_rejoin hconn (fun x hx => hside x (by simp [hcut, hx])) hkept' hkey hcommand
        rw [hcut]
        exact ⟨[r], got, _, hfirst, hsecond, hlength, le_rfl, fun h => absurd h hincomplete⟩
    | none =>
        have hkept : ∀ x ∈ framesOf ip k after, x.tuple ≠ q.key := by
          intro x hx
          simpa using List.find?_eq_none.mp hfind x hx
        obtain ⟨hfirst, hsecond⟩ := answers_unanswered hconn hside hkept
        exact ⟨[], [], [], hfirst, hsecond, le_rfl, Nat.zero_le 1, fun h => absurd h hincomplete⟩

end Cut

/-- Started again between a PING and its reply. -/
theorem restart_rejoins_ping :
    ∃ outs outs' w w',
      (pktTrace sampleServer.ip ([sampleRequest] ++ [sampleReply])).run
        (vhashInit enVHashMoudleMax) = .ok (outs, w) ∧
      (pktTrace sampleServer.ip [sampleReply]).run (vhashInit enVHashMoudleMax) =
        .ok (outs', w') ∧
      ∀ k, Rejoins sampleServer.ip k [sampleRequest] outs outs' := by
  obtain ⟨outs, w, hwhole⟩ := ping_run
  obtain ⟨w', hagain, -⟩ := pktTrace_run sampleServer.ip [sampleReply] (by decide +kernel)
  refine ⟨outs, _, w, w', hwhole, hagain, fun k => restart_rejoins hwhole hagain ?_⟩
  intro reports q kept g rest _ hcut _ _
  have hg : g ∈ framesOf sampleServer.ip k [sampleReply] := by simp [hcut]
  have heq : g = sampleReply := List.mem_singleton.mp (List.mem_filter.mp hg).1
  rw [heq]
  decide +kernel

end RedisTrace
