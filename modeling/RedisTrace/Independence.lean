import RedisTrace.Tracker

/-!
Connections do not interfere: what is reported about a connection, and the item
left pending for it, depend on that connection's own frames only.
-/

namespace RedisTrace

open CircularList Run Machine

/-- The reports about one connection. -/
def reportsOf (k : Conn) (reports : List (Option Report)) : List Report :=
  reports.reduceOption.filter (fun r => r.item.stPortItem.conn = k)

/-- The frames of one connection. -/
def framesOf (ip : UInt32) (k : Conn) (frames : List Frame) : List Frame :=
  inputsOf (Frame.route ip) k frames

section Independence

variable {ip : UInt32} {k : Conn}

theorem report_conn {f : Frame} {slot : Slot} {r : Report} (hroute : f.route ip = some k)
    (hr : (f.slotStep slot).2 = some r) : r.item.stPortItem.conn = k := by
  cases slot with
  | idle => cases hr
  | pending key cmd sec uSec =>
      rcases eq_or_ne f.tuple key with hkey | hkey
      · rw [Frame.slotStep_answer hkey] at hr
        rw [← Option.some.inj hr, ← hkey]
        exact (accepted_of_route hroute).2
      · rw [Frame.slotStep_renew hkey] at hr
        cases hr

/-- What the tracer reports about a connection is what its slot reports. -/
theorem reportsOf_run (frames : List Frame) (slots : Conn → Slot) :
    reportsOf k (run (tracker ip) frames slots).2 =
      answers Frame.slotStep (framesOf ip k frames) (slots k) :=
  answers_family (fun r : Report => r.item.stPortItem.conn)
    (fun _ _ _ _ hroute hr => report_conn hroute hr) k frames slots

theorem namesFit_iff (frames : List Frame) :
    NamesFit ip frames allIdle ↔ ∀ k, Along Frame.slotStep
      (fun f slot => slot = .idle → f.NameFits) (framesOf ip k frames) .idle :=
  along_family (fun (f : Frame) (slot : Slot) => slot = .idle → f.NameFits) frames allIdle

/-- Names that fit in a run still fit when only one connection is processed. -/
theorem namesFit_framesOf {frames : List Frame} (hfits : NamesFit ip frames allIdle)
    (k : Conn) : NamesFit ip (framesOf ip k frames) allIdle := by
  rw [namesFit_iff] at hfits ⊢
  intro k'
  rcases eq_or_ne k' k with rfl | hne
  · rw [framesOf, framesOf, inputsOf_inputsOf_self]
    exact hfits k'
  · rw [framesOf, framesOf, inputsOf_inputsOf_ne hne]
    trivial

theorem namesFit_swap {before after : List Frame} {f g : Frame}
    (hfg : f.route ip ≠ g.route ip)
    (hfits : NamesFit ip (before ++ f :: g :: after) allIdle) :
    NamesFit ip (before ++ g :: f :: after) allIdle := by
  rw [namesFit_iff] at hfits ⊢
  intro k
  rw [framesOf, ← inputsOf_swap hfg]
  exact hfits k

/-- Two traces look the same to connection `k`. -/
def SameFor (ip : UInt32) (k : Conn) (frames frames' : List Frame) : Prop :=
  ∃ outs w m outs' w' m',
    (pktTrace ip frames).run (vhashInit enVHashMoudleMax) = .ok (outs, w) ∧
    PortTable w m ∧
    (pktTrace ip frames').run (vhashInit enVHashMoudleMax) = .ok (outs', w') ∧
    PortTable w' m' ∧
    reportsOf k outs = reportsOf k outs' ∧
    ∀ key : PortItem, key.conn = k →
      (m key).map (fun c => c.item key) = (m' key).map (fun c => c.item key)

/-- Traces with the same frames of a connection look the same to it. -/
theorem sameFor_of_framesOf {frames frames' : List Frame}
    (hfits : NamesFit ip frames allIdle) (hfits' : NamesFit ip frames' allIdle)
    (hsame : framesOf ip k frames = framesOf ip k frames') :
    SameFor ip k frames frames' := by
  obtain ⟨w, hrun, m, ht, hslots⟩ := pktTrace_run ip frames hfits
  obtain ⟨w', hrun', m', ht', hslots'⟩ := pktTrace_run ip frames' hfits'
  have hslot := hslots k
  have hslot' := hslots' k
  rw [tracker, run_family_state] at hslot hslot'
  unfold framesOf at hsame
  rw [← hsame] at hslot'
  refine ⟨_, w, m, _, w', m', hrun, ht, hrun', ht', ?_, ?_⟩
  · rw [reportsOf_run, reportsOf_run, framesOf, framesOf, hsame]
  · intro key hkey
    exact hslot.items_eq hslot' hkey

/-- For every sequence of frames and every connection, the reports about it and
the item left pending for it are those of a run on its own frames; and two
neighbouring frames of different connections can be swapped without any
connection noticing. -/
theorem pktTrace_independent (ip : UInt32) (frames : List Frame)
    (hfits : NamesFit ip frames allIdle) (k : Conn) :
    SameFor ip k frames (framesOf ip k frames) ∧
      ∀ before f g after, frames = before ++ f :: g :: after →
        f.route ip ≠ g.route ip → SameFor ip k frames (before ++ g :: f :: after) := by
  constructor
  · apply sameFor_of_framesOf hfits (namesFit_framesOf hfits k)
    exact (inputsOf_inputsOf_self k frames).symm
  · rintro before f g after rfl hfg
    exact sameFor_of_framesOf hfits (namesFit_swap hfg hfits) (inputsOf_swap hfg k before after)

/-- A connection to another server between a PING and its reply. -/
theorem pktTrace_independent_ping :
    let other := segmentFrame ⟨0x0a0a0001, 40001⟩ sampleServer [0x2a] 100 5 (some 0)
    let frames := [sampleRequest, other, sampleReply]
    SameFor sampleServer.ip sampleRequest.tuple.conn frames
        (framesOf sampleServer.ip sampleRequest.tuple.conn frames) ∧
      ∀ before f g after, frames = before ++ f :: g :: after →
        f.route sampleServer.ip ≠ g.route sampleServer.ip →
        SameFor sampleServer.ip sampleRequest.tuple.conn frames
          (before ++ g :: f :: after) :=
  pktTrace_independent sampleServer.ip _ (by decide +kernel) _

end Independence

end RedisTrace
