import RedisTrace.Exchanges
import RedisTrace.NameBuffers

/-!
Which traces make `redis_cmd_parse` copy a command name past the 32 bytes it
has. Such a copy is undefined, although 36 bytes still end inside `REDIS_CMD`,
in `cmd_num`; a run of the model ends there. Whether it comes to that depends
on the frames before: only a frame that meets no open exchange is parsed.
-/

namespace RedisTrace

open CircularList Run Machine Exchange Cut

/-- A name that stands where its length says and has more than 32 bytes. -/
def LongName (payload : List UInt8) (next : UInt8) : Prop :=
  ∃ o name tail, opening payload = some o ∧ cutLine (o.rest ++ [next]) = some (name, tail) ∧
    (atoi o.size).toInt = name.length ∧ 32 < name.length

/-- Frame `j` has a long name, and when it comes all exchanges of its connection
are complete. -/
def Overflows (ip : UInt32) (frames : List Frame) (j : Nat) : Prop :=
  ∃ g k, frames[j]? = some g ∧ g.route ip = some k ∧
    (∃ reports, Complete exchanges (framesOf ip k (frames.take j)) reports) ∧
    LongName g.payload g.next

section Parse

variable {buf : Bytes} {p : Nat} {len : Int32}

theorem redisCmdParse_long (hpos : 0 < len.toInt)
    (hlong : LongName (payloadAt buf p len) (byteBehind buf p len)) :
    redisCmdParse buf p len 0 = .error .overflow := by
  obtain ⟨o, name, tail, ho, hcut, hsize, hlength⟩ := hlong
  obtain ⟨hparse, hname⟩ := redisCmdParse_opened (holds_payloadAt buf p len)
    (length_payloadAt buf p hpos) ho 0
  rw [hparse, parseName_found hname hcut, if_neg (not_not.mpr hsize), if_pos hlength]

theorem redisCmdParse_not_long (hpos : 0 < len.toInt)
    (hshort : ¬ LongName (payloadAt buf p len) (byteBehind buf p len)) :
    ∃ parsed, redisCmdParse buf p len 0 = .ok parsed := by
  have hholds := holds_payloadAt buf p len
  have hlen := length_payloadAt buf p hpos
  cases ho : opening (payloadAt buf p len) with
  | none =>
      obtain ⟨buf', hparsed⟩ :=
        redisCmdParse_rejected hholds hlen (payloadAt_ne_nil buf p hpos) ho 0
      exact ⟨_, hparsed⟩
  | some o =>
      obtain ⟨hparse, hname⟩ := redisCmdParse_opened hholds hlen ho 0
      cases hcut : cutLine (o.rest ++ [byteBehind buf p len]) with
      | none => exact ⟨_, hparse.trans (parseName_missing hname hcut (atoi o.size) 0)⟩
      | some found =>
          obtain ⟨name, tail⟩ := found
          have hfound := parseName_found hname hcut (atoi o.size) 0
          rcases eq_or_ne (atoi o.size).toInt name.length with hsize | hsize
          · have hle : ¬ 32 < name.length :=
              fun hlength => hshort ⟨o, name, tail, ho, hcut, hsize, hlength⟩
            rw [if_neg (not_not.mpr hsize), if_neg hle] at hfound
            exact ⟨_, hparse.trans hfound⟩
          · rw [if_pos hsize] at hfound
            exact ⟨_, hparse.trans hfound⟩

end Parse

section Traces

variable {ip : UInt32} {f : Frame} {slots : Conn → Slot} {w : PortWorld}

/-- A slot is idle when the exchanges of its connection are complete. -/
theorem idle_iff (fs : List Frame) : (run Frame.slotStep fs .idle).1 = .idle ↔
    ∃ reports, Complete exchanges fs reports := by
  constructor
  · intro hidle
    have hstate : (run exchanges.step fs none).1 = none := by
      rw [exchanges_run, hidle]
      rfl
    exact ⟨_, complete_iff.mpr ⟨hstate, rfl⟩⟩
  · rintro ⟨reports, hcomplete⟩
    exact slot_of_complete hcomplete

theorem not_readable_iff : ¬ f.Readable ip slots ↔
    ∃ k, f.route ip = some k ∧ slots k = .idle ∧ LongName f.payload f.next := by
  constructor
  · intro hunreadable
    unfold Frame.Readable at hunreadable
    push Not at hunreadable
    obtain ⟨k, hroute, hidle, hnone⟩ := hunreadable
    refine ⟨k, hroute, hidle, ?_⟩
    by_contra hshort
    obtain ⟨parsed, hparsed⟩ :=
      redisCmdParse_not_long (payload_pos (accepted_of_route hroute).1) hshort
    exact hnone parsed hparsed
  · rintro ⟨k, hroute, hidle, hlong⟩ hreadable
    obtain ⟨parsed, hparsed⟩ := hreadable k hroute hidle
    have hfault : f.parsed = .error .overflow :=
      redisCmdParse_long (payload_pos (accepted_of_route hroute).1) hlong
    rw [hfault] at hparsed
    cases hparsed

theorem recvFrame_overflows (htracks : Tracks w slots) (hunreadable : ¬ f.Readable ip slots) :
    (recvFrame ip f).run w = .error .overflow := by
  obtain ⟨k, hroute, hidle, hlong⟩ := not_readable_iff.mp hunreadable
  obtain ⟨haccepted, rfl⟩ := accepted_of_route hroute
  obtain ⟨m, ht, hslots⟩ := htracks
  have hslot := hslots f.tuple.conn
  rw [hidle] at hslot
  have hfault : f.parsed = .error .overflow := redisCmdParse_long (payload_pos haccepted) hlong
  have hrun := recv_fault ht haccepted (hslot _ rfl) (hslot _ (conn_swap _)) hfault
  simp [recvFrame, hrun]

theorem not_along_iff (ip : UInt32) (frames : List Frame) :
    ¬ Along (tracker ip) (Frame.Readable ip) frames allIdle ↔ ∃ j, Overflows ip frames j := by
  have hslot : ∀ j k, (run (tracker ip) (frames.take j) allIdle).1 k = .idle ↔
      ∃ reports, Complete exchanges (framesOf ip k (frames.take j)) reports := by
    intro j k
    rw [tracker, run_family_state]
    exact idle_iff _
  rw [along_iff]
  push Not
  constructor
  · rintro ⟨j, g, hg, hunreadable⟩
    obtain ⟨k, hroute, hidle, hlong⟩ := not_readable_iff.mp hunreadable
    exact ⟨j, g, k, hg, hroute, (hslot j k).mp hidle, hlong⟩
  · rintro ⟨j, g, k, hg, hroute, hcomplete, hlong⟩
    exact ⟨j, g, hg, not_readable_iff.mpr ⟨k, hroute, (hslot j k).mpr hcomplete, hlong⟩⟩

/-- A run over a trace copies past the 32 bytes of a name when a frame with a
long name meets a connection whose exchanges are complete, and comes to the end
of the trace otherwise. -/
theorem pktTrace_overflows_or_ends (ip : UInt32) (frames : List Frame) :
    ((pktTrace ip frames).run (vhashInit enVHashMoudleMax) = .error .overflow ∧
        ∃ j, Overflows ip frames j) ∨
      (∃ outs w, (pktTrace ip frames).run (vhashInit enVHashMoudleMax) = .ok (outs, w)) ∧
        ∀ j, ¬ Overflows ip frames j := by
  obtain ⟨w₀, hinit, ht₀⟩ := portVHashInit_run
  rw [pktTrace, StateT.run_bind, hinit]
  by_cases halong : Along (tracker ip) (Frame.Readable ip) frames allIdle
  · right
    obtain ⟨w, hrun, -⟩ :=
      mapM_follows (tracker ip) Tracks recvFrame_follows frames w₀ allIdle (tracks_empty ht₀) halong
    refine ⟨⟨_, w, hrun⟩, ?_⟩
    intro j hj
    exact (not_along_iff ip frames).mpr ⟨j, hj⟩ halong
  · left
    exact ⟨mapM_breaks (tracker ip) Tracks recvFrame_follows
      (fun _ _ _ htracks hunreadable => recvFrame_overflows htracks hunreadable) frames w₀ allIdle
      (tracks_empty ht₀) halong, (not_along_iff ip frames).mp halong⟩

end Traces

end RedisTrace
