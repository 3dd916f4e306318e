import RedisTrace.Resp

/-!
The elapsed time in a report. `pkt_recv` brings both times to microseconds in
32 bits and subtracts them in 64. The times wrap every 2 ^ 32 microseconds, the
difference does not, so it is right only between two wraps.
-/

namespace RedisTrace

open CircularList Run Machine

/-- A time in microseconds, without a limit. -/
def microseconds (sec uSec : UInt32) : Nat := 1000000 * sec.toNat + uSec.toNat

/-- Times are ordered by their seconds first. -/
def NotLater (sec uSec sec' uSec' : UInt32) : Prop :=
  sec < sec' ∨ (sec = sec' ∧ uSec ≤ uSec')

instance (sec uSec sec' uSec' : UInt32) : Decidable (NotLater sec uSec sec' uSec') :=
  inferInstanceAs (Decidable (_ ∨ _))

/-- `pkt_recv` reports the time from the request `c` to the frame. -/
def ReportsElapsed (ip : UInt32) (f : Frame) (w : PortWorld) (c : Cell) : Prop :=
  ∃ received w' r, (f.recv ip).run w = .ok (received, w') ∧ received.report = some r ∧
    (r.es.toNat : Int) =
      ((f.sec.toNat : Int) - c.sec.toNat) * 1000000 + ((f.uSec.toNat : Int) - c.uSec.toNat)

/-- No multiple of 2 ^ 32 microseconds lies after the first time and not after
the second. -/
def SameWrap (sec uSec sec' uSec' : UInt32) : Prop :=
  microseconds sec uSec / 2 ^ 32 = microseconds sec' uSec' / 2 ^ 32

section Times

variable {sec uSec sec' uSec' : UInt32}

theorem toNat_time (sec uSec : UInt32) :
    (sec * 1000000 + uSec).toUInt64.toNat = microseconds sec uSec % 2 ^ 32 := by
  have hmillion : (1000000 : UInt32).toNat = 1000000 := rfl
  rw [UInt32.toNat_toUInt64, UInt32.toNat_add, UInt32.toNat_mul, hmillion, Nat.mod_add_mod,
    Nat.mul_comm]
  rfl

theorem microseconds_lt (huSec : uSec < 1000000) : microseconds sec uSec < 2 ^ 52 := by
  have hmicro : uSec.toNat < 1000000 := UInt32.lt_iff_toNat_lt.mp huSec
  have hsec := sec.toNat_lt
  unfold microseconds
  omega

theorem microseconds_le (huSec : uSec < 1000000) (hnotLater : NotLater sec uSec sec' uSec') :
    microseconds sec uSec ≤ microseconds sec' uSec' := by
  have hmicro : uSec.toNat < 1000000 := UInt32.lt_iff_toNat_lt.mp huSec
  unfold microseconds
  rcases hnotLater with hsec | ⟨rfl, hle⟩
  · have hlt := UInt32.lt_iff_toNat_lt.mp hsec
    omega
  · have hle' := UInt32.le_iff_toNat_le.mp hle
    omega

/-- The remainders are as far apart as the numbers exactly when the quotients
are the same. -/
theorem sub_mod_eq_iff {s t : Nat} (hle : s ≤ t) (ht : t < 2 ^ 52) :
    (2 ^ 64 - s % 2 ^ 32 + t % 2 ^ 32) % 2 ^ 64 = t - s ↔ s / 2 ^ 32 = t / 2 ^ 32 := by
  constructor
  · intro hsub
    omega
  · intro hwrap
    omega

end Times

section Replies

variable {ip : UInt32} {f : Frame} {w : PortWorld} {m : PortMap} {c : Cell}

theorem toNat_es (r : Report) :
    r.es.toNat = (2 ^ 64 - microseconds r.item.sec r.item.uSec % 2 ^ 32 +
      microseconds r.sec r.uSec % 2 ^ 32) % 2 ^ 64 := by
  rw [Report.es, UInt64.toNat_sub, Report.ulq, Report.ula, toNat_time, toNat_time]

/-- For every pending request and every reply that does not come before it: the
elapsed time is right exactly when the times do not wrap in between. -/
theorem reportsElapsed_iff (ht : PortTable w m) (haccepted : f.Accepted ip)
    (hc : m f.tuple = some c) (hrequest : c.uSec < 1000000) (hreply : f.uSec < 1000000)
    (hnotLater : NotLater c.sec c.uSec f.sec f.uSec) :
    ReportsElapsed ip f w c ↔ SameWrap c.sec c.uSec f.sec f.uSec := by
  obtain ⟨w', hrun, _⟩ := recv_reply ht haccepted hc
  have hle := microseconds_le hrequest hnotLater
  have hes := toNat_es ⟨c.item f.tuple, f.sec, f.uSec⟩
  rw [SameWrap, ← sub_mod_eq_iff hle (microseconds_lt hreply)]
  constructor
  · rintro ⟨received, w₁, r, hrun', hreport, helapsed⟩
    rw [hrun] at hrun'
    obtain ⟨rfl, _⟩ := Prod.mk.inj (Except.ok.inj hrun')
    obtain rfl := Option.some.inj hreport
    rw [hes] at helapsed
    change (((2 ^ 64 - microseconds c.sec c.uSec % 2 ^ 32 +
      microseconds f.sec f.uSec % 2 ^ 32) % 2 ^ 64 : Nat) : Int) = _ at helapsed
    unfold microseconds at *
    omega
  · intro hsub
    refine ⟨_, w', _, hrun, rfl, ?_⟩
    rw [hes]
    change (((2 ^ 64 - microseconds c.sec c.uSec % 2 ^ 32 +
      microseconds f.sec f.uSec % 2 ^ 32) % 2 ^ 64 : Nat) : Int) = _
    rw [hsub]
    unfold microseconds at *
    omega

/-- A PING at the given time, and the reply to it. -/
def pingAt (sec uSec : UInt32) : Frame := {sampleRequest with sec := sec, uSec := uSec}

def pongAt (sec uSec : UInt32) : Frame := {sampleReply with sec := sec, uSec := uSec}

theorem reportsElapsed_iff_pong :
    ∃ w m c, PortTable w m ∧ m (pongAt 101 5).tuple = some c ∧
      NotLater c.sec c.uSec 101 5 ∧
      (ReportsElapsed sampleServer.ip (pongAt 101 5) w c ↔ SameWrap c.sec c.uSec 101 5) := by
  have hpending : (run (tracker sampleServer.ip) [pingAt 100 999999] allIdle).1
      (pongAt 101 5).tuple.conn =
        .pending (pongAt 101 5).tuple (storedName [0x50, 0x49, 0x4e, 0x47]) 100 999999 := by
    decide +kernel
  obtain ⟨_, w, m, a, _, ht, hc⟩ := pktTrace_pending (by decide +kernel) hpending
  have hnotLater : NotLater 100 999999 101 5 := by decide
  have hrequest : (999999 : UInt32) < 1000000 := by decide
  exact ⟨w, m, _, ht, hc, hnotLater,
    reportsElapsed_iff ht (by decide +kernel) hc hrequest (by decide) hnotLater⟩

/-- A reply one microsecond after its request, with the 2 ^ 32-th microsecond
in between. -/
theorem reportsElapsed_wrapped :
    ∃ outs w m c, (pktTrace sampleServer.ip [pingAt 4294 967295]).run
        (vhashInit enVHashMoudleMax) = .ok (outs, w) ∧ PortTable w m ∧
      m (pongAt 4294 967296).tuple = some c ∧ c.uSec < 1000000 ∧
      NotLater c.sec c.uSec 4294 967296 ∧
      ¬ ReportsElapsed sampleServer.ip (pongAt 4294 967296) w c := by
  have hpending : (run (tracker sampleServer.ip) [pingAt 4294 967295] allIdle).1
      (pongAt 4294 967296).tuple.conn =
        .pending (pongAt 4294 967296).tuple (storedName [0x50, 0x49, 0x4e, 0x47]) 4294
          967295 := by
    decide +kernel
  have haccepted : (pongAt 4294 967296).Accepted sampleServer.ip := by decide +kernel
  obtain ⟨outs, w, m, a, hrun, ht, hc⟩ := pktTrace_pending (by decide +kernel) hpending
  have hnotLater : NotLater 4294 967295 4294 967296 := by decide
  have hrequest : (967295 : UInt32) < 1000000 := by decide
  refine ⟨outs, w, m, _, hrun, ht, hc, hrequest, hnotLater, ?_⟩
  rintro ⟨received, w₁, r, hrun', hreport, helapsed⟩
  obtain ⟨w', hreply, _⟩ := recv_reply ht haccepted hc
  rw [hreply] at hrun'
  obtain ⟨rfl, _⟩ := Prod.mk.inj (Except.ok.inj hrun')
  obtain rfl := Option.some.inj hreport
  rw [toNat_es] at helapsed
  change (((2 ^ 64 - microseconds 4294 967295 % 2 ^ 32 + microseconds 4294 967296 % 2 ^ 32) %
    2 ^ 64 : Nat) : Int) = ((4294 : Int) - 4294) * 1000000 + (967296 - 967295) at helapsed
  revert helapsed
  decide

end Replies

end RedisTrace
