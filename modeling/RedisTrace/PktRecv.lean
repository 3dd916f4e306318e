import RedisTrace.PktParse
import RedisTrace.PortTable

/-!
What `pkt_recv` does to the connection table, path by path. A frame is refused
outright, answers a pending request, repeats one, or is parsed as a command.
-/

namespace RedisTrace

open CircularList Run

/-- A frame with the moment of its capture. `want` is what `malloc` would
answer, should the frame need a new item. -/
structure Frame where
  rbuf : Bytes
  len : Int32
  sec : UInt32
  uSec : UInt32
  want : Option Nat

namespace Frame

def decoded (f : Frame) : Int32 × DataDesc := pparseGetDataptr f.rbuf f.len 0

/-- The 4-tuple of the frame, sender first. -/
def tuple (f : Frame) : PortItem := f.decoded.2.stPortItem

/-- The frame carries data to or from the monitored address. -/
def Accepted (ip : UInt32) (f : Frame) : Prop :=
  f.decoded.1 = 1 ∧ (f.tuple.sip = ip ∨ f.tuple.dip = ip)

instance (ip : UInt32) (f : Frame) : Decidable (f.Accepted ip) :=
  inferInstanceAs (Decidable (_ ∧ _))

/-- `redis_cmd_parse` on the payload, with the zeroed `REDIS_CMD` of
`pkt_recv`. -/
def parsed (f : Frame) : Except Fault Parsed :=
  redisCmdParse f.rbuf f.decoded.2.dataptr f.decoded.2.uidatalen.toInt32 0

/-- `pkt_recv` on the frame. -/
def recv (ip : UInt32) (f : Frame) : PortW Received :=
  pktRecv ⟨f.sec, f.uSec, ip⟩ f.rbuf f.len f.want

end Frame

section Buffer

variable {buf : Bytes} {cmd : RedisCmd} {parsed : Parsed}

theorem parseName_buf {p1 : Nat} {len : Int} {cmdLen : Int32}
    (hparsed : parseName buf p1 len cmdLen cmd = .ok parsed) : parsed.buf = buf := by
  dsimp only [parseName] at hparsed
  split at hparsed
  · split at hparsed
    · cases hparsed
      rfl
    · split at hparsed
      · cases hparsed
      · cases hparsed
        rfl
  · cases hparsed
    rfl

theorem parseBulk_buf {p1 : Nat} {len : Int}
    (hparsed : parseBulk buf p1 len cmd = .ok parsed) {i : Nat} (hi : i ≤ p1) :
    parsed.buf i = buf i := by
  dsimp only [parseBulk] at hparsed
  split at hparsed
  · cases hparsed
    rfl
  · have hne : i ≠ p1 + 1 + findCrlf buf (p1 + 1) (len - 1) := by omega
    split at hparsed
    · cases hparsed
      exact Function.update_of_ne hne _ _
    · rw [parseName_buf hparsed]
      exact Function.update_of_ne hne _ _

/-- `redis_cmd_parse` writes only behind the first byte of the payload. -/
theorem redisCmdParse_buf {pdata : Nat} {len : Int32}
    (hparsed : redisCmdParse buf pdata len cmd = .ok parsed) {i : Nat} (hi : i ≤ pdata) :
    parsed.buf i = buf i := by
  dsimp only [redisCmdParse] at hparsed
  split at hparsed
  · cases hparsed
    rfl
  · have hne : i ≠ pdata + 1 + findCrlf buf (pdata + 1) (len.toInt - 1) := by omega
    split at hparsed
    · cases hparsed
      exact Function.update_of_ne hne _ _
    · rw [parseBulk_buf hparsed (by omega)]
      exact Function.update_of_ne hne _ _

end Buffer

section Paths

variable {w : PortWorld} {m : PortMap} {ip : UInt32} {f : Frame} {c : Cell}

theorem recv_refused (hrefused : ¬ f.Accepted ip) :
    (f.recv ip).run w = .ok (⟨0, none, f.rbuf⟩, w) := by
  unfold Frame.recv pktRecv
  by_cases hok : f.decoded.1 = 1
  · have haway : f.decoded.2.sIp ≠ ip ∧ f.decoded.2.dIp ≠ ip := by
      constructor
      · intro hip
        exact hrefused ⟨hok, Or.inl hip⟩
      · intro hip
        exact hrefused ⟨hok, Or.inr hip⟩
    unfold Frame.decoded at hok haway
    simp [hok, haway]
  · unfold Frame.decoded at hok
    simp [hok]

/-- The part of `pkt_recv` behind its two checks. -/
theorem recv_accepted (haccepted : f.Accepted ip) :
    f.recv ip = (do
      let (_, pstVhashItem) ← portVHashFindStruct f.tuple (some none)
      match pstVhashItem.join with
      | some a =>
          let item ← readItem a
          let _ ← portVHashDel f.tuple
          return ⟨1, some ⟨item, f.sec, f.uSec⟩, f.rbuf⟩
      | none =>
          let (_, pstVhashItem) ← portVHashFindStruct f.tuple.swap pstVhashItem
          match pstVhashItem.join with
          | some a =>
              writeItem a (fun item => {item with sec := f.sec, uSec := f.uSec})
              return ⟨1, none, f.rbuf⟩
          | none =>
              let parsed ← f.parsed
              if parsed.ret ≠ 0 then
                return ⟨0, none, parsed.buf⟩
              else
                let (_, pstVhashItem) ← portVHashAdd f.tuple.swap pstVhashItem f.want
                match pstVhashItem.join with
                | some a =>
                    writeItem a (fun item => {item with
                      sec := f.sec
                      uSec := f.uSec
                      cmd := strncpy parsed.pstRdsCmd.cmd})
                    return ⟨1, none, parsed.buf⟩
                | none => return ⟨1, none, parsed.buf⟩) := by
  obtain ⟨hok, hip⟩ := haccepted
  have hhere : ¬ (f.decoded.2.sIp ≠ ip ∧ f.decoded.2.dIp ≠ ip) := by
    rintro ⟨hs, hd⟩
    rcases hip with hip | hip
    · exact hs hip
    · exact hd hip
  unfold Frame.recv pktRecv
  unfold Frame.decoded at hok hhere
  simp only [hok, ne_eq, not_true_eq_false, if_false]
  rw [if_neg hhere]
  rfl

/-- A packet with the 4-tuple of a pending item is taken for its reply. -/
theorem recv_reply (ht : PortTable w m) (haccepted : f.Accepted ip)
    (hc : m f.tuple = some c) :
    ∃ w', (f.recv ip).run w =
        .ok (⟨1, some ⟨c.item f.tuple, f.sec, f.uSec⟩, f.rbuf⟩, w') ∧
      PortTable w' (Function.update m f.tuple none) := by
  obtain ⟨keys, ha⟩ := ht.arranged
  obtain ⟨w₁, hfind, ha₁⟩ := portVHashFindStruct_present ha hc none
  obtain ⟨w₂, hdel, ha₂⟩ := portVHashDel_present ha₁ hc
  refine ⟨w₂, ?_, ha₂.toTable⟩
  rw [recv_accepted haccepted]
  simp [hfind, readItem_run ha₁.toTable hc, hdel]

/-- A packet with the swapped 4-tuple of a pending item renews its time. -/
theorem recv_repeat (ht : PortTable w m) (haccepted : f.Accepted ip)
    (hnone : m f.tuple = none) (hc : m f.tuple.swap = some c) :
    ∃ w', (f.recv ip).run w = .ok (⟨1, none, f.rbuf⟩, w') ∧
      PortTable w' (Function.update m f.tuple.swap
        (some {c with sec := f.sec, uSec := f.uSec})) := by
  obtain ⟨keys, ha⟩ := ht.arranged
  obtain ⟨w₁, hfind, ha₁⟩ := portVHashFindStruct_absent ha hnone none
  obtain ⟨w₂, hfind', ha₂⟩ := portVHashFindStruct_present ha₁ hc none
  obtain ⟨w₃, hwrite, ha₃⟩ := writeItem_run ha₂ hc
    (fun item => {item with sec := f.sec, uSec := f.uSec})
    {c with sec := f.sec, uSec := f.uSec} rfl rfl
  refine ⟨w₃, ?_, ha₃.toTable⟩
  rw [recv_accepted haccepted]
  simp [hfind, hfind', hwrite]

section Idle

variable {parsed : Parsed}

theorem recv_fault (ht : PortTable w m) (haccepted : f.Accepted ip)
    (hnone : m f.tuple = none) (hnone' : m f.tuple.swap = none) {fault : Fault}
    (hparsed : f.parsed = .error fault) : (f.recv ip).run w = .error fault := by
  obtain ⟨keys, ha⟩ := ht.arranged
  obtain ⟨w₁, hfind, ha₁⟩ := portVHashFindStruct_absent ha hnone none
  obtain ⟨w₂, hfind', ha₂⟩ := portVHashFindStruct_absent ha₁ hnone' none
  rw [recv_accepted haccepted]
  simp [hfind, hfind', hparsed]

theorem recv_unparsed (ht : PortTable w m) (haccepted : f.Accepted ip)
    (hnone : m f.tuple = none) (hnone' : m f.tuple.swap = none)
    (hparsed : f.parsed = .ok parsed) (hret : parsed.ret ≠ 0) :
    ∃ w', (f.recv ip).run w = .ok (⟨0, none, parsed.buf⟩, w') ∧ PortTable w' m := by
  obtain ⟨keys, ha⟩ := ht.arranged
  obtain ⟨w₁, hfind, ha₁⟩ := portVHashFindStruct_absent ha hnone none
  obtain ⟨w₂, hfind', ha₂⟩ := portVHashFindStruct_absent ha₁ hnone' none
  refine ⟨w₂, ?_, ha₂.toTable⟩
  rw [recv_accepted haccepted]
  simp [hfind, hfind', hparsed, hret]

theorem recv_unstored (ht : PortTable w m) (haccepted : f.Accepted ip)
    (hnone : m f.tuple = none) (hnone' : m f.tuple.swap = none)
    (hparsed : f.parsed = .ok parsed) (hret : parsed.ret = 0) (hwant : f.want = none) :
    ∃ w', (f.recv ip).run w = .ok (⟨1, none, parsed.buf⟩, w') ∧ PortTable w' m := by
  obtain ⟨keys, ha⟩ := ht.arranged
  obtain ⟨w₁, hfind, ha₁⟩ := portVHashFindStruct_absent ha hnone none
  obtain ⟨w₂, hfind', ha₂⟩ := portVHashFindStruct_absent ha₁ hnone' none
  obtain ⟨w₃, hadd, ha₃⟩ := portVHashAdd_failed ha₂ hnone' (some none)
  refine ⟨w₃, ?_, ha₃.toTable⟩
  rw [recv_accepted haccepted]
  simp [hfind, hfind', hparsed, hret, hwant, hadd]

/-- A parsed command makes an item under the swapped 4-tuple. -/
theorem recv_request (ht : PortTable w m) (haccepted : f.Accepted ip)
    (hnone : m f.tuple = none) (hnone' : m f.tuple.swap = none)
    (hparsed : f.parsed = .ok parsed) (hret : parsed.ret = 0) {want : Nat}
    (hwant : f.want = some want) :
    ∃ w' a, (f.recv ip).run w = .ok (⟨1, none, parsed.buf⟩, w') ∧ m.Fresh a ∧
      PortTable w' (Function.update m f.tuple.swap
        (some ⟨a, f.sec, f.uSec, strncpy parsed.pstRdsCmd.cmd⟩)) := by
  obtain ⟨keys, ha⟩ := ht.arranged
  obtain ⟨w₁, hfind, ha₁⟩ := portVHashFindStruct_absent ha hnone none
  obtain ⟨w₂, hfind', ha₂⟩ := portVHashFindStruct_absent ha₁ hnone' none
  obtain ⟨w₃, a, hadd, hfresh, ha₃⟩ := portVHashAdd_inserted ha₂ hnone' (some none) want
  obtain ⟨w₄, hwrite, ha₄⟩ := writeItem_run ha₃ (Function.update_self _ _ m)
    (fun item => {item with
      sec := f.sec
      uSec := f.uSec
      cmd := strncpy parsed.pstRdsCmd.cmd})
    ⟨a, f.sec, f.uSec, strncpy parsed.pstRdsCmd.cmd⟩ rfl rfl
  rw [Function.update_idem] at ha₄
  refine ⟨w₄, a, ?_, hfresh, ha₄.toTable⟩
  have hwrite' := hwrite
  unfold Cell.zeroed at hwrite'
  rw [recv_accepted haccepted]
  simp [hfind, hfind', hparsed, hret, hwant, hadd, hwrite']

end Idle

end Paths

end RedisTrace
