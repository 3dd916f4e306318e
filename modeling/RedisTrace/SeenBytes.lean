import RedisTrace.Reparse
import RedisTrace.Tracker

/-!
Which bytes of a frame the tracer looks at: the version, the protocol, the
header length, the addresses and ports, and the payload with the one byte
behind it. Of all others, checksums, sequence numbers, flags, fragment offsets
and the length in the IP header among them, nothing it does depends.
-/

namespace RedisTrace

open CircularList Run

/-- The buffers hold the same bytes from `p` to `q`. -/
def AgreeOn (buf buf' : Bytes) (p q : Nat) : Prop := ∀ i, p ≤ i → i ≤ q → buf i = buf' i

section Parse

variable {buf buf' : Bytes} {p q : Nat}

theorem AgreeOn.mono (hagree : AgreeOn buf buf' p q) {p' q' : Nat} (hp : p ≤ p') (hq : q' ≤ q) :
    AgreeOn buf buf' p' q' :=
  fun i hpi hiq => hagree i (hp.trans hpi) (hiq.trans hq)

theorem AgreeOn.update (hagree : AgreeOn buf buf' p q) (i : Nat) (b : UInt8) :
    AgreeOn (Function.update buf i b) (Function.update buf' i b) p q := by
  intro j hpj hjq
  rcases eq_or_ne j i with rfl | hne
  · rw [Function.update_self, Function.update_self]
  · rw [Function.update_of_ne hne, Function.update_of_ne hne]
    exact hagree j hpj hjq

/-- A scan looks one byte behind the last place where it may stop. -/
theorem findCrlfFrom_congr {p1 n i : Nat} (hagree : AgreeOn buf buf' (p1 + i) (p1 + i + n)) :
    findCrlfFrom buf p1 n i = findCrlfFrom buf' p1 n i := by
  induction n generalizing i with
  | zero => rfl
  | succ n ih =>
      have hhere := hagree (p1 + i) le_rfl (by omega)
      have hnext := hagree (p1 + i + 1) (by omega) (by omega)
      rw [findCrlfFrom, findCrlfFrom, hhere, hnext, ih (hagree.mono (by omega) (by omega))]

theorem findCrlf_congr {p1 : Nat} {len : Int} (hagree : AgreeOn buf buf' p1 (p1 + len.toNat)) :
    findCrlf buf p1 len = findCrlf buf' p1 len :=
  findCrlfFrom_congr hagree

theorem findCrlf_le (buf : Bytes) (p1 : Nat) (len : Int) : findCrlf buf p1 len ≤ len.toNat := by
  rcases findCrlf_stop buf p1 len with hend | ⟨hinside, _⟩
  · exact hend.le
  · exact hinside.le

/-- What `redis_cmd_parse` answers, without the buffer. -/
def Parsed.outcome (parsed : Parsed) : Int32 × RedisCmd × Nat :=
  (parsed.ret, parsed.pstRdsCmd, parsed.copied)

theorem parseName_congr {p1 : Nat} {len : Int} (hagree : AgreeOn buf buf' p1 (p1 + len.toNat))
    (cmdLen : Int32) (cmd : RedisCmd) :
    (parseName buf p1 len cmdLen cmd).map Parsed.outcome =
      (parseName buf' p1 len cmdLen cmd).map Parsed.outcome := by
  have hi := findCrlf_congr hagree
  have hle := findCrlf_le buf' p1 len
  dsimp only [parseName]
  rw [hi]
  have hcopy : ∀ cmd : CmdChars,
      copyCmd buf p1 (findCrlf buf' p1 len) cmd = copyCmd buf' p1 (findCrlf buf' p1 len) cmd := by
    intro cmd
    ext i hlt
    simp only [copyCmd, Vector.getElem_ofFn]
    split
    · next hlen => rw [hagree _ (by omega) (by omega)]
    · rfl
  rw [hcopy]
  split
  · split
    · rfl
    · split <;> rfl
  · rfl

/-- Both numbers are read in the same way. -/
theorem endNumber_congr {p1 : Nat} {len : Int} (hagree : AgreeOn buf buf' p1 (p1 + len.toNat)) :
    findCrlf buf p1 len = findCrlf buf' p1 len ∧
      cString (Function.update buf (p1 + findCrlf buf' p1 len) 0) p1 (findCrlf buf' p1 len) =
        cString (Function.update buf' (p1 + findCrlf buf' p1 len) 0) p1
          (findCrlf buf' p1 len) := by
  have hle := findCrlf_le buf' p1 len
  refine ⟨findCrlf_congr hagree, cString_congr ?_⟩
  intro j hj
  exact hagree.update _ 0 (p1 + j) (by omega) (by omega)

theorem parseBulk_congr {p1 : Nat} {len : Int} (hpos : 0 ≤ len)
    (hagree : AgreeOn buf buf' p1 (p1 + len.toNat)) (cmd : RedisCmd) :
    (parseBulk buf p1 len cmd).map Parsed.outcome =
      (parseBulk buf' p1 len cmd).map Parsed.outcome := by
  have hfirst := hagree p1 le_rfl (by omega)
  dsimp only [parseBulk]
  rw [hfirst]
  split
  · rfl
  · rcases eq_or_lt_of_le hpos with rfl | hpos
    · -- no byte is left behind the `$`, and nothing is scanned
      rfl
    · obtain ⟨hi, hline⟩ := endNumber_congr (hagree.mono (by omega) (by omega) :
        AgreeOn buf buf' (p1 + 1) (p1 + 1 + (len - 1).toNat))
      rw [hi, hline]
      split
      · rfl
      · next hfits =>
          apply parseName_congr
          apply (hagree.update _ 0).mono
          · omega
          · omega

/-- Bytes that agree as far as one behind the payload are parsed alike. -/
theorem redisCmdParse_congr {len : Int32} (hpos : 0 < len.toInt)
    (hagree : AgreeOn buf buf' p (p + len.toInt.toNat)) (cmd : RedisCmd) :
    (redisCmdParse buf p len cmd).map Parsed.outcome =
      (redisCmdParse buf' p len cmd).map Parsed.outcome := by
  have hfirst := hagree p le_rfl (by omega)
  dsimp only [redisCmdParse]
  rw [hfirst]
  split
  · rfl
  · obtain ⟨hi, hline⟩ := endNumber_congr (hagree.mono (by omega) (by omega) :
      AgreeOn buf buf' (p + 1) (p + 1 + (len.toInt - 1).toNat))
    rw [hi, hline]
    split
    · rfl
    · next hfits =>
        apply parseBulk_congr
        · omega
        · apply (hagree.update _ 0).mono
          · omega
          · omega

end Parse

/-- The frames are the same as far as the tracer looks. -/
structure Frame.SeenAs (f g : Frame) : Prop where
  len : f.len = g.len
  sec : f.sec = g.sec
  uSec : f.uSec = g.uSec
  want : f.want = g.want
  version : ipV f.rbuf = ipV g.rbuf
  protocol : ipP f.rbuf = ipP g.rbuf
  headerLength : thLen f.rbuf = thLen g.rbuf
  endpoints : AgreeOn f.rbuf g.rbuf 26 37
  payload : AgreeOn f.rbuf g.rbuf (payloadOffset f.rbuf) f.len.toInt.toNat

section Recv

variable {f g : Frame} {ip : UInt32}

theorem load16_congr {buf buf' : Bytes} {p : Nat} (hagree : AgreeOn buf buf' p (p + 1)) :
    load16 buf p = load16 buf' p := by
  rw [load16, load16, hagree p le_rfl (by omega), hagree (p + 1) (by omega) le_rfl]

theorem load32_congr {buf buf' : Bytes} {p : Nat} (hagree : AgreeOn buf buf' p (p + 3)) :
    load32 buf p = load32 buf' p := by
  rw [load32, load32, hagree p le_rfl (by omega), hagree (p + 1) (by omega) (by omega),
    hagree (p + 2) (by omega) (by omega), hagree (p + 3) (by omega) le_rfl]

/-- The decoder looks at the headers only. -/
theorem decoded_congr (hlen : f.len = g.len) (hversion : ipV f.rbuf = ipV g.rbuf)
    (hprotocol : ipP f.rbuf = ipP g.rbuf) (hheader : thLen f.rbuf = thLen g.rbuf)
    (hends : AgreeOn f.rbuf g.rbuf 26 37) : f.decoded = g.decoded := by
  have hoffset : payloadOffset f.rbuf = payloadOffset g.rbuf := by
    rw [payloadOffset, payloadOffset, hheader]
  unfold Frame.decoded pparseGetDataptr
  rw [hversion, hprotocol, hlen, hoffset,
    load32_congr (hends.mono (by omega : 26 ≤ 26) (by omega : 29 ≤ 37)),
    load32_congr (hends.mono (by omega : 26 ≤ 30) (by omega : 33 ≤ 37)),
    load16_congr (hends.mono (by omega : 26 ≤ 34) (by omega : 35 ≤ 37)),
    load16_congr (hends.mono (by omega : 26 ≤ 36) (by omega : 37 ≤ 37))]

theorem Frame.SeenAs.decoded (hseen : f.SeenAs g) : f.decoded = g.decoded :=
  decoded_congr hseen.len hseen.version hseen.protocol hseen.headerLength hseen.endpoints

theorem Frame.SeenAs.parsed (hseen : f.SeenAs g) (hok : f.decoded.1 = 1) :
    f.parsed.map Parsed.outcome = g.parsed.map Parsed.outcome := by
  have hlen := toInt_uidatalen hok
  have hdata : f.decoded.2.dataptr = payloadOffset f.rbuf := by rw [decoded_desc hok]
  have hpos := (decoded_ok_iff.mp hok).2.2
  unfold Frame.parsed
  rw [← hseen.decoded]
  apply redisCmdParse_congr
  · omega
  · rw [hdata]
    exact hseen.payload.mono le_rfl (by omega)

/-- Programs that go on alike from the same beginning report alike. -/
theorem report_bind {α : Type} {x : PortW α} {k k' : α → PortW Received}
    (hsame : ∀ a, Received.report <$> k a = Received.report <$> k' a) :
    Received.report <$> (x >>= k) = Received.report <$> (x >>= k') := by
  rw [map_bind, map_bind]
  exact bind_congr hsame

/-- A parse that comes to the same outcome serves as well. -/
theorem report_parsed {x y : Except Fault Parsed}
    (hsame : x.map Parsed.outcome = y.map Parsed.outcome) {k k' : Parsed → PortW Received}
    (hnext : ∀ parsed parsed', parsed.outcome = parsed'.outcome →
      Received.report <$> k parsed = Received.report <$> k' parsed') :
    Received.report <$> ((x : PortW Parsed) >>= k) =
      Received.report <$> ((y : PortW Parsed) >>= k') := by
  cases x with
  | error e =>
      cases y with
      | error e' =>
          cases hsame
          rfl
      | ok parsed' => cases hsame
  | ok parsed =>
      cases y with
      | error e' => cases hsame
      | ok parsed' => exact hnext parsed parsed' (Except.ok.inj hsame)

/-- `pkt_recv` does the same with them. -/
theorem Frame.SeenAs.recvFrame (hseen : f.SeenAs g) : recvFrame ip f = recvFrame ip g := by
  have hparsed := hseen.parsed
  have hdecoded := hseen.decoded
  unfold RedisTrace.recvFrame Frame.recv
  rw [← map_eq_pure_bind, ← map_eq_pure_bind]
  unfold pktRecv
  unfold Frame.decoded at hparsed hdecoded
  unfold Frame.parsed Frame.decoded at hparsed
  rw [← hdecoded] at hparsed ⊢
  rw [hseen.sec, hseen.uSec, hseen.want]
  dsimp only
  split
  · rfl
  · next hok =>
      split
      · rfl
      · apply report_bind
        rintro ⟨_, found⟩
        dsimp only
        cases found.join with
        | some a => exact report_bind (fun _ => report_bind (fun _ => rfl))
        | none =>
            apply report_bind
            rintro ⟨_, found⟩
            dsimp only
            cases found.join with
            | some a => exact report_bind (fun _ => rfl)
            | none =>
                apply report_parsed (hparsed (Decidable.not_not.mp hok))
                intro parsed parsed' houtcome
                obtain ⟨hret, hcmd, -⟩ : parsed.ret = parsed'.ret ∧
                    parsed.pstRdsCmd = parsed'.pstRdsCmd ∧ parsed.copied = parsed'.copied := by
                  simpa [Parsed.outcome] using houtcome
                rw [hret, hcmd]
                split
                · rfl
                · apply report_bind
                  rintro ⟨_, found⟩
                  dsimp only
                  cases found.join with
                  | some a => exact report_bind (fun _ => rfl)
                  | none => rfl

/-- Traces whose frames are the same as far as the tracer looks are the same to
it: they run alike from every table, to the same reports, the same table or the
same fault. -/
theorem pktTrace_seenAs {frames frames' : List Frame}
    (hseen : List.Forall₂ Frame.SeenAs frames frames') :
    pktTrace ip frames = pktTrace ip frames' := by
  have hloop : frames.mapM (RedisTrace.recvFrame ip) = frames'.mapM (RedisTrace.recvFrame ip) := by
    induction hseen with
    | nil => rfl
    | cons hfirst _ ih => rw [List.mapM_cons, List.mapM_cons, hfirst.recvFrame, ih]
  rw [pktTrace, pktTrace, hloop]

/-- A PING with another TCP checksum. -/
theorem pktTrace_seenAs_checksum :
    pktTrace sampleServer.ip [sampleRequest, sampleReply] = pktTrace sampleServer.ip
      [{sampleRequest with rbuf := Function.update sampleRequest.rbuf 50 0xff}, sampleReply] := by
  have hother : ∀ p q, 50 < p ∨ q < 50 →
      AgreeOn sampleRequest.rbuf (Function.update sampleRequest.rbuf 50 0xff) p q := by
    intro p q hout i hpi hiq
    exact (Function.update_of_ne (by omega) _ _).symm
  have hoffset : payloadOffset sampleRequest.rbuf = 54 := by decide
  apply pktTrace_seenAs
  refine .cons ⟨rfl, rfl, rfl, rfl, rfl, rfl, rfl, hother 26 37 (by omega), ?_⟩
    (.cons ⟨rfl, rfl, rfl, rfl, rfl, rfl, rfl, fun _ _ _ => rfl, fun _ _ _ => rfl⟩ .nil)
  rw [hoffset]
  exact hother 54 _ (by omega)

end Recv

end RedisTrace
