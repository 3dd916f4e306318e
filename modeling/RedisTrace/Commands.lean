import RedisTrace.Payload

/-!
Encoded commands and what `redis_cmd_parse` answers 0 to. It reads every
encoding back, but it also answers 0 to payloads that are none: `atoi` is
lenient about numbers, and the last scan has no check that it found anything.
-/

namespace RedisTrace

open Cut

/-- An array of `n` elements whose first is the bulk string `name`, and
whatever follows it. -/
def commandBytes (n : Nat) (name rest : List UInt8) : List UInt8 :=
  0x2a :: (decimal n ++ crlf ++ 0x24 :: (decimal name.length ++ crlf ++ (name ++ crlf ++ rest)))

section Encoding

variable {buf : Bytes} {p n : Nat} {len : Int32} {name rest : List UInt8}

/-- Parsing undoes the encoding: the name lands in front of what the command
field held before. -/
theorem redisCmdParse_commandBytes (hn : 1 ≤ n) (hn' : n < 2 ^ 31) (hname : name ≠ [])
    (hname' : name.length ≤ 31) (hcrlf : ¬ crlf <:+: name) (pstRdsCmd : RedisCmd)
    (hholds : Holds buf p (commandBytes n name rest))
    (hlen : len.toInt = (commandBytes n name rest).length) :
    ∃ parsed, redisCmdParse buf p len pstRdsCmd = .ok parsed ∧ parsed.ret = 0 ∧
      parsed.pstRdsCmd = ⟨namedCmd name pstRdsCmd.cmd, 1⟩ := by
  obtain ⟨buf', hparsed⟩ :=
    redisCmdParse_request hn hn' hname (by omega) hcrlf pstRdsCmd hholds hlen
  exact ⟨_, hparsed, rfl, rfl⟩

/-- A buffer that holds the given bytes at its start. -/
def bufferOf (bytes : List UInt8) : Bytes := fun i => bytes.getD i 0

theorem holds_bufferOf (bytes : List UInt8) : Holds (bufferOf bytes) 0 bytes := by
  intro i hi
  simp [bufferOf, hi]

/-- `GET`, with a key behind it. -/
theorem redisCmdParse_commandBytes_get :
    ∃ parsed, redisCmdParse
        (bufferOf (commandBytes 2 [0x47, 0x45, 0x54] (bulkString [0x6b]))) 0 20 0 =
          .ok parsed ∧ parsed.ret = 0 ∧
      parsed.pstRdsCmd = ⟨namedCmd [0x47, 0x45, 0x54] (0 : RedisCmd).cmd, 1⟩ :=
  redisCmdParse_commandBytes (by decide) (by decide) (by decide) (by decide) (by decide)
    0 (holds_bufferOf _) (by decide +kernel)

end Encoding

/-- The payload begins with a command, and `cmd` begins with its name. -/
def ReadsCommand (payload : List UInt8) (cmd : RedisCmd) : Prop :=
  ∃ n name rest, 1 ≤ n ∧ name ≠ [] ∧ payload = commandBytes n name rest ∧ cmd.cmdNum = 1 ∧
    ∀ i (h : i < name.length), cmd.cmd[i]? = some name[i]

/-- When the parser answers 0, it has read a command. -/
def SucceedsOnCommand (buf : Bytes) (p : Nat) (len : Int32) (pstRdsCmd : RedisCmd) : Prop :=
  ∃ parsed, redisCmdParse buf p len pstRdsCmd = .ok parsed ∧
    (parsed.ret = 0 → ReadsCommand (payloadAt buf p len) parsed.pstRdsCmd)

/-- Behind an opening comes a CR LF. If it comes where the second number says,
it is inside the payload, the name fits the command field, and both numbers are
written as plain decimals. -/
def PlainOpening (payload : List UInt8) (next : UInt8) : Prop :=
  ∀ o, opening payload = some o → ∃ name tail,
    cutLine (o.rest ++ [next]) = some (name, tail) ∧
    ((atoi o.size).toInt = name.length →
      tail ≠ [] ∧ name.length ≤ 32 ∧ (∃ n, o.count = decimal n) ∧
        o.size = decimal name.length)

section Success

variable {buf : Bytes} {p n : Nat} {len : Int32} {payload name rest : List UInt8}
variable {o : Opening} {pstRdsCmd : RedisCmd}

theorem opening_bytes (ho : opening payload = some o) :
    payload = 0x2a :: (o.count ++ crlf ++ 0x24 :: (o.size ++ crlf ++ o.rest)) := by
  obtain ⟨bytes, rfl, bytes', hcount, hsize⟩ := opening_eq_some_iff.mp ho
  rw [(cutLine_eq_some_iff.mp (cutNumber_eq_some_iff.mp hcount).1).1,
    (cutLine_eq_some_iff.mp (cutNumber_eq_some_iff.mp hsize).1).1]

theorem opening_nonzero (ho : opening payload = some o) :
    atoi o.count ≠ 0 ∧ atoi o.size ≠ 0 := by
  obtain ⟨bytes, rfl, bytes', hcount, hsize⟩ := opening_eq_some_iff.mp ho
  exact ⟨(cutNumber_eq_some_iff.mp hcount).2, (cutNumber_eq_some_iff.mp hsize).2⟩

theorem cutNumber_decimal {bytes bytes' line : List UInt8}
    (hcut : cutNumber (decimal n ++ crlf ++ bytes) = some (line, bytes')) :
    line = decimal n ∧ bytes' = bytes := by
  have hline := (cutNumber_eq_some_iff.mp hcut).1
  rw [cutLine_eq_some_iff.mpr ⟨rfl, decimal_no_crlf n⟩] at hline
  obtain ⟨rfl, rfl⟩ := Prod.mk.inj (Option.some.inj hline)
  exact ⟨rfl, rfl⟩

/-- An encoding has no opening but its own. -/
theorem opening_commandBytes (ho : opening (commandBytes n name rest) = some o) :
    o.count = decimal n ∧ o.size = decimal name.length ∧ o.rest = name ++ crlf ++ rest := by
  obtain ⟨bytes, heq, bytes', hcount, hsize⟩ := opening_eq_some_iff.mp ho
  obtain ⟨_, rfl⟩ := List.cons.inj heq
  obtain ⟨hcount', hbytes⟩ := cutNumber_decimal hcount
  obtain ⟨_, rfl⟩ := List.cons.inj hbytes
  obtain ⟨hsize', hrest⟩ := cutNumber_decimal hsize
  exact ⟨hcount', hsize', hrest⟩

theorem length_commandBytes_lt (n : Nat) (name rest : List UInt8) :
    name.length < (commandBytes n name rest).length := by
  simp only [commandBytes, List.length_cons, List.length_append]
  omega

theorem namedCmd_prefix (hname : name.length ≤ 32) (cmd : CmdChars) {i : Nat}
    (hi : i < name.length) : (namedCmd name cmd)[i]? = some name[i] := by
  have hfits : i < 32 := by omega
  simp [namedCmd, hfits, hi]

theorem succeedsOnCommand_of_plain (hpos : 0 < len.toInt)
    (hplain : PlainOpening (payloadAt buf p len) (byteBehind buf p len)) :
    SucceedsOnCommand buf p len pstRdsCmd := by
  have hholds := holds_payloadAt buf p len
  have hlen := length_payloadAt buf p hpos
  cases ho : opening (payloadAt buf p len) with
  | none =>
      obtain ⟨buf', hparsed⟩ :=
        redisCmdParse_rejected hholds hlen (payloadAt_ne_nil buf p hpos) ho pstRdsCmd
      exact ⟨_, hparsed, fun hret => absurd hret rejected_ne_zero⟩
  | some o =>
      obtain ⟨hparse, hname⟩ := redisCmdParse_opened hholds hlen ho pstRdsCmd
      obtain ⟨name, tail, hcut, hplain⟩ := hplain o ho
      have hfound := parseName_found hname hcut (atoi o.size) pstRdsCmd
      rcases eq_or_ne (atoi o.size).toInt name.length with hsize | hsize
      · obtain ⟨htail, hfits, ⟨n, hcount⟩, hdecimal⟩ := hplain hsize
        rw [if_neg (not_not.mpr hsize), if_neg (by omega)] at hfound
        refine ⟨_, hparse.trans hfound, fun _ => ⟨n, name, tail.dropLast, ?_, ?_, ?_, rfl, ?_⟩⟩
        · rw [Nat.one_le_iff_ne_zero]
          rintro rfl
          exact (opening_nonzero ho).1 (by rw [hcount]; decide)
        · rintro rfl
          apply (opening_nonzero ho).2
          rw [hdecimal]
          decide
        · rcases cut_concat (by decide) hcut with ⟨hnil, _⟩ | ⟨tail', rfl, hcut'⟩
          · exact absurd hnil htail
          · have hrest := (cutLine_eq_some_iff.mp hcut').1
            rw [opening_bytes ho, hcount, hdecimal, hrest, List.dropLast_concat]
            rfl
        · exact fun i hi => namedCmd_prefix hfits pstRdsCmd.cmd hi
      · rw [if_pos hsize] at hfound
        exact ⟨_, hparse.trans hfound, fun hret => absurd hret rejected_ne_zero⟩

theorem plain_of_succeedsOnCommand (hpos : 0 < len.toInt)
    (hsucceeds : SucceedsOnCommand buf p len pstRdsCmd) :
    PlainOpening (payloadAt buf p len) (byteBehind buf p len) := by
  intro o ho
  have hholds := holds_payloadAt buf p len
  have hlen := length_payloadAt buf p hpos
  obtain ⟨hparse, hname⟩ := redisCmdParse_opened hholds hlen ho pstRdsCmd
  obtain ⟨parsed, hparsed, hreads⟩ := hsucceeds
  rw [hparse] at hparsed
  cases hcut : cutLine (o.rest ++ [byteBehind buf p len]) with
  | none =>
      rw [parseName_missing hname hcut (atoi o.size) pstRdsCmd] at hparsed
      obtain rfl := Except.ok.inj hparsed
      obtain ⟨n, name, rest, _, _, hpayload, _⟩ := hreads rfl
      rw [hpayload] at ho
      have hrest := (opening_commandBytes ho).2.2
      apply absurd _ (cut_eq_none_iff.mp hcut)
      rw [hrest]
      exact ⟨name, rest ++ [byteBehind buf p len], by simp [crlf]⟩
  | some found =>
      obtain ⟨name, tail⟩ := found
      refine ⟨name, tail, rfl, ?_⟩
      intro hsize
      have hfound := parseName_found hname hcut (atoi o.size) pstRdsCmd
      rw [if_neg (not_not.mpr hsize), hparsed] at hfound
      split at hfound
      · cases hfound
      · next hfits =>
          obtain rfl := Except.ok.inj hfound
          obtain ⟨n, name', rest, _, _, hpayload, _⟩ := hreads rfl
          have hshort := length_commandBytes_lt n name' rest
          have hmax := len.toInt_lt
          rw [hpayload] at ho hlen
          obtain ⟨hcount, hdecimal, hrest⟩ := opening_commandBytes ho
          rw [hdecimal, atoi_decimal (by omega)] at hsize
          have hlengths : name'.length = name.length := by omega
          have hbytes : name' ++ (crlf ++ rest ++ [byteBehind buf p len]) =
              name ++ (crlf ++ tail) := by
            rw [← List.append_assoc, ← List.append_assoc, ← List.append_assoc, ← hrest]
            exact (cutLine_eq_some_iff.mp hcut).1
          obtain ⟨_, htails⟩ := List.append_inj hbytes hlengths
          rw [List.append_assoc] at htails
          refine ⟨?_, by omega, ⟨n, hcount⟩, by rw [hdecimal, hlengths]⟩
          rw [← List.append_cancel_left htails]
          simp

/-- For every payload: an answer of 0 means a command has been read exactly
when the opening, if there is one, is plain. -/
theorem succeedsOnCommand_iff (hpos : 0 < len.toInt) :
    SucceedsOnCommand buf p len pstRdsCmd ↔
      PlainOpening (payloadAt buf p len) (byteBehind buf p len) :=
  ⟨plain_of_succeedsOnCommand hpos, succeedsOnCommand_of_plain hpos⟩

/-- A PING that is cut short within its name. -/
def truncatedPing : List UInt8 := [0x2a, 0x31, 0x0d, 0x0a, 0x24, 0x34, 0x0d, 0x0a, 0x50, 0x49]

theorem succeedsOnCommand_iff_ping :
    0 < (14 : Int32).toInt ∧
      (SucceedsOnCommand (bufferOf (commandBytes 1 [0x50, 0x49, 0x4e, 0x47] [])) 0 14 0 ↔
        PlainOpening (payloadAt (bufferOf (commandBytes 1 [0x50, 0x49, 0x4e, 0x47] [])) 0 14)
          (byteBehind (bufferOf (commandBytes 1 [0x50, 0x49, 0x4e, 0x47] [])) 0 14)) :=
  ⟨by decide, succeedsOnCommand_iff (by decide)⟩

/-- The answer is 0 although no name has been read. -/
theorem succeedsOnCommand_truncated :
    (∃ parsed, redisCmdParse (bufferOf truncatedPing) 0 10 0 = .ok parsed ∧ parsed.ret = 0) ∧
      ¬ SucceedsOnCommand (bufferOf truncatedPing) 0 10 0 := by
  let o : Opening := ⟨[0x31], [0x34], [0x50, 0x49]⟩
  have hholds := holds_payloadAt (bufferOf truncatedPing) 0 10
  have hlen := length_payloadAt (bufferOf truncatedPing) 0 (by decide : 0 < (10 : Int32).toInt)
  have ho : opening (payloadAt (bufferOf truncatedPing) 0 10) = some o := by decide +kernel
  obtain ⟨hparse, hname⟩ := redisCmdParse_opened hholds hlen ho 0
  have hmissing := parseName_missing hname (by decide +kernel) (atoi o.size) 0
  have hparsed := hparse.trans hmissing
  refine ⟨⟨_, hparsed, rfl⟩, ?_⟩
  rintro ⟨parsed, hparsed', hreads⟩
  rw [hparsed] at hparsed'
  obtain rfl := Except.ok.inj hparsed'
  obtain ⟨n, name, rest, _, _, _, hone, _⟩ := hreads rfl
  cases hone

end Success

end RedisTrace
