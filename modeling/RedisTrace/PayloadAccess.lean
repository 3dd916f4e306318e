import RedisTrace.Library.Access
import RedisTrace.Reparse

/-!
The bytes that `redis_cmd_parse` reads and writes. The function is written out
load by load and store by store, and shown to be the one modelled before; then
every part is asked whether it stays inside the payload.
-/

namespace RedisTrace

open Access Cut

abbrev ByteM := Prog Nat UInt8 Fault

/-- How much of its text `atoi` takes for blanks, a sign and digits. -/
def numberLength (nptr : List UInt8) : Nat :=
  let blanks := (nptr.takeWhile isSpace).length
  match nptr.dropWhile isSpace with
  | 0x2d :: rest => blanks + 1 + (rest.takeWhile isDigit).length
  | 0x2b :: rest => blanks + 1 + (rest.takeWhile isDigit).length
  | rest => blanks + (rest.takeWhile isDigit).length

/-- `atoi((char *)p1)` where a NUL stands at `p1 + i` at the latest. It reads up
to the byte that ends the number. -/
def loadAtoi (p1 i : Nat) : ByteM Int32 :=
  compute (fun buf => atoi (cString buf p1 i))
    (fun buf => (List.range (numberLength (cString buf p1 i) + 1)).map (p1 + ·))

/-- The loops that look for a CR LF. They look for the LF only behind a CR. -/
def scanCrlf (p1 : Nat) : Nat → Nat → ByteM Nat
  | 0, i => return i
  | n + 1, i => do
      if (← load (p1 + i)) = 0x0d then
        if (← load (p1 + i + 1)) = 0x0a then
          return i
        else
          scanCrlf p1 n (i + 1)
      else
        scanCrlf p1 n (i + 1)

/-- One number, as it is read in two places: the loop, the NUL and `atoi`. -/
def endNumber (p1 : Nat) (len : Int) : ByteM (Nat × Int32) := do
  let i ← scanCrlf p1 len.toNat 0
  store (p1 + i) 0
  let number ← loadAtoi p1 i
  return (i, number)

/-- The return value, the command and how many bytes were copied into it. -/
structure ParseResult where
  ret : Int32
  pstRdsCmd : RedisCmd
  copied : Nat

def parseNameBytes (p1 : Nat) (len : Int) (cmdLen : Int32) (pstRdsCmd : RedisCmd) :
    ByteM ParseResult := do
  let i ← scanCrlf p1 len.toNat 0
  if i < len then
    if cmdLen.toInt ≠ i then
      return ⟨-1, pstRdsCmd, 0⟩
    else
      let cmd ← compute (fun buf => copyCmd buf p1 i pstRdsCmd.cmd)
        (fun _ => (List.range i).map (p1 + ·))
      if 32 < i then
        fail .overflow
      else
        return ⟨0, ⟨cmd, 1⟩, i⟩
  else
    return ⟨0, pstRdsCmd, 0⟩

def parseBulkBytes (p1 : Nat) (len : Int) (pstRdsCmd : RedisCmd) : ByteM ParseResult := do
  if (← load p1) ≠ 0x24 then
    return ⟨-1, pstRdsCmd, 0⟩
  else
    let p1 := p1 + 1
    let len := len - 1
    let (i, cmdLen) ← endNumber p1 len
    if len < i + 2 ∨ cmdLen = 0 then
      return ⟨-1, pstRdsCmd, 0⟩
    else
      parseNameBytes (p1 + i + 2) (len - i - 2) cmdLen pstRdsCmd

def redisCmdParseBytes (pdata : Nat) (len : Int32) (pstRdsCmd : RedisCmd) :
    ByteM ParseResult := do
  if (← load pdata) ≠ 0x2a then
    return ⟨-1, pstRdsCmd, 0⟩
  else
    let p1 := pdata + 1
    let len := len.toInt - 1
    let (i, rParaNum) ← endNumber p1 len
    if len < i + 2 ∨ rParaNum.toUInt32 = 0 then
      return ⟨-1, pstRdsCmd, 0⟩
    else
      parseBulkBytes (p1 + i + 2) (len - i - 2) pstRdsCmd

/-- The outcome without the record of addresses. -/
def parsedOf (outcome : Outcome Nat UInt8 Fault ParseResult) : Except Fault Parsed :=
  outcome.result.map (fun r => ⟨r.ret, outcome.memory, r.pstRdsCmd, r.copied⟩)

section SameFunction

variable {buf : Bytes} {p1 n i : Nat} {len : Int}

/-- What the loops touch. -/
def scanned (buf : Bytes) (p1 : Nat) : Nat → Nat → List Nat
  | 0, _ => []
  | n + 1, i =>
      if buf (p1 + i) = 0x0d then
        if buf (p1 + i + 1) = 0x0a then [p1 + i, p1 + i + 1]
        else (p1 + i) :: (p1 + i + 1) :: scanned buf p1 n (i + 1)
      else (p1 + i) :: scanned buf p1 n (i + 1)

theorem scanCrlf_run (buf : Bytes) (p1 n i : Nat) :
    (scanCrlf p1 n i).run buf = ⟨.ok (findCrlfFrom buf p1 n i), buf, scanned buf p1 n i⟩ := by
  induction n generalizing i with
  | zero => rfl
  | succ n ih =>
      rw [scanCrlf, findCrlfFrom, scanned, run_bind run_load]
      by_cases hcr : buf (p1 + i) = 0x0d
      · rw [if_pos hcr, if_pos hcr, run_bind run_load]
        by_cases hlf : buf (p1 + i + 1) = 0x0a
        · rw [if_pos hlf, if_pos hlf, if_pos ⟨hcr, hlf⟩]
          rfl
        · rw [if_neg hlf, if_neg hlf, if_neg (fun hat => hlf hat.2), ih]
          rfl
      · rw [if_neg hcr, if_neg hcr, if_neg (fun hat => hcr hat.1), ih]
        rfl

/-- What reading a number touches. -/
def lineTouched (buf : Bytes) (p1 : Nat) (len : Int) : List Nat :=
  let i := findCrlf buf p1 len
  scanned buf p1 len.toNat 0 ++ [p1 + i] ++
    (List.range (numberLength (cString (endLine buf p1 len) p1 i) + 1)).map (p1 + ·)

theorem endNumber_run (buf : Bytes) (p1 : Nat) (len : Int) :
    (endNumber p1 len).run buf =
      ⟨.ok (findCrlf buf p1 len,
          atoi (cString (endLine buf p1 len) p1 (findCrlf buf p1 len))),
        endLine buf p1 len, lineTouched buf p1 len⟩ := by
  have hscan : (scanCrlf p1 len.toNat 0).run buf =
      ⟨.ok (findCrlf buf p1 len), buf, scanned buf p1 len.toNat 0⟩ :=
    scanCrlf_run buf p1 len.toNat 0
  rw [endNumber, run_bind hscan, run_bind run_store, loadAtoi, run_bind run_compute, run_pure]
  simp only [lineTouched, List.append_assoc, List.append_nil]
  rfl

theorem parsedOf_bind {α : Type} {x : ByteM α} {f : α → ByteM ParseResult} {a : α}
    {buf' : Bytes} {touched : List Nat} (hx : x.run buf = ⟨.ok a, buf', touched⟩) :
    parsedOf ((x >>= f).run buf) = parsedOf ((f a).run buf') := by
  rw [run_bind hx]
  rfl

theorem parsedOf_parseNameBytes (buf : Bytes) (p1 : Nat) (len : Int) (cmdLen : Int32)
    (cmd : RedisCmd) :
    parsedOf ((parseNameBytes p1 len cmdLen cmd).run buf) = parseName buf p1 len cmdLen cmd := by
  have hscan : (scanCrlf p1 len.toNat 0).run buf =
      ⟨.ok (findCrlf buf p1 len), buf, scanned buf p1 len.toNat 0⟩ :=
    scanCrlf_run buf p1 len.toNat 0
  rw [parseNameBytes, parsedOf_bind hscan]
  dsimp only [parseName]
  by_cases hfound : (findCrlf buf p1 len : Int) < len
  · rw [if_pos hfound, if_pos hfound]
    by_cases hsize : cmdLen.toInt ≠ findCrlf buf p1 len
    · rw [if_pos hsize, if_pos hsize]
      rfl
    · rw [if_neg hsize, if_neg hsize, parsedOf_bind run_compute]
      by_cases hlong : 32 < findCrlf buf p1 len
      · rw [if_pos hlong, if_pos hlong]
        rfl
      · rw [if_neg hlong, if_neg hlong]
        rfl
  · rw [if_neg hfound, if_neg hfound]
    rfl

theorem parsedOf_parseBulkBytes (buf : Bytes) (p1 : Nat) (len : Int) (cmd : RedisCmd) :
    parsedOf ((parseBulkBytes p1 len cmd).run buf) = parseBulk buf p1 len cmd := by
  rw [parseBulkBytes, parsedOf_bind run_load, parseBulk]
  by_cases hother : buf p1 ≠ 0x24
  · rw [if_pos hother, if_pos hother]
    rfl
  · rw [if_neg hother, if_neg hother, parsedOf_bind (endNumber_run buf (p1 + 1) (len - 1))]
    dsimp only
    by_cases hrejected : LineRejected buf (p1 + 1) (len - 1)
    all_goals unfold LineRejected at hrejected
    · rw [if_pos hrejected]
      exact (if_pos hrejected).symm
    · rw [if_neg hrejected]
      exact (parsedOf_parseNameBytes _ _ _ _ _).trans (if_neg hrejected).symm

/-- Without the record of addresses, it is the parser as modelled before. -/
theorem parsedOf_redisCmdParseBytes (buf : Bytes) (p : Nat) (len : Int32) (cmd : RedisCmd) :
    parsedOf ((redisCmdParseBytes p len cmd).run buf) = redisCmdParse buf p len cmd := by
  rw [redisCmdParseBytes, parsedOf_bind run_load, redisCmdParse]
  by_cases hother : buf p ≠ 0x2a
  · rw [if_pos hother, if_pos hother]
    rfl
  · rw [if_neg hother, if_neg hother,
      parsedOf_bind (endNumber_run buf (p + 1) (len.toInt - 1))]
    simp only [toUInt32_eq_zero_iff]
    by_cases hrejected : LineRejected buf (p + 1) (len.toInt - 1)
    all_goals unfold LineRejected at hrejected
    · rw [if_pos hrejected]
      exact (if_pos hrejected).symm
    · rw [if_neg hrejected]
      exact (parsedOf_parseBulkBytes _ _ _ _).trans (if_neg hrejected).symm

end SameFunction

/-- The payload lasts as long as the parser reads on: each line it looks for
ends inside, a line follows a number, and the name ends inside or does not end
in a CR. -/
def LastsLongEnough (payload : List UInt8) : Prop :=
  ∀ bytes, payload = 0x2a :: bytes → ∃ count rest, cutLine bytes = some (count, rest) ∧
    (atoi count ≠ 0 → rest ≠ [] ∧ ∀ bytes', rest = 0x24 :: bytes' →
      ∃ size rest', cutLine bytes' = some (size, rest') ∧
        (atoi size ≠ 0 → crlf <:+: rest' ∨ rest'.getLast? ≠ some 0x0d))

/-- Every byte that the parser reads or writes belongs to the payload. -/
def StaysInPayload (buf : Bytes) (p : Nat) (len : Int32) (pstRdsCmd : RedisCmd) : Prop :=
  Stays (fun i => p ≤ i ∧ i < p + len.toInt.toNat) (redisCmdParseBytes p len pstRdsCmd) buf

section Bounds

variable {buf : Bytes} {p start stop : Nat} {bytes line rest : List UInt8} {next : UInt8}

theorem crlf_infix_cons {b : UInt8} :
    crlf <:+: b :: bytes ↔ (b = 0x0d ∧ bytes.head? = some 0x0a) ∨ crlf <:+: bytes := by
  rw [List.infix_cons_iff]
  exact or_congr_left pair_prefix_iff

/-- A scan that comes to the last byte without a CR LF looks at the next byte
if the last one is a CR. -/
theorem scanned_inside_iff {i : Nat} (hholds : Holds buf (p + i) (bytes ++ [next]))
    (hstart : start ≤ p + i) (hstop : stop = p + i + bytes.length) :
    (∀ q ∈ scanned buf p bytes.length i, start ≤ q ∧ q < stop) ↔
      crlf <:+: bytes ∨ bytes.getLast? ≠ some 0x0d := by
  induction bytes generalizing i with
  | nil => simp [scanned]
  | cons b bytes ih =>
      obtain ⟨hb, hrest⟩ := holds_cons.mp hholds
      rw [List.length_cons] at hstop
      have hhere : start ≤ p + i ∧ p + i < stop := by omega
      have ih' := ih (i := i + 1) hrest (by omega) (by omega)
      rw [List.length_cons, scanned, hb, crlf_infix_cons]
      cases bytes with
      | nil =>
          have hbehind : ¬ p + i + 1 < stop := by
            rw [List.length_nil] at hstop
            omega
          by_cases hcr : b = 0x0d
          · have hmem : p + i + 1 ∈ scanned buf p 1 i := by
              rw [scanned, hb, if_pos hcr]
              split <;> simp
            rw [scanned, hb] at hmem
            refine iff_of_false (fun hall => hbehind (hall _ hmem).2) ?_
            simp [hcr, crlf]
          · simp [hcr, hhere, scanned]
      | cons c bytes =>
          have hinside : start ≤ p + i + 1 ∧ p + i + 1 < stop := by
            rw [List.length_cons] at hstop
            omega
          obtain ⟨hc, _⟩ := holds_cons.mp hrest
          rw [List.getLast?_cons_cons, List.head?_cons, hc]
          by_cases hcr : b = 0x0d
          · by_cases hlf : c = 0x0a
            · simp [hcr, hlf, hhere, hinside]
            · simpa [hcr, hlf, hhere, hinside] using ih'
          · simpa [hcr, hhere] using ih'

theorem length_cString_le (buf : Bytes) (p n : Nat) : (cString buf p n).length ≤ n := by
  induction n generalizing p with
  | zero => exact Nat.le_refl 0
  | succ n ih =>
      rw [cString]
      split
      · exact Nat.zero_le _
      · exact Nat.succ_le_succ (ih (p + 1))

theorem numberLength_le (nptr : List UInt8) : numberLength nptr ≤ nptr.length := by
  have hparts := congrArg List.length (List.takeWhile_append_dropWhile (p := isSpace) (l := nptr))
  rw [List.length_append] at hparts
  have hdigits := fun rest : List UInt8 => (List.takeWhile_prefix isDigit (l := rest)).length_le
  dsimp only [numberLength]
  split
  · next rest heq =>
      rw [heq, List.length_cons] at hparts
      have hrest := hdigits rest
      omega
  · next rest heq =>
      rw [heq, List.length_cons] at hparts
      have hrest := hdigits rest
      omega
  · have hrest := hdigits (nptr.dropWhile isSpace)
    omega

/-- Reading a number stays inside exactly when its line ends inside. -/
theorem lineTouched_inside_iff (hholds : Holds buf p (bytes ++ [next])) (hstart : start ≤ p)
    (hstop : stop = p + bytes.length) :
    (∀ q ∈ lineTouched buf p bytes.length, start ≤ q ∧ q < stop) ↔
      ∃ line rest, cutLine bytes = some (line, rest) := by
  have hscanned := scanned_inside_iff (i := 0) hholds hstart hstop
  simp only [lineTouched, Int.toNat_natCast, List.forall_mem_append, List.forall_mem_singleton,
    hscanned]
  constructor
  · rintro ⟨⟨hscan, _, hstore⟩, _⟩
    cases hcut : cutLine bytes with
    | some found => exact ⟨found.1, found.2, rfl⟩
    | none =>
        have hnone : ¬ crlf <:+: bytes := cut_eq_none_iff.mp hcut
        cases hnext : cutLine (bytes ++ [next]) with
        | none =>
            rw [findCrlf_missing hholds hnext] at hstore
            omega
        | some found =>
            obtain ⟨line, rest⟩ := found
            rcases cut_concat (by decide) hnext with ⟨_, hbytes⟩ | ⟨rest', _, hfound⟩
            · rcases hscan with hinfix | hlast
              · exact absurd hinfix hnone
              · rw [hbytes, List.getLast?_concat] at hlast
                exact absurd rfl hlast
            · rw [cutLine, hfound] at hcut
              cases hcut
  · rintro ⟨line, rest, hcut⟩
    have hlength := length_cutLine hcut
    obtain ⟨hscan, _, _⟩ := findCrlf_step hholds hcut
    have hinfix : crlf <:+: bytes := ⟨line, rest, (cutLine_eq_some_iff.mp hcut).1.symm⟩
    rw [hscan]
    refine ⟨⟨Or.inl hinfix, by omega, by omega⟩, ?_⟩
    intro q hq
    obtain ⟨j, hj, rfl⟩ := List.mem_map.mp hq
    have hread := numberLength_le (cString (endLine buf p bytes.length) p line.length)
    have htext := length_cString_le (endLine buf p bytes.length) p line.length
    rw [List.mem_range] at hj
    constructor
    · omega
    · omega

/-- The parser goes on behind a number that it has read inside, unless the
number is 0. -/
theorem stays_endNumber {f : Nat × Int32 → ByteM ParseResult} {rejected : ParseResult}
    {goOn : Nat → Int32 → ByteM ParseResult} (hholds : Holds buf p (bytes ++ [next]))
    (hstart : start ≤ p) (hstop : stop = p + bytes.length)
    (hf : ∀ i n, f (i, n) =
      if (bytes.length : Int) < i + 2 ∨ n = 0 then pure rejected else goOn i n) :
    Stays (fun q => start ≤ q ∧ q < stop) (endNumber p bytes.length >>= f) buf ↔
      ∃ line rest, cutLine bytes = some (line, rest) ∧
        (atoi line ≠ 0 → Stays (fun q => start ≤ q ∧ q < stop) (goOn line.length (atoi line))
          (Function.update buf (p + line.length) 0)) := by
  rw [stays_bind (endNumber_run buf p bytes.length), lineTouched_inside_iff hholds hstart hstop]
  have hbehind : ∀ line rest, cutLine bytes = some (line, rest) →
      (Stays (fun q => start ≤ q ∧ q < stop)
          (f (findCrlf buf p bytes.length,
            atoi (cString (endLine buf p bytes.length) p (findCrlf buf p bytes.length))))
          (endLine buf p bytes.length) ↔
        (atoi line ≠ 0 → Stays (fun q => start ≤ q ∧ q < stop) (goOn line.length (atoi line))
          (Function.update buf (p + line.length) 0))) := by
    intro line rest hcut
    have hlength := length_cutLine hcut
    obtain ⟨hscan, hvalue, _⟩ := findCrlf_step hholds hcut
    have hlong : ¬ (bytes.length : Int) < line.length + 2 := by omega
    rw [endLine, hscan, hvalue, hf]
    by_cases hzero : atoi line = 0
    · rw [if_pos (Or.inr hzero)]
      exact iff_of_true stays_pure (fun hnonzero => absurd hzero hnonzero)
    · rw [if_neg (not_or.mpr ⟨hlong, hzero⟩)]
      exact ⟨fun hstays _ => hstays, fun hstays => hstays hzero⟩
  constructor
  · rintro ⟨⟨line, rest, hcut⟩, hstays⟩
    exact ⟨line, rest, hcut, (hbehind line rest hcut).mp hstays⟩
  · rintro ⟨line, rest, hcut, hstays⟩
    exact ⟨⟨line, rest, hcut⟩, (hbehind line rest hcut).mpr hstays⟩

/-- The name scan, and the copy if there is one. -/
theorem parseName_inside_iff (hholds : Holds buf p (rest ++ [next])) (hstart : start ≤ p)
    (hstop : stop = p + rest.length) (cmdLen : Int32) (cmd : RedisCmd) :
    Stays (fun q => start ≤ q ∧ q < stop) (parseNameBytes p rest.length cmdLen cmd) buf ↔
      crlf <:+: rest ∨ rest.getLast? ≠ some 0x0d := by
  have hscanned := scanned_inside_iff (i := 0) hholds hstart hstop
  have hscan : (scanCrlf p (rest.length : Int).toNat 0).run buf =
      ⟨.ok (findCrlf buf p rest.length), buf, scanned buf p rest.length 0⟩ :=
    scanCrlf_run buf p rest.length 0
  rw [parseNameBytes, stays_bind hscan, hscanned]
  apply and_iff_left
  by_cases hfound : (findCrlf buf p rest.length : Int) < rest.length
  · rw [if_pos hfound]
    split
    · exact stays_pure
    · rw [stays_bind run_compute]
      constructor
      · intro q hq
        obtain ⟨j, hj, rfl⟩ := List.mem_map.mp hq
        rw [List.mem_range] at hj
        constructor
        · omega
        · omega
      · split
        · exact stays_fail
        · exact stays_pure
  · rw [if_neg hfound]
    exact stays_pure

theorem parseBulk_inside_iff (hholds : Holds buf p (bytes ++ [next])) (hstart : start ≤ p)
    (hstop : stop = p + bytes.length) (cmd : RedisCmd) :
    Stays (fun q => start ≤ q ∧ q < stop) (parseBulkBytes p bytes.length cmd) buf ↔
      bytes ≠ [] ∧ ∀ bytes', bytes = 0x24 :: bytes' →
        ∃ size rest, cutLine bytes' = some (size, rest) ∧
          (atoi size ≠ 0 → crlf <:+: rest ∨ rest.getLast? ≠ some 0x0d) := by
  rw [parseBulkBytes, stays_load]
  cases bytes with
  | nil =>
      rw [List.length_nil] at hstop
      refine iff_of_false ?_ (fun hall => hall.1 rfl)
      rintro ⟨hinside, _⟩
      omega
  | cons b bytes =>
      obtain ⟨hb, hrest⟩ := holds_cons.mp hholds
      rw [List.length_cons] at hstop
      have hleft : ((b :: bytes).length : Int) - 1 = bytes.length := by
        rw [List.length_cons]
        omega
      rw [hb, hleft]
      apply and_congr (iff_of_true ⟨hstart, by omega⟩ (List.cons_ne_nil b bytes))
      by_cases hdollar : b = 0x24
      · have hname : ∀ size rest, cutLine bytes = some (size, rest) →
            (Stays (fun q => start ≤ q ∧ q < stop)
                (parseNameBytes (p + 1 + size.length + 2) (bytes.length - size.length - 2)
                  (atoi size) cmd) (Function.update buf (p + 1 + size.length) 0) ↔
              crlf <:+: rest ∨ rest.getLast? ≠ some 0x0d) := by
          intro size rest hcut
          have hlength := length_cutLine hcut
          rw [show (bytes.length : Int) - size.length - 2 = rest.length by omega]
          exact parseName_inside_iff (findCrlf_step hrest hcut).2.2 (by omega) (by omega) _ _
        rw [if_neg (not_not.mpr hdollar),
          stays_endNumber hrest (by omega) (by omega) (fun _ _ => rfl)]
        constructor
        · rintro ⟨size, rest, hcut, hstays⟩ bytes' heq
          obtain ⟨_, rfl⟩ := List.cons.inj heq
          exact ⟨size, rest, hcut, fun hnonzero => (hname size rest hcut).mp (hstays hnonzero)⟩
        · intro hall
          obtain ⟨size, rest, hcut, hends⟩ := hall bytes (by rw [hdollar])
          exact ⟨size, rest, hcut, fun hnonzero => (hname size rest hcut).mpr (hends hnonzero)⟩
      · rw [if_pos hdollar]
        refine iff_of_true stays_pure ?_
        intro bytes' heq
        exact absurd (List.cons.inj heq).1 hdollar

end Bounds

section Payloads

variable {buf : Bytes} {p : Nat} {len : Int32}

/-- For every buffer and every payload in it: the parser stays inside the
payload exactly when the payload lasts long enough. -/
theorem staysInPayload_iff (hpos : 0 < len.toInt) (cmd : RedisCmd) :
    StaysInPayload buf p len cmd ↔ LastsLongEnough (payloadAt buf p len) := by
  obtain ⟨bytes, hpayload⟩ := payloadAt_cons buf p hpos
  obtain ⟨hleft, hholds⟩ := holds_behind hpayload
  rw [StaysInPayload, redisCmdParseBytes, stays_load, LastsLongEnough, hpayload, hleft]
  have hfirst : p ≤ p ∧ p < p + len.toInt.toNat := by omega
  rw [and_iff_right hfirst]
  by_cases hstar : buf p = 0x2a
  · have hbulk : ∀ count rest, cutLine bytes = some (count, rest) →
        (Stays (fun q => p ≤ q ∧ q < p + len.toInt.toNat)
            (parseBulkBytes (p + 1 + count.length + 2) (bytes.length - count.length - 2) cmd)
            (Function.update buf (p + 1 + count.length) 0) ↔
          rest ≠ [] ∧ ∀ bytes', rest = 0x24 :: bytes' →
            ∃ size rest', cutLine bytes' = some (size, rest') ∧
              (atoi size ≠ 0 → crlf <:+: rest' ∨ rest'.getLast? ≠ some 0x0d)) := by
      intro count rest hcut
      have hlength := length_cutLine hcut
      rw [show (bytes.length : Int) - count.length - 2 = rest.length by omega]
      exact parseBulk_inside_iff (findCrlf_step hholds hcut).2.2 (by omega) (by omega) cmd
    simp only [toUInt32_eq_zero_iff]
    rw [if_neg (not_not.mpr hstar),
      stays_endNumber hholds (by omega) (by omega) (fun _ _ => rfl)]
    constructor
    · rintro ⟨count, rest, hcut, hstays⟩ bytes' heq
      obtain ⟨_, rfl⟩ := List.cons.inj heq
      exact ⟨count, rest, hcut, fun hnonzero => (hbulk count rest hcut).mp (hstays hnonzero)⟩
    · intro hall
      obtain ⟨count, rest, hcut, hlasts⟩ := hall bytes (by rw [hstar])
      exact ⟨count, rest, hcut, fun hnonzero => (hbulk count rest hcut).mpr (hlasts hnonzero)⟩
  · rw [if_pos hstar]
    refine iff_of_true stays_pure ?_
    intro bytes' heq
    exact absurd (List.cons.inj heq).1 hstar

/-- A PING. -/
theorem staysInPayload_iff_ping :
    0 < (14 : Int32).toInt ∧ (StaysInPayload sampleRequest.rbuf 54 14 0 ↔
      LastsLongEnough (payloadAt sampleRequest.rbuf 54 14)) :=
  ⟨by decide, staysInPayload_iff (by decide) 0⟩

/-- The one byte of this payload makes the parser store a NUL behind it. -/
theorem staysInPayload_star :
    parsedOf ((redisCmdParseBytes 0 1 0).run (bufferOf [0x2a])) =
        redisCmdParse (bufferOf [0x2a]) 0 1 0 ∧
      1 ∈ ((redisCmdParseBytes 0 1 0).run (bufferOf [0x2a])).touched ∧
      ¬ StaysInPayload (bufferOf [0x2a]) 0 1 0 := by
  have hmem : 1 ∈ ((redisCmdParseBytes 0 1 0).run (bufferOf [0x2a])).touched := by
    decide +kernel
  refine ⟨parsedOf_redisCmdParseBytes _ _ _ _, hmem, ?_⟩
  intro hstays
  have hinside := (hstays 1 hmem).2
  revert hinside
  decide

end Payloads

end RedisTrace
