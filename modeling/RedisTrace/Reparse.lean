import RedisTrace.Commands

/-!
Parsing the same buffer twice. `redis_cmd_parse` ends the text of a number by
storing a NUL where the scan stopped, which is the CR of its line, and it never
puts the CR back. A second call does not find the lines where they were.
-/

namespace RedisTrace

open Cut

/-- The payload does not begin with a line that holds an element count. -/
def FirstLineFails (buf : Bytes) (p : Nat) (len : Int32) : Prop :=
  ∀ bytes, payloadAt buf p len = 0x2a :: bytes → cutNumber bytes = none

/-- No CR LF follows the first byte of the payload. The LF may come behind the
payload. -/
def NothingToCut (buf : Bytes) (p : Nat) (len : Int32) : Prop :=
  ∀ bytes, payloadAt buf p len = 0x2a :: bytes →
    cutLine (bytes ++ [byteBehind buf p len]) = none

/-- The CR of a CR LF, or a byte behind the payload. -/
def LineEnd (buf : Bytes) (p : Nat) (len : Int32) (i : Nat) : Prop :=
  crlfAt buf i ∨ p + len.toInt.toNat ≤ i

/-- At most two line ends have become NUL, and nothing else has changed. -/
def OnlyLineEnds (buf : Bytes) (p : Nat) (len : Int32) (buf' : Bytes) : Prop :=
  (∃ i j, ∀ k, k ≠ i → k ≠ j → buf' k = buf k) ∧
    ∀ k, buf' k ≠ buf k → buf' k = 0 ∧ LineEnd buf p len k

section Stops

variable {buf : Bytes} {p : Nat}

theorem findCrlfFrom_spec (buf : Bytes) (p n i : Nat) :
    (∀ j, i ≤ j → j < findCrlfFrom buf p n i → ¬ crlfAt buf (p + j)) ∧
      (findCrlfFrom buf p n i = i + n ∨
        (findCrlfFrom buf p n i < i + n ∧ crlfAt buf (p + findCrlfFrom buf p n i))) := by
  induction n generalizing i with
  | zero => exact ⟨fun j hij hj => absurd hj (by simp [findCrlfFrom, hij]), Or.inl rfl⟩
  | succ n ih =>
      rw [findCrlfFrom]
      split
      · next hat => exact ⟨fun j hij hj => absurd hj (by omega), Or.inr ⟨by omega, hat⟩⟩
      · next hnot =>
          obtain ⟨hbefore, hstop⟩ := ih (i + 1)
          constructor
          · intro j hij hj
            rcases Nat.eq_or_lt_of_le hij with rfl | hlt
            · exact hnot
            · exact hbefore j hlt hj
          · rcases hstop with hend | ⟨hinside, hat⟩
            · left
              omega
            · right
              exact ⟨by omega, hat⟩

theorem findCrlf_first {len : Int} {j : Nat} (hj : j < findCrlf buf p len) :
    ¬ crlfAt buf (p + j) :=
  (findCrlfFrom_spec buf p len.toNat 0).1 j (Nat.zero_le j) hj

theorem findCrlf_stop (buf : Bytes) (p : Nat) (len : Int) :
    findCrlf buf p len = len.toNat ∨
      (findCrlf buf p len < len.toNat ∧ crlfAt buf (p + findCrlf buf p len)) := by
  have hstop := (findCrlfFrom_spec buf p len.toNat 0).2
  rw [Nat.zero_add] at hstop
  exact hstop

theorem cString_congr {buf' : Bytes} {n : Nat} (hsame : ∀ j < n, buf (p + j) = buf' (p + j)) :
    cString buf p n = cString buf' p n := by
  induction n generalizing p with
  | zero => rfl
  | succ n ih =>
      have hfirst := hsame 0 (by omega)
      rw [Nat.add_zero] at hfirst
      rw [cString, cString, hfirst, ih (fun j hj => by
        rw [show p + 1 + j = p + (j + 1) by omega]
        exact hsame (j + 1) (by omega))]

/-- A string ends at its first NUL. -/
theorem cString_stop {i n : Nat} (hin : i ≤ n) (hnul : buf (p + i) = 0) :
    cString buf p n = cString buf p i := by
  induction i generalizing p n with
  | zero =>
      cases n with
      | zero => rfl
      | succ n => exact if_pos hnul
  | succ i ih =>
      obtain ⟨n, rfl⟩ : ∃ n', n = n' + 1 := ⟨n - 1, by omega⟩
      rw [cString, cString, ih (by omega) (by
        rw [show p + 1 + i = p + (i + 1) by omega]
        exact hnul)]

end Stops

section Edits

variable {buf : Bytes} {p : Nat} {cmd : RedisCmd} {parsed : Parsed}

theorem parseBulk_edits {len : Int} (hparsed : parseBulk buf p len cmd = .ok parsed) :
    parsed.buf = buf ∨
      ∃ j, p < j ∧ (crlfAt buf j ∨ (p : Int) + len ≤ j) ∧
        parsed.buf = Function.update buf j 0 := by
  have hstop := findCrlf_stop buf (p + 1) (len - 1)
  dsimp only [parseBulk] at hparsed
  split at hparsed
  · cases hparsed
    exact Or.inl rfl
  · refine Or.inr ⟨p + 1 + findCrlf buf (p + 1) (len - 1), by omega, ?_, ?_⟩
    · rcases hstop with hend | ⟨_, hat⟩
      · right
        omega
      · exact Or.inl hat
    · split at hparsed
      · cases hparsed
        rfl
      · exact parseName_buf hparsed

/-- What a call of the parser leaves of the buffer. -/
theorem redisCmdParse_edits {len : Int32}
    (hparsed : redisCmdParse buf p len cmd = .ok parsed) :
    parsed.buf = buf ∨
      ∃ i, p < i ∧ LineEnd buf p len i ∧
        (parsed.buf = Function.update buf i 0 ∨
          ∃ j, i < j ∧ LineEnd buf p len j ∧
            parsed.buf = Function.update (Function.update buf i 0) j 0) := by
  have hstop := findCrlf_stop buf (p + 1) (len.toInt - 1)
  dsimp only [redisCmdParse] at hparsed
  split at hparsed
  · cases hparsed
    exact Or.inl rfl
  · refine Or.inr ⟨p + 1 + findCrlf buf (p + 1) (len.toInt - 1), by omega, ?_, ?_⟩
    · rcases hstop with hend | ⟨_, hat⟩
      · right
        omega
      · exact Or.inl hat
    · split at hparsed
      · cases hparsed
        exact Or.inl rfl
      · next hlong =>
          rcases parseBulk_edits hparsed with hkept | ⟨j, hj, hend, hbuf⟩
          · exact Or.inl hkept
          · refine Or.inr ⟨j, by omega, ?_, hbuf⟩
            rcases hend with hat | hend
            · left
              unfold crlfAt at hat ⊢
              rw [Function.update_of_ne (by omega), Function.update_of_ne (by omega)] at hat
              exact hat
            · right
              omega

theorem onlyLineEnds_of_parsed {len : Int32}
    (hparsed : redisCmdParse buf p len cmd = .ok parsed) :
    OnlyLineEnds buf p len parsed.buf := by
  rcases redisCmdParse_edits hparsed with hkept | ⟨i, _, hi, hbuf | ⟨j, hij, hj, hbuf⟩⟩
  · rw [hkept]
    exact ⟨⟨0, 0, fun k _ _ => rfl⟩, fun k hk => absurd rfl hk⟩
  · rw [hbuf]
    refine ⟨⟨i, i, fun k hk _ => Function.update_of_ne hk _ _⟩, fun k hk => ?_⟩
    rcases eq_or_ne k i with rfl | hki
    · exact ⟨Function.update_self _ _ _, hi⟩
    · exact absurd (Function.update_of_ne hki _ _) hk
  · rw [hbuf]
    refine ⟨⟨i, j, fun k hki hkj => ?_⟩, fun k hk => ?_⟩
    · rw [Function.update_of_ne hkj, Function.update_of_ne hki]
    · rcases eq_or_ne k j with rfl | hkj
      · exact ⟨Function.update_self _ _ _, hj⟩
      · rw [Function.update_of_ne hkj] at hk ⊢
        rcases eq_or_ne k i with rfl | hki
        · exact ⟨Function.update_self _ _ _, hi⟩
        · exact absurd (Function.update_of_ne hki _ _) hk

end Edits

/-- The buffer with a NUL where the scan from `p` stops. -/
def endLine (buf : Bytes) (p : Nat) (len : Int) : Bytes :=
  Function.update buf (p + findCrlf buf p len) 0

/-- The line at `p` does not end in time, or holds no number other than 0. -/
def LineRejected (buf : Bytes) (p : Nat) (len : Int) : Prop :=
  len < findCrlf buf p len + 2 ∨
    atoi (cString (endLine buf p len) p (findCrlf buf p len)) = 0

section Again

variable {buf : Bytes} {p : Nat} {len : Int32} {cmd : RedisCmd} {parsed : Parsed}

theorem redisCmdParse_other (hother : buf p ≠ 0x2a) :
    redisCmdParse buf p len cmd = .ok ⟨-1, buf, cmd, 0⟩ := if_pos hother

theorem redisCmdParse_lineRejected (hstar : buf p = 0x2a)
    (hrejected : LineRejected buf (p + 1) (len.toInt - 1)) :
    redisCmdParse buf p len cmd =
      .ok ⟨-1, endLine buf (p + 1) (len.toInt - 1), cmd, 0⟩ := by
  unfold LineRejected endLine at hrejected
  simp only [redisCmdParse, hstar, ne_eq, not_true_eq_false, if_false, toUInt32_eq_zero_iff]
  exact if_pos hrejected

/-- The first NUL stays in the buffer. -/
theorem redisCmdParse_firstEnd (hstar : buf p = 0x2a)
    (hparsed : redisCmdParse buf p len cmd = .ok parsed) :
    parsed.buf (p + 1 + findCrlf buf (p + 1) (len.toInt - 1)) = 0 := by
  simp only [redisCmdParse, hstar, ne_eq, not_true_eq_false, if_false] at hparsed
  split at hparsed
  · cases hparsed
    exact Function.update_self _ _ _
  · rw [parseBulk_buf hparsed (by omega)]
    exact Function.update_self _ _ _

/-- The scan of the edited line does not stop earlier, and the text of the
number still ends where it ended. -/
theorem LineRejected.again {len : Int} (hrejected : LineRejected buf p len) :
    LineRejected (endLine buf p len) p len := by
  have hnul : endLine buf p len (p + findCrlf buf p len) = 0 := Function.update_self _ _ _
  have hsame : ∀ j, j ≠ findCrlf buf p len → endLine buf p len (p + j) = buf (p + j) :=
    fun j hj => Function.update_of_ne (by omega) _ _
  have hstop := findCrlf_stop (endLine buf p len) p len
  have hnotEarlier : findCrlf buf p len ≤ findCrlf (endLine buf p len) p len := by
    by_contra hearlier
    rcases hstop with hend | ⟨_, hcr, hlf⟩
    · have hbound := findCrlf_stop buf p len
      omega
    · rw [hsame _ (by omega)] at hcr
      rcases eq_or_ne (findCrlf (endLine buf p len) p len + 1) (findCrlf buf p len)
        with hnext | hnext
      · rw [Nat.add_assoc, hnext, hnul] at hlf
        exact absurd hlf (by decide)
      · rw [Nat.add_assoc, hsame _ hnext, ← Nat.add_assoc] at hlf
        exact findCrlf_first (Nat.lt_of_not_le hearlier) ⟨hcr, hlf⟩
  rcases hrejected with hshort | hzero
  · left
    omega
  · rcases Nat.eq_or_lt_of_le hnotEarlier with hthere | hlater
    · left
      rcases hstop with hend | ⟨_, hcr, _⟩
      · omega
      · rw [← hthere, hnul] at hcr
        exact absurd hcr (by decide)
    · right
      have hkeeps : ∀ j < findCrlf (endLine buf p len) p len,
          endLine (endLine buf p len) p len (p + j) = endLine buf p len (p + j) :=
        fun j hj => Function.update_of_ne (by omega) _ _
      rw [cString_congr hkeeps, cString_stop hlater.le hnul]
      exact hzero

theorem payloadAt_cons (buf : Bytes) (p : Nat) {len : Int32} (hpos : 0 < len.toInt) :
    ∃ bytes, payloadAt buf p len = buf p :: bytes := by
  obtain ⟨b, bytes, hpayload⟩ := List.exists_cons_of_ne_nil (payloadAt_ne_nil buf p hpos)
  have hholds := holds_payloadAt buf p len
  rw [hpayload] at hholds
  exact ⟨bytes, by rw [hpayload, (holds_cons.mp hholds).1]⟩

/-- What stands behind the first byte of a payload. -/
theorem holds_behind {bytes : List UInt8} {b : UInt8}
    (hpayload : payloadAt buf p len = b :: bytes) :
    len.toInt - 1 = bytes.length ∧ Holds buf (p + 1) (bytes ++ [byteBehind buf p len]) := by
  have hholds := holds_payloadAt buf p len
  have hpos : 0 < len.toInt := by
    by_contra hneg
    rw [payloadAt, show len.toInt.toNat = 0 by omega] at hpayload
    cases hpayload
  have hlength := length_payloadAt buf p hpos
  rw [hpayload] at hholds hlength
  rw [List.length_cons] at hlength
  exact ⟨by omega, (holds_cons.mp hholds).2⟩

theorem lineRejected_of_fails (hstar : buf p = 0x2a) (hfails : FirstLineFails buf p len) :
    LineRejected buf (p + 1) (len.toInt - 1) := by
  by_cases hpos : 0 < len.toInt
  · obtain ⟨bytes, hpayload⟩ := payloadAt_cons buf p hpos
    rw [hstar] at hpayload
    obtain ⟨hleft, hholds⟩ := holds_behind hpayload
    rw [hleft]
    exact cutNumber_none hholds (hfails bytes hpayload)
  · left
    omega

/-- A call that fails at the first line fails again, with the same answer. -/
theorem redisCmdParse_again (hfails : FirstLineFails buf p len)
    (hparsed : redisCmdParse buf p len cmd = .ok parsed) :
    ∃ parsed', redisCmdParse parsed.buf p len cmd = .ok parsed' ∧ parsed'.ret = parsed.ret ∧
      parsed'.pstRdsCmd = parsed.pstRdsCmd := by
  by_cases hstar : buf p = 0x2a
  · have hrejected := lineRejected_of_fails hstar hfails
    rw [redisCmdParse_lineRejected hstar hrejected] at hparsed
    obtain rfl := Except.ok.inj hparsed
    have hstar' : endLine buf (p + 1) (len.toInt - 1) p = 0x2a := by
      rw [endLine, Function.update_of_ne (by omega)]
      exact hstar
    exact ⟨_, redisCmdParse_lineRejected hstar' hrejected.again, rfl, rfl⟩
  · rw [redisCmdParse_other hstar] at hparsed
    obtain rfl := Except.ok.inj hparsed
    exact ⟨_, redisCmdParse_other hstar, rfl, rfl⟩

theorem payloadAt_eq_iff {buf' : Bytes} :
    payloadAt buf' p len = payloadAt buf p len ↔
      ∀ i < len.toInt.toNat, buf' (p + i) = buf (p + i) := by
  rw [payloadAt, payloadAt, List.map_inj_left]
  simp only [List.mem_range]

theorem payload_kept_iff (hparsed : redisCmdParse buf p len cmd = .ok parsed) :
    payloadAt parsed.buf p len = payloadAt buf p len ↔ NothingToCut buf p len := by
  rw [payloadAt_eq_iff]
  constructor
  · intro hkept bytes hpayload
    obtain ⟨hleft, hholds⟩ := holds_behind hpayload
    cases hcut : cutLine (bytes ++ [byteBehind buf p len]) with
    | none => rfl
    | some found =>
        obtain ⟨line, rest⟩ := found
        have hlength := length_cutLine hcut
        rw [List.length_append, List.length_singleton] at hlength
        have hstar : buf p = 0x2a := by
          have hholds := holds_payloadAt buf p len
          rw [hpayload] at hholds
          exact (holds_cons.mp hholds).1
        have hnul := redisCmdParse_firstEnd hstar hparsed
        have hcr : buf (p + 1 + line.length) = 0x0d := by
          rw [(cutLine_eq_some_iff.mp hcut).1] at hholds
          have hend := (holds_append.mp (holds_append.mp hholds).1).2
          exact hend 0 (by decide)
        rw [hleft, findCrlf_found hholds hcut, show p + 1 + line.length =
          p + (1 + line.length) by omega, hkept (1 + line.length) (by omega),
          ← Nat.add_assoc, hcr] at hnul
        exact absurd hnul (by decide)
  · intro hnothing i hi
    by_cases hstar : buf p = 0x2a
    · have hpos : 0 < len.toInt := by omega
      obtain ⟨bytes, hpayload⟩ := payloadAt_cons buf p hpos
      rw [hstar] at hpayload
      obtain ⟨hleft, hholds⟩ := holds_behind hpayload
      have hscan := findCrlf_missing hholds (hnothing bytes hpayload)
      have hrejected : LineRejected buf (p + 1) (len.toInt - 1) := by
        left
        rw [hleft, hscan]
        omega
      rw [redisCmdParse_lineRejected hstar hrejected] at hparsed
      obtain rfl := Except.ok.inj hparsed
      rw [hleft, endLine, hscan]
      exact Function.update_of_ne (by omega) _ _
    · rw [redisCmdParse_other hstar] at hparsed
      obtain rfl := Except.ok.inj hparsed
      rfl

theorem fails_of_nothingToCut (hnothing : NothingToCut buf p len) :
    FirstLineFails buf p len := by
  intro bytes hpayload
  by_contra hsome
  obtain ⟨⟨line, rest⟩, hcut⟩ := Option.ne_none_iff_exists'.mp hsome
  have hnext := cut_append (by decide) (cutNumber_eq_some_iff.mp hcut).1
    [byteBehind buf p len]
  have hnone := hnothing bytes hpayload
  rw [cutLine, hnext] at hnone
  cases hnone

/-- For every buffer and every length: a call that returns changes nothing but
line ends; the payload is as it was exactly when there is nothing to cut; and a
call that leaves it so, or fails at the first line, can be repeated. -/
theorem redisCmdParse_repeats (hparsed : redisCmdParse buf p len 0 = .ok parsed) :
    OnlyLineEnds buf p len parsed.buf ∧
      (payloadAt parsed.buf p len = payloadAt buf p len ↔ NothingToCut buf p len) ∧
      (payloadAt parsed.buf p len = payloadAt buf p len ∨ FirstLineFails buf p len →
        ∃ parsed', redisCmdParse parsed.buf p len 0 = .ok parsed' ∧
          parsed'.ret = parsed.ret ∧ parsed'.pstRdsCmd = parsed.pstRdsCmd) := by
  refine ⟨onlyLineEnds_of_parsed hparsed, payload_kept_iff hparsed, ?_⟩
  rintro (hkept | hfails)
  · have hnothing := (payload_kept_iff hparsed).mp hkept
    exact redisCmdParse_again (fails_of_nothingToCut hnothing) hparsed
  · exact redisCmdParse_again hfails hparsed

/-- An array of no elements. -/
def emptyBytes : List UInt8 := [0x2a, 0x30, 0x0d, 0x0a]

/-- Its line end is overwritten, and the second call refuses it like the
first. -/
theorem redisCmdParse_repeats_empty :
    ∃ parsed parsed', redisCmdParse (bufferOf emptyBytes) 0 4 0 = .ok parsed ∧
      OnlyLineEnds (bufferOf emptyBytes) 0 4 parsed.buf ∧
      payloadAt parsed.buf 0 4 ≠ payloadAt (bufferOf emptyBytes) 0 4 ∧
      redisCmdParse parsed.buf 0 4 0 = .ok parsed' ∧ parsed'.ret = parsed.ret ∧
      parsed'.pstRdsCmd = parsed.pstRdsCmd := by
  have hpayload : payloadAt (bufferOf emptyBytes) 0 4 = emptyBytes := by decide +kernel
  have hret : (redisCmdParse (bufferOf emptyBytes) 0 4 0).map Parsed.ret = .ok (-1) := by
    decide +kernel
  cases hparsed : redisCmdParse (bufferOf emptyBytes) 0 4 0 with
  | error fault =>
      rw [hparsed] at hret
      cases hret
  | ok parsed =>
      obtain ⟨honly, hkept, hagain⟩ := redisCmdParse_repeats hparsed
      have hfails : FirstLineFails (bufferOf emptyBytes) 0 4 := by
        intro bytes hbytes
        rw [hpayload] at hbytes
        obtain rfl := (List.cons.inj hbytes).2
        decide +kernel
      obtain ⟨parsed', hparsed', hsame⟩ := hagain (.inr hfails)
      refine ⟨parsed, parsed', rfl, honly, ?_, hparsed', hsame⟩
      intro heq
      have hcut := hkept.mp heq [0x30, 0x0d, 0x0a] hpayload
      revert hcut
      decide +kernel

/-- GET of a key, as a client sends it. -/
def getBytes : List UInt8 :=
  commandBytes 2 [0x47, 0x45, 0x54] (bulkString [0x66, 0x6f, 0x6f])

/-- A GET is read as GET, and then as a command whose name is the key. -/
theorem redisCmdParse_repeats_get :
    ∃ parsed parsed', redisCmdParse (bufferOf getBytes) 0 22 0 = .ok parsed ∧
      redisCmdParse parsed.buf 0 22 0 = .ok parsed' ∧
      payloadAt parsed.buf 0 22 ≠ payloadAt (bufferOf getBytes) 0 22 ∧
      parsed.pstRdsCmd = ⟨namedCmd [0x47, 0x45, 0x54] (0 : RedisCmd).cmd, 1⟩ ∧
      parsed'.pstRdsCmd = ⟨namedCmd [0x66, 0x6f, 0x6f] (0 : RedisCmd).cmd, 1⟩ ∧
      parsed'.pstRdsCmd ≠ parsed.pstRdsCmd := by
  have hfirst : (redisCmdParse (bufferOf getBytes) 0 22 0).map
      (fun parsed => (parsed.pstRdsCmd, parsed.buf 2)) =
        .ok (⟨namedCmd [0x47, 0x45, 0x54] (0 : RedisCmd).cmd, 1⟩, 0) := by decide +kernel
  have hsecond : ((redisCmdParse (bufferOf getBytes) 0 22 0).bind
      (fun parsed => redisCmdParse parsed.buf 0 22 0)).map Parsed.pstRdsCmd =
        .ok ⟨namedCmd [0x66, 0x6f, 0x6f] (0 : RedisCmd).cmd, 1⟩ := by decide +kernel
  cases hparsed : redisCmdParse (bufferOf getBytes) 0 22 0 with
  | error fault =>
      rw [hparsed] at hfirst
      cases hfirst
  | ok parsed =>
      rw [hparsed] at hfirst hsecond
      obtain ⟨hget, hnul⟩ := Prod.mk.inj (Except.ok.inj hfirst)
      cases hparsed' : redisCmdParse parsed.buf 0 22 0 with
      | error fault =>
          rw [Except.bind, hparsed'] at hsecond
          cases hsecond
      | ok parsed' =>
          rw [Except.bind, hparsed'] at hsecond
          have hfoo := Except.ok.inj hsecond
          refine ⟨parsed, parsed', rfl, hparsed', ?_, hget, hfoo, ?_⟩
          · intro hkept
            have hcr := payloadAt_eq_iff.mp hkept 2 (by decide)
            rw [Nat.zero_add, hnul] at hcr
            exact absurd hcr (by decide +kernel)
          · rw [hget, hfoo]
            decide +kernel

end Again

end RedisTrace
