import RedisTrace.Library.Cut
import RedisTrace.Resp

/-!
Payloads as `redis_cmd_parse` reads them. Its three scans cut lines off the
payload. The first two lines must hold numbers other than 0, in the eyes of
`atoi`; what follows them is the name. Every scan looks one byte ahead, so the
byte behind the payload, `next`, has a say as well.
-/

namespace RedisTrace

open Cut

/-- The first line of some bytes, and the bytes behind its CR LF. -/
def cutLine : List UInt8 → Option (List UInt8 × List UInt8) := cut 0x0d 0x0a

/-- The same for a line that `atoi` takes for a number other than 0. -/
def cutNumber (bytes : List UInt8) : Option (List UInt8 × List UInt8) :=
  (cutLine bytes).filter (fun (line, _) => atoi line ≠ 0)

/-- What `redis_cmd_parse` reads before it comes to the name: the two numbers,
and the rest of the payload. -/
structure Opening where
  count : List UInt8
  size : List UInt8
  rest : List UInt8
  deriving DecidableEq, Repr

def opening : List UInt8 → Option Opening
  | 0x2a :: bytes =>
      match cutNumber bytes with
      | some (count, 0x24 :: bytes) =>
          (cutNumber bytes).map (fun (size, rest) => ⟨count, size, rest⟩)
      | _ => none
  | _ => none

/-- The `len` bytes at `p`. -/
def payloadAt (buf : Bytes) (p : Nat) (len : Int32) : List UInt8 :=
  (List.range len.toInt.toNat).map (fun i => buf (p + i))

/-- The byte behind them. -/
def byteBehind (buf : Bytes) (p : Nat) (len : Int32) : UInt8 := buf (p + len.toInt.toNat)

section Payloads

variable (buf : Bytes) (p : Nat) {len : Int32}

theorem length_payloadAt (hpos : 0 < len.toInt) :
    len.toInt = (payloadAt buf p len).length := by
  rw [payloadAt, List.length_map, List.length_range]
  omega

theorem payloadAt_ne_nil (hpos : 0 < len.toInt) : payloadAt buf p len ≠ [] := by
  have hlength := length_payloadAt buf p hpos
  intro hnil
  rw [hnil, List.length_nil] at hlength
  omega

theorem holds_payloadAt (len : Int32) :
    Holds buf p (payloadAt buf p len ++ [byteBehind buf p len]) := by
  rw [holds_append]
  constructor
  · intro i hi
    simp [payloadAt]
  · rw [holds_cons]
    simp [payloadAt, byteBehind, Holds]

end Payloads

section Lines

variable {bytes line rest : List UInt8}

theorem cutLine_eq_some_iff :
    cutLine bytes = some (line, rest) ↔ bytes = line ++ crlf ++ rest ∧ ¬ crlf <:+: line := by
  rw [cutLine, cut_eq_some_iff (by decide), List.append_assoc]
  rfl

theorem cutNumber_eq_some_iff :
    cutNumber bytes = some (line, rest) ↔
      cutLine bytes = some (line, rest) ∧ atoi line ≠ 0 := by
  rw [cutNumber, Option.filter_eq_some_iff]
  simp

theorem length_cutLine (hcut : cutLine bytes = some (line, rest)) :
    bytes.length = line.length + 2 + rest.length := by
  rw [(cutLine_eq_some_iff.mp hcut).1, List.length_append, List.length_append]
  rfl

theorem opening_eq_some_iff {payload : List UInt8} {o : Opening} :
    opening payload = some o ↔ ∃ bytes, payload = 0x2a :: bytes ∧
      ∃ bytes', cutNumber bytes = some (o.count, 0x24 :: bytes') ∧
        cutNumber bytes' = some (o.size, o.rest) := by
  constructor
  · intro ho
    unfold opening at ho
    split at ho
    · split at ho
      · next bytes _ count bytes' hcount =>
          obtain ⟨⟨size, rest⟩, hsize, rfl⟩ := Option.map_eq_some_iff.mp ho
          exact ⟨bytes, rfl, bytes', hcount, hsize⟩
      · cases ho
    · cases ho
  · rintro ⟨bytes, rfl, bytes', hcount, hsize⟩
    simp [opening, hcount, hsize]

end Lines

section Numbers

theorem dropWhile_isSpace_takeWhile (bytes : List UInt8) :
    (bytes.takeWhile (· ≠ 0)).dropWhile isSpace =
      (bytes.dropWhile isSpace).takeWhile (· ≠ 0) := by
  induction bytes with
  | nil => rfl
  | cons b bytes ih =>
      by_cases hspace : isSpace b = true
      · have hb : b ≠ 0 := by
          rintro rfl
          exact absurd hspace (by decide)
        simpa [hb, hspace] using ih
      · rcases eq_or_ne b 0 with rfl | hb
        · simp [hspace]
        · simp [hb, hspace]

theorem takeWhile_isDigit_takeWhile (bytes : List UInt8) :
    (bytes.takeWhile (· ≠ 0)).takeWhile isDigit = bytes.takeWhile isDigit := by
  rw [List.takeWhile_takeWhile]
  congr 1
  funext b
  rcases eq_or_ne b 0 with rfl | hb
  · decide
  · simp [hb]

/-- A NUL ends the text of a number and is not part of it. -/
theorem strtol_takeWhile (bytes : List UInt8) :
    strtol (bytes.takeWhile (· ≠ 0)) = strtol bytes := by
  unfold strtol
  rw [dropWhile_isSpace_takeWhile]
  cases bytes.dropWhile isSpace with
  | nil => rfl
  | cons b rest =>
      have hdigits := takeWhile_isDigit_takeWhile rest
      rcases eq_or_ne b 0 with rfl | hb
      · rfl
      · have hcons : (b :: rest).takeWhile (· ≠ 0) = b :: rest.takeWhile (· ≠ 0) := by
          simp [hb]
        have hall := takeWhile_isDigit_takeWhile (b :: rest)
        rw [hcons] at hall ⊢
        split
        · next heq =>
            obtain ⟨rfl, rfl⟩ := List.cons.inj heq
            rw [hdigits]
            rfl
        · next heq =>
            obtain ⟨rfl, rfl⟩ := List.cons.inj heq
            rw [hdigits]
            rfl
        · next hminus hplus =>
            split
            · next heq =>
                obtain ⟨rfl, rfl⟩ := List.cons.inj heq
                exact absurd rfl (hminus _)
            · next heq =>
                obtain ⟨rfl, rfl⟩ := List.cons.inj heq
                exact absurd rfl (hplus _)
            · rw [hall]

variable {buf : Bytes} {p : Nat}

theorem cString_takeWhile {bytes : List UInt8} (hholds : Holds buf p bytes) :
    cString buf p bytes.length = bytes.takeWhile (· ≠ 0) := by
  induction bytes generalizing p with
  | nil => rfl
  | cons b bytes ih =>
      obtain ⟨hfirst, hrest⟩ := holds_cons.mp hholds
      rw [List.length_cons, cString, hfirst]
      rcases eq_or_ne b 0 with rfl | hb
      · rfl
      · rw [if_neg hb, ih hrest]
        simp [hb]

theorem atoi_cString {bytes : List UInt8} (hholds : Holds buf p bytes) :
    atoi (cString buf p bytes.length) = atoi bytes := by
  rw [cString_takeWhile hholds, atoi, strtol_takeWhile, atoi]

end Numbers

section Scans

variable {buf : Bytes} {p : Nat} {bytes line rest : List UInt8} {next : UInt8}

theorem findCrlfFrom_none {n i : Nat}
    (hnone : ∀ j, i ≤ j → j < i + n → ¬ crlfAt buf (p + j)) :
    findCrlfFrom buf p n i = i + n := by
  induction n generalizing i with
  | zero => rfl
  | succ n ih =>
      have hnot : ¬ (buf (p + i) = 0x0d ∧ buf (p + i + 1) = 0x0a) :=
        hnone i (Nat.le_refl i) (by omega)
      rw [findCrlfFrom, if_neg hnot, ih (fun j hj hjn => hnone j (by omega) (by omega))]
      omega

theorem findCrlf_found (hholds : Holds buf p (bytes ++ [next]))
    (hcut : cutLine (bytes ++ [next]) = some (line, rest)) :
    findCrlf buf p bytes.length = line.length := by
  obtain ⟨heq, hnone⟩ := cutLine_eq_some_iff.mp hcut
  have hlength := length_cutLine hcut
  rw [List.length_append, List.length_singleton] at hlength
  rw [heq] at hholds
  exact findCrlf_line (holds_append.mp hholds).1 hnone (by omega)

theorem findCrlf_missing (hholds : Holds buf p (bytes ++ [next]))
    (hcut : cutLine (bytes ++ [next]) = none) :
    findCrlf buf p bytes.length = bytes.length := by
  have hnone : ∀ j, 0 ≤ j → j < 0 + bytes.length → ¬ crlfAt buf (p + j) := by
    intro j _ hj hat
    exact cut_eq_none_iff.mp hcut (infix_of_crlfAt hholds (by simp; omega) hat)
  rw [findCrlf, Int.toNat_natCast, findCrlfFrom_none hnone, Nat.zero_add]

/-- A line that no CR LF ends inside the payload is too long for what is left. -/
theorem findCrlf_unfinished (hholds : Holds buf p (bytes ++ [next]))
    (hcut : cutLine bytes = none) :
    (bytes.length : Int) < findCrlf buf p bytes.length + 2 := by
  cases hnext : cutLine (bytes ++ [next]) with
  | none =>
      rw [findCrlf_missing hholds hnext]
      omega
  | some found =>
      obtain ⟨line, rest⟩ := found
      rcases cut_concat (by decide) hnext with ⟨_, hbytes⟩ | ⟨rest', _, hfound⟩
      · rw [findCrlf_found hholds hnext, hbytes, List.length_append, List.length_singleton]
        omega
      · rw [cutLine, hfound] at hcut
        cases hcut

/-- Cutting a line off moves to the bytes behind it; the NUL stands where its
CR stood. -/
theorem findCrlf_step (hholds : Holds buf p (bytes ++ [next]))
    (hcut : cutLine bytes = some (line, rest)) :
    findCrlf buf p bytes.length = line.length ∧
      atoi (cString (Function.update buf (p + line.length) 0) p line.length) = atoi line ∧
      Holds (Function.update buf (p + line.length) 0) (p + line.length + 2)
        (rest ++ [next]) := by
  have hnext : cutLine (bytes ++ [next]) = some (line, rest ++ [next]) :=
    cut_append (by decide) hcut [next]
  refine ⟨findCrlf_found hholds hnext, ?_, ?_⟩
  · apply atoi_cString
    rw [(cutLine_eq_some_iff.mp hnext).1] at hholds
    intro i hi
    rw [Function.update_of_ne (by omega)]
    exact (holds_append.mp (holds_append.mp hholds).1).1 i hi
  · rw [(cutLine_eq_some_iff.mp hnext).1, holds_append, List.length_append,
      ← Nat.add_assoc] at hholds
    have hrest : Holds buf (p + line.length + 2) (rest ++ [next]) := hholds.2
    exact hrest.update 0 (by omega)

/-- What makes the parser give up on a line. -/
theorem cutNumber_none (hholds : Holds buf p (bytes ++ [next]))
    (hcut : cutNumber bytes = none) :
    (bytes.length : Int) < findCrlf buf p bytes.length + 2 ∨
      atoi (cString (Function.update buf (p + findCrlf buf p bytes.length) 0) p
        (findCrlf buf p bytes.length)) = 0 := by
  cases hline : cutLine bytes with
  | none => exact Or.inl (findCrlf_unfinished hholds hline)
  | some found =>
      obtain ⟨line, rest⟩ := found
      obtain ⟨hscan, hvalue, _⟩ := findCrlf_step hholds hline
      right
      rw [hscan, hvalue]
      by_contra hnonzero
      rw [cutNumber_eq_some_iff.mpr ⟨hline, hnonzero⟩] at hcut
      cases hcut

end Scans

/-- How far into the payload the opening goes. -/
def Opening.length (o : Opening) : Nat := o.count.length + o.size.length + 6

/-- The buffer with a NUL at the end of both lines. -/
def Opening.terminate (o : Opening) (buf : Bytes) (p : Nat) : Bytes :=
  Function.update (Function.update buf (p + 1 + o.count.length) 0)
    (p + o.count.length + 4 + o.size.length) 0

section Parse

variable {buf : Bytes} {p : Nat} {payload bytes rest name tail : List UInt8} {next : UInt8}

theorem rejected_ne_zero : (-1 : Int32) ≠ 0 := by decide

theorem toUInt32_eq_zero_iff (n : Int32) : n.toUInt32 = 0 ↔ n = 0 := by
  constructor
  · intro hzero
    rw [← Int32.toInt32_toUInt32 n, hzero]
    rfl
  · rintro rfl
    rfl

theorem parseBulk_opened {size : List UInt8} (hholds : Holds buf p (0x24 :: bytes ++ [next]))
    (hcut : cutNumber bytes = some (size, rest)) (pstRdsCmd : RedisCmd) :
    parseBulk buf p (bytes.length + 1 : Nat) pstRdsCmd =
        parseName (Function.update buf (p + 1 + size.length) 0) (p + 1 + size.length + 2)
          rest.length (atoi size) pstRdsCmd ∧
      Holds (Function.update buf (p + 1 + size.length) 0) (p + 1 + size.length + 2)
        (rest ++ [next]) := by
  obtain ⟨hdollar, hbytes⟩ := holds_cons.mp hholds
  obtain ⟨hline, hnonzero⟩ := cutNumber_eq_some_iff.mp hcut
  obtain ⟨hscan, hvalue, hrest⟩ := findCrlf_step hbytes hline
  refine ⟨?_, hrest⟩
  have hlength := length_cutLine hline
  have hleft : ((bytes.length + 1 : Nat) : Int) - 1 = bytes.length := by omega
  have hlong : ¬ (bytes.length : Int) < (size.length : Int) + 2 := by omega
  have hrestLen : (bytes.length : Int) - size.length - 2 = rest.length := by omega
  simp only [parseBulk, hdollar, ne_eq, not_true_eq_false, if_false, hleft, hscan, hvalue]
  rw [if_neg (by simp [hlong, hnonzero]), hrestLen]

theorem parseBulk_rejected (hholds : Holds buf p (bytes ++ [next]))
    (hnone : ∀ bytes', bytes = 0x24 :: bytes' → cutNumber bytes' = none)
    (pstRdsCmd : RedisCmd) :
    ∃ buf', parseBulk buf p bytes.length pstRdsCmd = .ok ⟨-1, buf', pstRdsCmd, 0⟩ := by
  unfold parseBulk
  rcases eq_or_ne (buf p) 0x24 with hdollar | hother
  · cases bytes with
    | nil => exact ⟨Function.update buf (p + 1) 0, by simp [hdollar, findCrlf, findCrlfFrom]⟩
    | cons b bytes' =>
        obtain ⟨hb, hbytes⟩ := holds_cons.mp hholds
        have hcut : cutNumber bytes' = none := hnone bytes' (by rw [← hb, hdollar])
        have hleft : ((bytes'.length + 1 : Nat) : Int) - 1 = bytes'.length := by omega
        refine ⟨Function.update buf (p + 1 + findCrlf buf (p + 1) bytes'.length) 0, ?_⟩
        simp only [hdollar, ne_eq, not_true_eq_false, if_false, List.length_cons, hleft]
        exact if_pos (cutNumber_none hbytes hcut)
  · exact ⟨buf, if_pos hother⟩

/-- On a payload with an opening the parser comes to the name. -/
theorem redisCmdParse_opened {len : Int32} {o : Opening}
    (hholds : Holds buf p (payload ++ [next])) (hlen : len.toInt = payload.length)
    (ho : opening payload = some o) (pstRdsCmd : RedisCmd) :
    redisCmdParse buf p len pstRdsCmd =
        parseName (o.terminate buf p) (p + o.length) o.rest.length (atoi o.size) pstRdsCmd ∧
      Holds (o.terminate buf p) (p + o.length) (o.rest ++ [next]) := by
  obtain ⟨bytes, rfl, bytes', hcount, hsize⟩ := opening_eq_some_iff.mp ho
  obtain ⟨hstar, hbytes⟩ := holds_cons.mp hholds
  obtain ⟨hline, hnonzero⟩ := cutNumber_eq_some_iff.mp hcount
  obtain ⟨hscan, hvalue, hrest⟩ := findCrlf_step hbytes hline
  obtain ⟨hbulk, hname⟩ := parseBulk_opened hrest hsize pstRdsCmd
  have hbuf : o.terminate buf p = Function.update
      (Function.update buf (p + 1 + o.count.length) 0)
      (p + 1 + o.count.length + 2 + 1 + o.size.length) 0 := by
    unfold Opening.terminate
    congr 1
    omega
  have hat : p + o.length = p + 1 + o.count.length + 2 + 1 + o.size.length + 2 := by
    unfold Opening.length
    omega
  rw [hbuf, hat]
  refine ⟨?_, hname⟩
  rw [← hbulk]
  have hlength := length_cutLine hline
  rw [List.length_cons] at hlength hlen
  have hleft : len.toInt - 1 = bytes.length := by omega
  have hlong : ¬ (bytes.length : Int) < (o.count.length : Int) + 2 := by omega
  have hrestLen : (bytes.length : Int) - o.count.length - 2 = (bytes'.length + 1 : Nat) := by
    omega
  simp only [redisCmdParse, hstar, ne_eq, not_true_eq_false, if_false, hleft, hscan, hvalue,
    toUInt32_eq_zero_iff]
  rw [if_neg (by simp [hlong, hnonzero]), hrestLen]

/-- Every other payload is rejected, and no name is copied. -/
theorem redisCmdParse_rejected {len : Int32} (hholds : Holds buf p (payload ++ [next]))
    (hlen : len.toInt = payload.length) (hpos : payload ≠ []) (ho : opening payload = none)
    (pstRdsCmd : RedisCmd) :
    ∃ buf', redisCmdParse buf p len pstRdsCmd = .ok ⟨-1, buf', pstRdsCmd, 0⟩ := by
  unfold redisCmdParse
  rcases eq_or_ne (buf p) 0x2a with hstar | hother
  · obtain ⟨b, bytes, rfl⟩ := List.exists_cons_of_ne_nil hpos
    obtain ⟨hb, hbytes⟩ := holds_cons.mp hholds
    have hfirst : b = 0x2a := hb.symm.trans hstar
    subst hfirst
    have hleft : len.toInt - 1 = bytes.length := by
      rw [List.length_cons] at hlen
      omega
    simp only [hstar, ne_eq, not_true_eq_false, if_false, hleft, toUInt32_eq_zero_iff]
    cases hcount : cutNumber bytes with
    | none => exact ⟨_, if_pos (cutNumber_none hbytes hcount)⟩
    | some found =>
        obtain ⟨count, rest⟩ := found
        obtain ⟨hline, hnonzero⟩ := cutNumber_eq_some_iff.mp hcount
        obtain ⟨hscan, hvalue, hrest⟩ := findCrlf_step hbytes hline
        have hlength := length_cutLine hline
        have hlong : ¬ (bytes.length : Int) < (count.length : Int) + 2 := by omega
        have hrestLen : (bytes.length : Int) - count.length - 2 = rest.length := by omega
        obtain ⟨buf', hbulk⟩ := parseBulk_rejected hrest (by
          rintro bytes' rfl
          by_contra hsome
          obtain ⟨⟨size, rest'⟩, hsize⟩ := Option.ne_none_iff_exists'.mp hsome
          have hopening : opening (0x2a :: bytes) = some ⟨count, size, rest'⟩ :=
            opening_eq_some_iff.mpr ⟨bytes, rfl, bytes', hcount, hsize⟩
          rw [ho] at hopening
          cases hopening) pstRdsCmd
        refine ⟨buf', ?_⟩
        rw [hscan, hvalue, if_neg (by simp [hlong, hnonzero]), hrestLen]
        exact hbulk
  · exact ⟨buf, if_pos hother⟩

theorem parseName_found (hholds : Holds buf p (rest ++ [next]))
    (hcut : cutLine (rest ++ [next]) = some (name, tail)) (cmdLen : Int32)
    (pstRdsCmd : RedisCmd) :
    parseName buf p rest.length cmdLen pstRdsCmd =
      if cmdLen.toInt ≠ name.length then .ok ⟨-1, buf, pstRdsCmd, 0⟩
      else if 32 < name.length then .error .overflow
      else .ok ⟨0, buf, ⟨namedCmd name pstRdsCmd.cmd, 1⟩, name.length⟩ := by
  have hscan := findCrlf_found hholds hcut
  have hlength := length_cutLine hcut
  rw [List.length_append, List.length_singleton] at hlength
  rw [(cutLine_eq_some_iff.mp hcut).1, List.append_assoc] at hholds
  have hcopy := copyCmd_holds (holds_append.mp hholds).1 pstRdsCmd.cmd
  have hinside : (name.length : Int) < rest.length := by omega
  simp only [parseName, hscan, hcopy]
  rw [if_pos hinside]

/-- Without a CR LF the parser answers 0 but copies nothing. -/
theorem parseName_missing (hholds : Holds buf p (rest ++ [next]))
    (hcut : cutLine (rest ++ [next]) = none) (cmdLen : Int32) (pstRdsCmd : RedisCmd) :
    parseName buf p rest.length cmdLen pstRdsCmd = .ok ⟨0, buf, pstRdsCmd, 0⟩ := by
  simp [parseName, findCrlf_missing hholds hcut]

end Parse

end RedisTrace
