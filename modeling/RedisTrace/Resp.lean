import Mathlib.Data.List.TakeWhile
import RedisTrace.Tracker

/-!
RESP requests and what `redis_cmd_parse` reads from them: decimal numbers come
back through `atoi`, and each of the three scans stops at the CR LF that ends
its line.
-/

namespace RedisTrace

def crlf : List UInt8 := [0x0d, 0x0a]

/-- A number as RESP writes it. -/
def decimal (n : Nat) : List UInt8 := (Nat.toDigits 10 n).map Char.toUInt8

section Decimal

theorem digit_bounds {c : Char} (hdigit : c.isDigit = true) :
    48 ≤ c.toNat ∧ c.toNat ≤ 57 := by
  simp only [Char.isDigit, Bool.and_eq_true, decide_eq_true_eq] at hdigit
  exact ⟨UInt32.le_iff_toNat_le.mp hdigit.1, UInt32.le_iff_toNat_le.mp hdigit.2⟩

theorem toNat_toUInt8 {c : Char} (hdigit : c.isDigit = true) :
    c.toUInt8.toNat = c.toNat := by
  have hbounds := digit_bounds hdigit
  have hmod : c.toUInt8.toNat = c.toNat % 2 ^ 8 := UInt32.toNat_toUInt8 c.val
  omega

theorem isDigit_of_mem_decimal {n : Nat} {b : UInt8} (hb : b ∈ decimal n) :
    isDigit b = true := by
  obtain ⟨c, hc, rfl⟩ := List.mem_map.mp hb
  have hdigit := Nat.isDigit_of_mem_toDigits (by decide) (by decide) hc
  have hbounds := digit_bounds hdigit
  have hvalue := toNat_toUInt8 hdigit
  simp only [isDigit, Bool.and_eq_true, decide_eq_true_eq, UInt8.le_iff_toNat_le]
  rw [hvalue]
  exact hbounds

theorem decimal_ne_nil (n : Nat) : decimal n ≠ [] := by
  simp [decimal, Nat.toDigits_ne_nil]

/-- No digit is a NUL, a carriage return, a blank or a sign. -/
theorem digit_ne {b : UInt8} (hb : isDigit b = true) :
    b ≠ 0 ∧ b ≠ 0x0d ∧ isSpace b = false ∧ b ≠ 0x2d ∧ b ≠ 0x2b := by
  simp only [isDigit, Bool.and_eq_true, decide_eq_true_eq] at hb
  obtain ⟨hlow, hhigh⟩ := hb
  rw [UInt8.le_iff_toNat_le] at hlow
  have hlow' : 48 ≤ b.toNat := hlow
  have hne : ∀ k : UInt8, k.toNat < 48 → b ≠ k := by
    rintro k hk rfl
    omega
  refine ⟨hne _ (by decide), hne _ (by decide), ?_, hne _ (by decide), hne _ (by decide)⟩
  have hspace : ¬ b ≤ 0x0d := by
    rw [UInt8.le_iff_toNat_le]
    change ¬ b.toNat ≤ 13
    omega
  simp [isSpace, hspace, hne 0x20 (by decide)]

theorem digitsValue_decimal (n : Nat) : digitsValue (decimal n) = n := by
  have hfold : ∀ (cs : List Char) (init : Nat), (∀ c ∈ cs, c.isDigit = true) →
      (cs.map Char.toUInt8).foldl (fun n c => 10 * n + (c.toNat - 0x30)) init =
        Nat.ofDigitChars 10 cs init := by
    intro cs
    induction cs with
    | nil => intro init _; rfl
    | cons c cs ih =>
        intro init hdigits
        rw [List.map_cons, List.foldl_cons, Nat.ofDigitChars_cons,
          toNat_toUInt8 (hdigits c (by simp))]
        exact ih _ (fun c' hc' => hdigits c' (by simp [hc']))
  have hdigits : ∀ c ∈ Nat.toDigits 10 n, c.isDigit = true := fun c hc =>
    Nat.isDigit_of_mem_toDigits (by decide) (by decide) hc
  unfold digitsValue decimal
  rw [hfold _ 0 hdigits, Nat.ofDigitChars_ten_toDigits]

/-- `atoi` undoes `decimal` for numbers that fit an `int`. -/
theorem atoi_decimal {n : Nat} (hn : n < 2 ^ 31) : (atoi (decimal n)).toInt = n := by
  have hall : ∀ b ∈ decimal n, isDigit b = true := fun b hb => isDigit_of_mem_decimal hb
  have htake : (decimal n).takeWhile isDigit = decimal n :=
    List.takeWhile_eq_self_iff.mpr hall
  have hvalue := digitsValue_decimal n
  have hstrtol : strtol (decimal n) = n := by
    obtain ⟨b, rest, hcons⟩ := List.exists_cons_of_ne_nil (decimal_ne_nil n)
    obtain ⟨_, _, hspace, hminus, hplus⟩ := digit_ne (hall b (by simp [hcons]))
    have hdrop : (decimal n).dropWhile isSpace = decimal n := by
      rw [hcons, List.dropWhile_cons_of_neg (by simp [hspace])]
    unfold strtol
    rw [hdrop]
    split
    · next heq =>
        rw [hcons] at heq
        exact absurd (List.cons.inj heq).1 hminus
    · next heq =>
        rw [hcons] at heq
        exact absurd (List.cons.inj heq).1 hplus
    · rw [htake, hvalue]
      omega
  unfold atoi
  rw [hstrtol]
  exact Int32.toInt_ofInt_of_le (by omega) (by omega)

end Decimal

/-- The bytes at `p` are `bs`. -/
def Holds (buf : Bytes) (p : Nat) (bs : List UInt8) : Prop :=
  ∀ i (h : i < bs.length), buf (p + i) = bs[i]

section Buffer

variable {buf : Bytes} {p : Nat}

theorem holds_cons {b : UInt8} {bs : List UInt8} :
    Holds buf p (b :: bs) ↔ buf p = b ∧ Holds buf (p + 1) bs := by
  constructor
  · intro hholds
    refine ⟨hholds 0 (by simp), ?_⟩
    intro i hi
    have hnext := hholds (i + 1) (by simpa using hi)
    rw [show p + 1 + i = p + (i + 1) by omega]
    exact hnext
  · rintro ⟨hfirst, hrest⟩ i hi
    cases i with
    | zero => exact hfirst
    | succ i =>
        rw [show p + (i + 1) = p + 1 + i by omega]
        exact hrest i (by simpa using hi)

theorem holds_append {as bs : List UInt8} :
    Holds buf p (as ++ bs) ↔ Holds buf p as ∧ Holds buf (p + as.length) bs := by
  induction as generalizing p with
  | nil => simp [Holds]
  | cons a as ih =>
      rw [List.cons_append, holds_cons, holds_cons, ih, and_assoc, List.length_cons]
      rw [show p + (as.length + 1) = p + 1 + as.length by omega]

theorem Holds.update {q : Nat} {bs : List UInt8} (hholds : Holds buf p bs) (b : UInt8)
    (hq : q < p) : Holds (Function.update buf q b) p bs := by
  intro i hi
  rw [Function.update_of_ne (by omega)]
  exact hholds i hi

/-- A CR LF starts at `p`. -/
def crlfAt (buf : Bytes) (p : Nat) : Prop := buf p = 0x0d ∧ buf (p + 1) = 0x0a

theorem findCrlfFrom_eq {i n k : Nat} (hik : i ≤ k) (hkn : k < i + n)
    (hbefore : ∀ j, i ≤ j → j < k → ¬ crlfAt buf (p + j)) (hat : crlfAt buf (p + k)) :
    findCrlfFrom buf p n i = k := by
  induction n generalizing i with
  | zero => omega
  | succ n ih =>
      unfold findCrlfFrom
      rcases Nat.eq_or_lt_of_le hik with rfl | hlt
      · exact if_pos hat
      · have hnot : ¬ (buf (p + i) = 0x0d ∧ buf (p + i + 1) = 0x0a) :=
          hbefore i (by omega) hlt
        rw [if_neg hnot]
        exact ih (by omega) (by omega) (fun j hj hjk => hbefore j (by omega) hjk)

theorem infix_of_crlfAt {bs : List UInt8} {j : Nat} (hholds : Holds buf p bs)
    (hj : j + 1 < bs.length) (hat : crlfAt buf (p + j)) : crlf <:+: bs := by
  obtain ⟨hcr, hlf⟩ := hat
  have hj₀ := hholds j (by omega)
  have hj₁ := hholds (j + 1) hj
  rw [hcr] at hj₀
  rw [← Nat.add_assoc, hlf] at hj₁
  refine ⟨bs.take j, bs.drop (j + 2), ?_⟩
  have hdrop : bs.drop j = 0x0d :: 0x0a :: bs.drop (j + 2) := by
    rw [List.drop_eq_getElem_cons (by omega), List.drop_eq_getElem_cons hj, ← hj₀, ← hj₁]
  rw [List.append_assoc]
  change bs.take j ++ 0x0d :: 0x0a :: bs.drop (j + 2) = bs
  rw [← hdrop]
  exact List.take_append_drop j bs

/-- A scan over a line that contains no CR LF stops where the line ends. -/
theorem findCrlf_line {line : List UInt8} {len : Int} (hline : Holds buf p (line ++ crlf))
    (hnone : ¬ crlf <:+: line) (hlen : (line.length : Int) < len) :
    findCrlf buf p len = line.length := by
  obtain ⟨hbytes, hend⟩ := holds_append.mp hline
  have hcr : buf (p + line.length) = 0x0d := hend 0 (by decide)
  have hlf : buf (p + line.length + 1) = 0x0a := hend 1 (by decide)
  apply findCrlfFrom_eq (by omega) (by omega) _ ⟨hcr, hlf⟩
  intro j _ hj hat
  by_cases hlast : j + 1 < line.length
  · exact hnone (infix_of_crlfAt hbytes hlast hat)
  · have hjlf := hat.2
    rw [Nat.add_assoc, show j + 1 = line.length by omega, hcr] at hjlf
    exact absurd hjlf (by decide)

theorem cString_holds {bs : List UInt8} (hholds : Holds buf p bs) (hnul : 0 ∉ bs) :
    cString buf p bs.length = bs := by
  induction bs generalizing p with
  | nil => rfl
  | cons b bs ih =>
      obtain ⟨hfirst, hrest⟩ := holds_cons.mp hholds
      have hb : b ≠ 0 := fun heq => hnul (by simp [heq])
      rw [List.length_cons, cString, hfirst, if_neg hb,
        ih hrest (fun hmem => hnul (by simp [hmem]))]

theorem decimal_no_crlf (n : Nat) : ¬ crlf <:+: decimal n := by
  intro hinfix
  have hcr : (0x0d : UInt8) ∈ decimal n := hinfix.subset (by simp [crlf])
  exact (digit_ne (isDigit_of_mem_decimal hcr)).2.1 rfl

theorem decimal_no_nul (n : Nat) : 0 ∉ decimal n := fun hmem =>
  (digit_ne (isDigit_of_mem_decimal hmem)).1 rfl

/-- One line with a number: the scan stops at its end, and between the start of
the line and the NUL stored there stands the number. -/
theorem numberLine {n : Nat} {rest : List UInt8} {len : Int}
    (hholds : Holds buf p (decimal n ++ crlf ++ rest))
    (hlen : ((decimal n).length : Int) < len) :
    findCrlf buf p len = (decimal n).length ∧
      cString (Function.update buf (p + (decimal n).length) 0) p (decimal n).length =
        decimal n ∧
      Holds (Function.update buf (p + (decimal n).length) 0)
        (p + (decimal n).length + 2) rest := by
  obtain ⟨hline, hrest⟩ := holds_append.mp hholds
  refine ⟨findCrlf_line hline (decimal_no_crlf n) hlen, ?_, ?_⟩
  · apply cString_holds _ (decimal_no_nul n)
    intro i hi
    rw [Function.update_of_ne (by omega)]
    exact (holds_append.mp hline).1 i hi
  · have hrest' : Holds buf (p + (decimal n).length + 2) rest := by
      rw [List.length_append, ← Nat.add_assoc] at hrest
      exact hrest
    exact hrest'.update 0 (by omega)

end Buffer

/-- The command field after a name has been copied into it. -/
def namedCmd (name : List UInt8) (cmd : CmdChars) : CmdChars :=
  Vector.ofFn (fun i => if h : i.val < name.length then name[i.val] else cmd[i])

section Parse

variable {buf : Bytes} {p : Nat} {len : Int32}

theorem copyCmd_holds {name : List UInt8} (hname : Holds buf p name) (cmd : CmdChars) :
    copyCmd buf p name.length cmd = namedCmd name cmd := by
  unfold copyCmd namedCmd
  congr 1
  funext i
  by_cases hi : i.val < name.length
  · simp [hi, hname i.val hi]
  · simp [hi]

theorem parseName_holds {name rest : List UInt8} {len : Int} {cmdLen : Int32}
    (hname : name.length ≤ 32) (hcrlf : ¬ crlf <:+: name) (pstRdsCmd : RedisCmd)
    (hholds : Holds buf p (name ++ crlf ++ rest)) (hlen : (name.length : Int) < len)
    (hcmdLen : cmdLen.toInt = name.length) :
    parseName buf p len cmdLen pstRdsCmd =
      .ok ⟨0, buf, ⟨namedCmd name pstRdsCmd.cmd, 1⟩, name.length⟩ := by
  have hline := (holds_append.mp hholds).1
  have hscan := findCrlf_line hline hcrlf hlen
  have hcopy := copyCmd_holds (holds_append.mp hline).1 pstRdsCmd.cmd
  have hfits : ¬ 32 < name.length := by omega
  simp [parseName, hscan, hlen, hcmdLen, hfits, hcopy]

/-- The first bulk string of a request. -/
theorem parseBulk_holds {name rest : List UInt8} {len : Int} (hname : name ≠ [])
    (hname' : name.length ≤ 32) (hcrlf : ¬ crlf <:+: name) (pstRdsCmd : RedisCmd)
    (hholds : Holds buf p
      (0x24 :: (decimal name.length ++ crlf ++ (name ++ crlf ++ rest))))
    (hlen : len = (0x24 :: (decimal name.length ++ crlf ++ (name ++ crlf ++ rest))).length) :
    ∃ buf', parseBulk buf p len pstRdsCmd =
      .ok ⟨0, buf', ⟨namedCmd name pstRdsCmd.cmd, 1⟩, name.length⟩ := by
  simp only [List.length_cons, List.length_append] at hlen
  have hcrlfLen : crlf.length = 2 := rfl
  rw [hcrlfLen] at hlen
  obtain ⟨hdollar, hline⟩ := holds_cons.mp hholds
  have hscanLen : ((decimal name.length).length : Int) < len - 1 := by omega
  obtain ⟨hscan, hdigits, hrest⟩ := numberLine hline hscanLen
  have hvalue : (atoi (decimal name.length)).toInt = name.length := atoi_decimal (by omega)
  have hpos : 0 < name.length := List.length_pos_iff.mpr hname
  have hnonzero : atoi (decimal name.length) ≠ 0 := by
    intro hzero
    rw [hzero] at hvalue
    change (0 : Int) = name.length at hvalue
    omega
  have hlong : ¬ len - 1 < ((decimal name.length).length : Int) + 2 := by omega
  have hleft : (name.length : Int) < len - 1 - (decimal name.length).length - 2 := by omega
  have hparsed := parseName_holds hname' hcrlf pstRdsCmd hrest hleft hvalue
  refine ⟨Function.update buf (p + 1 + (decimal name.length).length) 0, ?_⟩
  simp only [parseBulk, hdollar, hscan, hdigits, ne_eq, not_true_eq_false, if_false]
  rw [if_neg (by simp [hlong, hnonzero])]
  exact hparsed

/-- `redis_cmd_parse` on a request: the element count `n`, the name as a bulk
string, and anything behind it. -/
theorem redisCmdParse_request {n : Nat} {name rest : List UInt8} (hn : 1 ≤ n)
    (hn' : n < 2 ^ 31) (hname : name ≠ []) (hname' : name.length ≤ 32)
    (hcrlf : ¬ crlf <:+: name) (pstRdsCmd : RedisCmd)
    (hholds : Holds buf p (0x2a :: (decimal n ++ crlf ++
      0x24 :: (decimal name.length ++ crlf ++ (name ++ crlf ++ rest)))))
    (hlen : len.toInt = (0x2a :: (decimal n ++ crlf ++
      0x24 :: (decimal name.length ++ crlf ++ (name ++ crlf ++ rest)))).length) :
    ∃ buf', redisCmdParse buf p len pstRdsCmd =
      .ok ⟨0, buf', ⟨namedCmd name pstRdsCmd.cmd, 1⟩, name.length⟩ := by
  rw [List.length_cons, List.length_append, List.length_append] at hlen
  have hcrlfLen : crlf.length = 2 := rfl
  rw [hcrlfLen] at hlen
  obtain ⟨hstar, hline⟩ := holds_cons.mp hholds
  have hscanLen : ((decimal n).length : Int) < len.toInt - 1 := by omega
  obtain ⟨hscan, hdigits, hrest⟩ := numberLine hline hscanLen
  have hnonzero : (atoi (decimal n)).toUInt32 ≠ 0 := by
    intro hzero
    have hvalue := atoi_decimal hn'
    rw [← Int32.toInt32_toUInt32 (atoi (decimal n)), hzero] at hvalue
    change (0 : Int) = n at hvalue
    omega
  have hlong : ¬ len.toInt - 1 < ((decimal n).length : Int) + 2 := by
    rw [List.length_cons] at hlen
    omega
  have hrestLen : len.toInt - 1 - (decimal n).length - 2 =
      (0x24 :: (decimal name.length ++ crlf ++ (name ++ crlf ++ rest))).length := by
    omega
  obtain ⟨buf', hparsed⟩ := parseBulk_holds hname hname' hcrlf pstRdsCmd hrest hrestLen
  refine ⟨buf', ?_⟩
  simp only [redisCmdParse, hstar, hscan, hdigits, ne_eq, not_true_eq_false, if_false]
  rw [if_neg (by simp [hlong, hnonzero])]
  exact hparsed

end Parse

def bulkString (s : List UInt8) : List UInt8 :=
  0x24 :: (decimal s.length ++ crlf ++ (s ++ crlf))

/-- An array of bulk strings, the shape of every request. -/
def respArray (elements : List (List UInt8)) : List UInt8 :=
  0x2a :: (decimal elements.length ++ crlf ++ elements.flatMap bulkString)

/-- A command a client may send: its name and the other elements of the array. -/
structure Command where
  name : List UInt8
  args : List (List UInt8)
  name_pos : name ≠ []
  name_le : name.length ≤ 31
  name_nul : 0 ∉ name
  name_crlf : ¬ crlf <:+: name
  count_lt : args.length + 1 < 2 ^ 31
  arg_lt : ∀ arg ∈ args, arg.length < 2 ^ 31

def Command.bytes (c : Command) : List UInt8 := respArray (c.name :: c.args)

/-- A name as the table stores it. -/
def storedName (name : List UInt8) : CmdChars :=
  Vector.ofFn (fun i => name.getD i.val 0)

section Requests

theorem respArray_ne_nil (elements : List (List UInt8)) : respArray elements ≠ [] := by
  simp [respArray]

/-- Every bulk string takes at least one byte. -/
theorem length_flatMap_bulkString (args : List (List UInt8)) :
    args.length ≤ (args.flatMap bulkString).length := by
  induction args with
  | nil => exact Nat.le_refl 0
  | cons arg args ih =>
      simp only [List.flatMap_cons, List.length_append, List.length_cons, bulkString]
      omega

theorem respArray_cons (name : List UInt8) (args : List (List UInt8)) :
    respArray (name :: args) = 0x2a :: (decimal (args.length + 1) ++ crlf ++
      0x24 :: (decimal name.length ++ crlf ++
        (name ++ crlf ++ args.flatMap bulkString))) := by
  simp [respArray, bulkString]

theorem namedCmd_zero (name : List UInt8) {i : Nat} (hi : i < 32) :
    (namedCmd name (0 : RedisCmd).cmd)[i] = name.getD i 0 := by
  have hzero : (0 : RedisCmd).cmd[i] = 0 := by
    change (Vector.replicate 32 (0 : UInt8))[i] = 0
    simp
  by_cases hlt : i < name.length
  · simp [namedCmd, hlt]
  · simp [namedCmd, hlt, hzero]

/-- What `strncpy` makes of a copied name without NULs. -/
theorem strncpy_namedCmd {name : List UInt8} (hnul : 0 ∉ name) :
    strncpy (namedCmd name (0 : RedisCmd).cmd) = storedName name := by
  apply Vector.ext
  intro i hi
  rw [strncpy, storedName, Vector.getElem_ofFn, Vector.getElem_ofFn]
  simp only [Fin.getElem_fin, namedCmd_zero]
  split
  · next hnulBefore =>
      obtain ⟨j, hji, hj⟩ := hnulBefore
      have hend : name.length ≤ j.val := by
        by_contra hinside
        have hlt : j.val < name.length := by omega
        rw [List.getD_eq_getElem _ _ hlt] at hj
        exact hnul (hj ▸ List.getElem_mem hlt)
      have hle : j.val ≤ i := hji
      rw [List.getD_eq_default _ _ (by omega : name.length ≤ i)]
  · rfl

variable {f : Frame} {src dst : Endpoint} {name : List UInt8} {args : List (List UInt8)}

/-- A frame with a request parses to the name of its command. -/
theorem parsed_request (hf : f.Delivers src dst (respArray (name :: args)))
    (hname : name ≠ []) (hname' : name.length ≤ 32) (hcrlf : ¬ crlf <:+: name) :
    ∃ buf', f.parsed =
      .ok ⟨0, buf', ⟨namedCmd name (0 : RedisCmd).cmd, 1⟩, name.length⟩ := by
  have hholds : Holds f.rbuf f.decoded.2.dataptr (respArray (name :: args)) := hf.data
  have hlen := hf.len_eq
  have hcount : args.length + 1 < 2 ^ 31 := by
    have hshort := length_flatMap_bulkString args
    have hmax := f.decoded.2.uidatalen.toInt32.toInt_lt
    rw [hlen, respArray_cons] at hmax
    simp only [List.length_cons, List.length_append] at hmax
    omega
  unfold Frame.parsed
  rw [respArray_cons] at hholds hlen
  exact redisCmdParse_request (by omega) hcount hname hname' hcrlf 0 hholds hlen

theorem command_request (hf : f.Delivers src dst (respArray (name :: args)))
    (hname : name ≠ []) (hname' : name.length ≤ 32) (hnul : 0 ∉ name)
    (hcrlf : ¬ crlf <:+: name) : f.command = some (storedName name) := by
  obtain ⟨buf', hparsed⟩ := parsed_request hf hname hname' hcrlf
  simp [Frame.command, hparsed, strncpy_namedCmd hnul]

end Requests

end RedisTrace
