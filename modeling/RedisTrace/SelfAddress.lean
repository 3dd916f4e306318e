import Mathlib.Algebra.Group.Int.Defs
import Mathlib.Algebra.Group.Nat.Defs
import RedisTrace.Library.Occurrences

/-!
The check of `main.c` that the address on the command line is one of the
machine's own: the text printed by `ip addr` is read into a buffer and searched
for the address. Strings are the bytes from their pointer to the end of the
memory they lie in; a function that reads beyond has no result.
-/

namespace RedisTrace

open Occurrences

/-- The conversion of a `size_t`, or of an `int` result, to `int`. -/
def asInt (n : Int) : Int := n.bmod (2 ^ 32)

/-- The conversion of an `int` to `size_t`. -/
def asSize (n : Int) : Nat := (n % 2 ^ 64).toNat

def strlen : List UInt8 → Option Nat
  | [] => none
  | c :: rest => if c = 0 then some 0 else (strlen rest).map (· + 1)

/-- The difference of the first two bytes that differ among the first `n`. -/
def strncmp : List UInt8 → List UInt8 → Nat → Option Int
  | _, _, 0 => some 0
  | a :: as, b :: bs, n + 1 =>
      if a ≠ b then some ((a.toNat : Int) - b.toNat)
      else if a = 0 then some 0
      else strncmp as bs n
  | _, _, _ + 1 => none

/-- `for(i ; i< offset; i++)`, with `p` moving along. -/
def findStrLoop (sub : List UInt8) (sublen : Int) : Nat → Nat → List UInt8 → Option Int
  | 0, _, _ => some (-1)
  | rounds + 1, i, p => do
      let differ ← strncmp p sub (asSize sublen)
      if differ = 0 then
        return i + 1
      else
        findStrLoop sub sublen rounds (i + 1) p.tail

/-- The part of `find_str` behind the two calls of `strlen`. -/
def findStrFrom (str sub : List UInt8) (slen sublen : Int) : Option Int :=
  if asInt (slen - sublen) < 0 then some (-1)
  else findStrLoop sub sublen (asInt (slen - sublen)).toNat 0 str

def findStr (str sub : List UInt8) : Option Int := do
  let slen ← strlen str
  let sublen ← strlen sub
  findStrFrom str sub (asInt slen) (asInt sublen)

/-- `sizeof(szbuf)`. -/
abbrev sizeofSzbuf : Nat := 2048

/-- `fread` into the zeroed `szbuf`. -/
def fread (text : List UInt8) : List UInt8 :=
  text.take sizeofSzbuf ++ List.replicate (sizeofSzbuf - text.length) 0

/-- `fp` is what `popen` answers: NULL, or the text of the command. -/
def checkSelfVip (fp : Option (List UInt8)) (vip : List UInt8) : Option Int :=
  let szbuf := match fp with
    | none => List.replicate sizeofSzbuf 0
    | some text => fread text
  if szbuf.head? ≠ some 0 then findStr szbuf vip
  else some (-1)

/-- The string at the head of the memory: its characters, and a NUL. -/
def IsString (mem chars : List UInt8) : Prop := 0 ∉ chars ∧ chars ++ [0] <+: mem

section Strings

variable {mem mem' chars chars' : List UInt8}

theorem IsString.cons_inv {c : UInt8} (hs : IsString mem (c :: chars)) :
    ∃ rest, mem = c :: rest ∧ c ≠ 0 ∧ IsString rest chars := by
  obtain ⟨hzero, after, rfl⟩ := hs
  simp only [List.mem_cons, not_or] at hzero
  exact ⟨chars ++ [0] ++ after, rfl, fun heq => hzero.1 heq.symm, hzero.2, after, rfl⟩

theorem IsString.nil_inv (hs : IsString mem []) : ∃ rest, mem = 0 :: rest := by
  obtain ⟨_, rest, rfl⟩ := hs
  exact ⟨rest, rfl⟩

theorem IsString.drop (hs : IsString mem chars) {i : Nat} (hi : i ≤ chars.length) :
    IsString (mem.drop i) (chars.drop i) := by
  obtain ⟨hzero, rest, rfl⟩ := hs
  refine ⟨fun hmem => hzero (List.mem_of_mem_drop hmem), rest, ?_⟩
  rw [List.append_assoc, List.append_assoc, List.drop_append_of_le_length hi]

theorem strlen_run (hs : IsString mem chars) : strlen mem = some chars.length := by
  induction chars generalizing mem with
  | nil =>
      obtain ⟨rest, rfl⟩ := hs.nil_inv
      simp [strlen]
  | cons c chars ih =>
      obtain ⟨rest, rfl, hc, hrest⟩ := hs.cons_inv
      simp [strlen, hc, ih hrest]

/-- A buffer without a NUL has no length. -/
theorem strlen_eq_none (hzero : 0 ∉ mem) : strlen mem = none := by
  induction mem with
  | nil => rfl
  | cons c rest ih =>
      simp only [List.mem_cons, not_or] at hzero
      have hc : c ≠ 0 := fun heq => hzero.1 heq.symm
      simp [strlen, hc, ih hzero.2]

/-- Comparing as many bytes as the second string has asks whether it stands at
the front of the first. -/
theorem strncmp_run (hs : IsString mem chars) (hs' : IsString mem' chars') :
    ∃ differ, strncmp mem mem' chars'.length = some differ ∧
      (differ = 0 ↔ chars' <+: chars) := by
  induction chars' generalizing mem mem' chars with
  | nil => exact ⟨0, by simp [strncmp], by simp⟩
  | cons b chars' ih =>
      obtain ⟨rest', rfl, hb, hrest'⟩ := hs'.cons_inv
      cases chars with
      | nil =>
          obtain ⟨rest, rfl⟩ := hs.nil_inv
          have hbpos : b.toNat ≠ 0 := fun heq => hb (UInt8.toNat_inj.mp heq)
          refine ⟨((0 : UInt8).toNat : Int) - b.toNat, ?_, ?_⟩
          · simp [strncmp, hb.symm]
          · simp [hbpos]
      | cons a chars =>
          obtain ⟨rest, rfl, ha, hrest⟩ := hs.cons_inv
          rcases eq_or_ne a b with rfl | hab
          · obtain ⟨differ, hrun, hiff⟩ := ih hrest hrest'
            refine ⟨differ, ?_, ?_⟩
            · simpa [strncmp, ha] using hrun
            · simpa [List.cons_prefix_cons] using hiff
          · refine ⟨(a.toNat : Int) - b.toNat, by simp [strncmp, hab], ?_⟩
            have hne : a.toNat ≠ b.toNat := fun heq => hab (UInt8.toNat_inj.mp heq)
            simp [List.cons_prefix_cons, hab.symm]
            omega

end Strings

section Find

variable {mem mem' str sub : List UInt8}

theorem asInt_eq {n : Int} (hlow : -2 ^ 31 ≤ n) (hhigh : n < 2 ^ 31) : asInt n = n := by
  unfold asInt
  apply Int.bmod_eq_of_le <;> omega

/-- The answer of the search for the first position it stopped at, if any. -/
def foundAt : Option Nat → Int
  | some i => i + 1
  | none => -1

/-- From position `i` on the loop finds the first occurrence among the positions
it still has to try. -/
theorem findStrLoop_run (hs : IsString mem str) (hs' : IsString mem' sub)
    (hsub : sub.length < 2 ^ 31) (rounds i : Nat) (hbound : i + rounds ≤ str.length) :
    findStrLoop mem' sub.length rounds i (mem.drop i) =
      some (foundAt ((List.range' i rounds).find? (fun j => OccursAt sub str j))) := by
  have hsize : asSize sub.length = sub.length := by
    unfold asSize
    omega
  induction rounds generalizing i with
  | zero => simp [findStrLoop, foundAt]
  | succ rounds ih =>
      obtain ⟨differ, hrun, hiff⟩ := strncmp_run (hs.drop (i := i) (by omega)) hs'
      have htail : (mem.drop i).tail = mem.drop (i + 1) := by rw [List.tail_drop]
      by_cases hocc : OccursAt sub str i
      · have hzero : differ = 0 := hiff.mpr hocc
        simp [findStrLoop, hsize, hrun, hzero, List.range'_succ, hocc, foundAt]
      · have hzero : differ ≠ 0 := fun heq => hocc (hiff.mp heq)
        have hrest := ih (i + 1) (by omega)
        simp [findStrLoop, hsize, hrun, hzero, List.range'_succ, hocc, htail, hrest]

/-- `find_str` looks at every position but the last at which `sub` could stand. -/
theorem findStr_run (hs : IsString mem str) (hs' : IsString mem' sub)
    (hstr : str.length < 2 ^ 31) (hsub : sub.length < 2 ^ 31) :
    findStr mem mem' = some (foundAt (firstBelow sub str (str.length - sub.length))) := by
  have hslen : asInt str.length = str.length := asInt_eq (by omega) (by omega)
  have hsublen : asInt sub.length = sub.length := asInt_eq (by omega) (by omega)
  have hoffset : asInt ((str.length : Int) - sub.length) = str.length - sub.length :=
    asInt_eq (by omega) (by omega)
  have hfind : findStr mem mem' = findStrFrom mem mem' str.length sub.length := by
    change ((strlen mem).bind fun slen => (strlen mem').bind fun sublen =>
      findStrFrom mem mem' (asInt slen) (asInt sublen)) = _
    rw [strlen_run hs, strlen_run hs', Option.bind_some, Option.bind_some, hslen, hsublen]
  rw [hfind, findStrFrom, hoffset]
  split
  · next hlt =>
      have hrange : str.length - sub.length = 0 := by omega
      rw [hrange]
      rfl
  · next hle =>
      have hrounds : ((str.length : Int) - sub.length).toNat = str.length - sub.length := by
        omega
      have hloop := findStrLoop_run hs hs' hsub (str.length - sub.length) 0 (by omega)
      rw [hrounds, firstBelow, List.range_eq_range']
      exact hloop

/-- Exact substring search: the least position, counted from 1, and -1 exactly
when there is none. -/
def FindsExactly (answer : Option Int) (str sub : List UInt8) : Prop :=
  (∀ i, IsLeast {i | OccursAt sub str i} i → answer = some ((i : Int) + 1)) ∧
    ((∀ i, ¬ OccursAt sub str i) ↔ answer = some (-1))

theorem foundAt_eq_iff (found : Option Nat) (i : Nat) : foundAt found = i + 1 ↔ found = some i := by
  cases found with
  | none =>
      simp only [foundAt, reduceCtorEq, iff_false]
      omega
  | some j =>
      simp only [foundAt, Option.some.injEq]
      omega

theorem foundAt_eq_neg_iff (found : Option Nat) : foundAt found = -1 ↔ found = none := by
  cases found with
  | none => simp [foundAt]
  | some j =>
      simp only [foundAt, reduceCtorEq, iff_false]
      omega

/-- `find_str` is exact unless the string it looks for stands at the very end of
the other and nowhere before. -/
theorem findStr_exact_iff (hs : IsString mem str) (hs' : IsString mem' sub) (hne : sub ≠ [])
    (hstr : str.length < 2 ^ 31) (hsub : sub.length < 2 ^ 31) :
    FindsExactly (findStr mem mem') str sub ↔
      (sub <:+ str → ∃ i, OccursAt sub str i ∧ i + sub.length < str.length) := by
  rw [← firstBelow_exact_iff hne, findStr_run hs hs' hstr hsub]
  simp only [FindsExactly, Option.some.injEq, foundAt_eq_iff, foundAt_eq_neg_iff]

/-- `a` in `ab`. -/
theorem findStr_exact_front : FindsExactly (findStr [97, 98, 0] [97, 0]) [97, 98] [97] := by
  have hstr : IsString [97, 98, 0] [97, 98] := ⟨by decide, by decide⟩
  have hsub : IsString [97, 0] [97] := ⟨by decide, by decide⟩
  apply (findStr_exact_iff hstr hsub (by decide) (by decide) (by decide)).mpr
  intro _
  exact ⟨0, by decide, by decide⟩

/-- `b` in `ab` is not found. -/
theorem findStr_misses_end : ¬ FindsExactly (findStr [97, 98, 0] [98, 0]) [97, 98] [98] := by
  rintro ⟨hleast, -⟩
  have hsecond : IsLeast {i | OccursAt [98] ([97, 98] : List UInt8) i} 1 := by
    refine ⟨by decide, ?_⟩
    intro i hi
    apply Nat.one_le_iff_ne_zero.mpr
    rintro rfl
    revert hi
    decide
  have hrun : findStr [97, 98, 0] [98, 0] = some (-1) := by decide
  have hanswer := hleast 1 hsecond
  rw [hrun] at hanswer
  revert hanswer
  decide

end Find

section Check

variable {text mem vip : List UInt8}

/-- A digit or a dot. -/
def IsAddressChar (c : UInt8) : Prop := (48 ≤ c ∧ c ≤ 57) ∨ c = 46

/-- The address stands in the text, and neither a digit nor a dot comes directly
before or behind it. -/
def WholeAddress (text vip : List UInt8) : Prop :=
  ∃ before after, text = before ++ vip ++ after ∧
    (∀ c, before.getLast? = some c → ¬ IsAddressChar c) ∧
    ∀ c, after.head? = some c → ¬ IsAddressChar c

/-- The address stands in the text, and something comes behind it. -/
def StandsInside (text vip : List UInt8) : Prop :=
  ∃ i, OccursAt vip text i ∧ i + vip.length < text.length

/-- The address stands in the text with something behind it, but only as a part
of longer ones. -/
def OnlyAsPart (text vip : List UInt8) : Prop := StandsInside text vip ∧ ¬ WholeAddress text vip

/-- The address stands whole in the text, but nowhere except at its very end. -/
def OnlyAtEnd (text vip : List UInt8) : Prop := WholeAddress text vip ∧ ¬ StandsInside text vip

/-- The check has an answer, and lets exactly the addresses in the text pass. -/
def ChecksSelf (text mem vip : List UInt8) : Prop :=
  ∃ answer, checkSelfVip (some text) mem = some answer ∧
    (answer ≠ -1 ↔ WholeAddress text vip)

/-- A text that fills the buffer leaves no room for a NUL. -/
theorem checkSelfVip_long (htext : 0 ∉ text) (hlong : sizeofSzbuf ≤ text.length) :
    checkSelfVip (some text) mem = none := by
  have hbuf : fread text = text.take sizeofSzbuf := by
    simp [fread, Nat.sub_eq_zero_of_le hlong]
  have hzero : 0 ∉ fread text := by
    rw [hbuf]
    exact fun hmem => htext (List.mem_of_mem_take hmem)
  have hhead : (fread text).head? ≠ some 0 := fun heq => hzero (List.mem_of_mem_head? heq)
  simp [checkSelfVip, hhead, findStr, strlen_eq_none hzero]

theorem isString_fread (htext : 0 ∉ text) (hshort : text.length < sizeofSzbuf) :
    IsString (fread text) text := by
  obtain ⟨n, hn⟩ : ∃ n, sizeofSzbuf - text.length = n + 1 :=
    ⟨sizeofSzbuf - text.length - 1, by omega⟩
  refine ⟨htext, List.replicate n 0, ?_⟩
  rw [fread, List.take_of_length_le hshort.le, hn, List.replicate_succ]
  simp

/-- A shorter text is searched as it is. -/
theorem checkSelfVip_short (htext : 0 ∉ text) (hshort : text.length < sizeofSzbuf)
    (hvip : IsString mem vip) (hlen : vip.length < 2 ^ 31) :
    checkSelfVip (some text) mem =
      some (foundAt (firstBelow vip text (text.length - vip.length))) := by
  cases text with
  | nil =>
      have hhead : (fread []).head? = some 0 := rfl
      have hrange : ([] : List UInt8).length - vip.length = 0 := Nat.zero_sub _
      rw [checkSelfVip, hrange]
      simp [hhead, firstBelow, foundAt]
  | cons c rest =>
      have hc : c ≠ 0 := fun heq => htext (by simp [heq])
      have hhead : (fread (c :: rest)).head? ≠ some 0 := by
        simpa [fread] using hc
      have hlt : (c :: rest).length < 2 ^ 31 := Nat.lt_trans hshort (by decide)
      have hrun := findStr_run (isString_fread htext hshort) hvip hlt hlen
      simp only [checkSelfVip, hhead, hrun, ne_eq, not_false_eq_true, if_true]

theorem standsInside_iff :
    StandsInside text vip ↔ firstBelow vip text (text.length - vip.length) ≠ none := by
  rw [ne_eq, firstBelow_eq_none_iff]
  push Not
  constructor
  · rintro ⟨i, hocc, hlt⟩
    exact ⟨i, by omega, hocc⟩
  · rintro ⟨i, hlt, hocc⟩
    exact ⟨i, hocc, by omega⟩

/-- The check is right for the texts that fit into the buffer with their NUL,
save two kinds: those in which the address stands only as a part of longer
ones, and those at the very end of which it stands alone. -/
theorem checkSelfVip_right_iff (htext : 0 ∉ text) (hvip : IsString mem vip)
    (hlen : vip.length < 2 ^ 31) :
    ChecksSelf text mem vip ↔
      text.length < sizeofSzbuf ∧ ¬ OnlyAsPart text vip ∧ ¬ OnlyAtEnd text vip := by
  rcases Nat.lt_or_ge text.length sizeofSzbuf with hshort | hlong
  · have hrun := checkSelfVip_short htext hshort hvip hlen
    have hanswer : ChecksSelf text mem vip ↔
        (StandsInside text vip ↔ WholeAddress text vip) := by
      rw [standsInside_iff, ChecksSelf, hrun, ne_eq, ← foundAt_eq_neg_iff]
      simp
    rw [hanswer, OnlyAsPart, OnlyAtEnd]
    tauto
  · have hrun : checkSelfVip (some text) mem = none := checkSelfVip_long htext hlong
    constructor
    · rintro ⟨answer, hsome, -⟩
      rw [hrun] at hsome
      cases hsome
    · rintro ⟨hshort, -⟩
      exact absurd hshort (Nat.not_lt.mpr hlong)

/-- `10.0.0.1`. -/
def oneAddress : List UInt8 := [49, 48, 46, 48, 46, 48, 46, 49]

/-- In `inet 10.0.0.1/8` the address passes. -/
theorem checkSelfVip_right_listed :
    ChecksSelf ([105, 110, 101, 116, 32] ++ oneAddress ++ [47, 56, 10]) (oneAddress ++ [0])
      oneAddress := by
  apply (checkSelfVip_right_iff (by decide) ⟨by decide, List.prefix_refl _⟩ (by decide)).mpr
  refine ⟨by decide, ?_, ?_⟩
  · rintro ⟨-, hpart⟩
    apply hpart
    refine ⟨_, _, rfl, ?_, ?_⟩
    · rintro c ⟨⟩
      simp [IsAddressChar]
    · rintro c ⟨⟩
      simp [IsAddressChar]
  · rintro ⟨-, hend⟩
    exact hend ⟨5, by decide, by decide⟩

/-- The machine has the address `10.0.0.10`, and `10.0.0.1` passes for it. -/
theorem checkSelfVip_part_passes :
    ¬ ChecksSelf (oneAddress ++ [48, 10]) (oneAddress ++ [0]) oneAddress := by
  rintro ⟨answer, hrun, hiff⟩
  have hfound : checkSelfVip (some (oneAddress ++ [48, 10])) (oneAddress ++ [0]) = some 1 := by
    decide
  rw [hfound] at hrun
  cases hrun
  obtain ⟨before, after, htext, -, hbehind⟩ := hiff.mp (by decide)
  have hlength := congrArg List.length htext
  simp only [List.length_append, oneAddress, List.length_cons, List.length_nil] at hlength
  match before with
  | [] =>
      have hafter : [48, 10] = after := by simpa [oneAddress] using htext
      subst hafter
      exact hbehind 48 rfl (by simp [IsAddressChar])
  | [a] => simp [oneAddress] at htext
  | [a, b] => simp [oneAddress] at htext
  | a :: b :: c :: rest =>
      simp only [List.length_cons] at hlength
      omega

end Check

end RedisTrace
