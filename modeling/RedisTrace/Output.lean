import RedisTrace.Exchanges
import RedisTrace.Library.Blocks
import RedisTrace.NameBuffers
import RedisTrace.SelfAddress

/-!
What the program prints: a line for each report, and the hex dumps of
`pkt_dump`. A line is read back from its end, where the numbers are, so it has
only one meaning; the lines of a text can be told apart as long as no command
name has a line feed in it.
-/

namespace RedisTrace

open Blocks CircularList Machine

/-- A string of the source, as bytes. -/
def ascii (s : String) : List UInt8 := s.toList.map Char.toUInt8

/-- What `%s` prints of the memory at its argument. -/
def printString (mem : List UInt8) : Option (List UInt8) :=
  (strlen mem).map (fun n => mem.take n)

/-- The memory of an item from its name on; there is no padding. -/
def PortVHashItem.cmdBytes (item : PortVHashItem) : List UInt8 :=
  item.cmd.toList ++ item.stPortItem.bytes

/-- The arguments of `printf` in `pkt_recv`, with the string for its pointer. -/
structure Line where
  cmd : List UInt8
  ulq : UInt64
  ula : UInt64
  deriving DecidableEq, Repr

namespace Line

/-- The line before its line feed. -/
def body (l : Line) : List UInt8 :=
  ascii "redis cmd " ++ l.cmd ++ ascii " r " ++ decimal l.ulq.toNat ++ ascii " a " ++
    decimal l.ula.toNat ++ ascii " es " ++ decimal (l.ula - l.ulq).toNat

def text (l : Line) : List UInt8 := l.body ++ ascii "\n"

/-- The lines that end where their text first has a line feed. -/
def plain : Set Line := {l | 0x0a ∉ l.cmd}

end Line

/-- A name that is not terminated runs on into the 4-tuple. -/
def Report.line (r : Report) : Option Line :=
  (printString r.item.cmdBytes).map (fun cmd => ⟨cmd, r.ulq, r.ula⟩)

/-- Everything a run prints, unless it reads beyond an item. -/
def printed (outs : List (Option Report)) : Option (List UInt8) :=
  (outs.reduceOption.mapM Report.line).map (fun lines => lines.flatMap Line.text)

section Lines

variable {l l' : Line} {lines lines' : List Line}

theorem decimal_injective : Function.Injective decimal := by
  intro n n' heq
  rw [← digitsValue_decimal n, heq, digitsValue_decimal]

/-- The number at the end of a text is all that follows the last blank. -/
theorem split_number {x x' label : List UInt8} {n n' : Nat}
    (heq : x ++ (label ++ [0x20]) ++ decimal n = x' ++ (label ++ [0x20]) ++ decimal n') :
    x = x' ∧ n = n' := by
  have hblank : ∀ n, (0x20 : UInt8) ∉ decimal n := by
    intro n hmem
    exact absurd (isDigit_of_mem_decimal hmem) (by decide)
  have hlast : (x ++ label) ++ 0x20 :: decimal n = (x' ++ label) ++ 0x20 :: decimal n' := by
    simpa using heq
  obtain ⟨hfront, hnumber⟩ := split_last (hblank n) (hblank n') hlast
  exact ⟨List.append_cancel_right hfront, decimal_injective hnumber⟩

/-- A line determines its arguments, whatever is in the name. -/
theorem body_injective : Function.Injective Line.body := by
  intro l l' heq
  have hr : ascii " r " = ascii " r" ++ [0x20] := by decide
  have ha : ascii " a " = ascii " a" ++ [0x20] := by decide
  have hes : ascii " es " = ascii " es" ++ [0x20] := by decide
  unfold Line.body at heq
  rw [hes, ha, hr] at heq
  obtain ⟨heq, _⟩ := split_number heq
  obtain ⟨heq, hula⟩ := split_number heq
  obtain ⟨heq, hulq⟩ := split_number heq
  have hcmd := List.append_cancel_left heq
  cases l
  cases l'
  rw [Line.mk.injEq]
  exact ⟨hcmd, UInt64.toNat_inj.mp hulq, UInt64.toNat_inj.mp hula⟩

theorem lineFeed_notMem_body (hplain : l ∈ Line.plain) : 0x0a ∉ l.body := by
  have hdecimal : ∀ n, (0x0a : UInt8) ∉ decimal n := by
    intro n hmem
    exact absurd (isDigit_of_mem_decimal hmem) (by decide)
  have hlabels : (0x0a : UInt8) ∉ ascii "redis cmd " ∧ (0x0a : UInt8) ∉ ascii " r " ∧
      (0x0a : UInt8) ∉ ascii " a " ∧ (0x0a : UInt8) ∉ ascii " es " := by decide
  obtain ⟨hredis, hr, ha, hes⟩ := hlabels
  have hcmd : (0x0a : UInt8) ∉ l.cmd := hplain
  unfold Line.body
  simp only [List.mem_append, hredis, hr, ha, hes, hdecimal, hcmd, or_self, not_false_eq_true]

theorem text_prefixFree : PrefixFree Line.text Line.plain :=
  prefixFree_of_stop (fun _ hplain => lineFeed_notMem_body hplain) body_injective.injOn

theorem text_ne_nil (l : Line) : l.text ≠ [] := by
  simp [Line.text, ascii]

/-- Plain lines can be told apart. -/
theorem texts_inj (hplain : ∀ l ∈ lines, l ∈ Line.plain)
    (hplain' : ∀ l ∈ lines', l ∈ Line.plain) :
    lines.flatMap Line.text = lines'.flatMap Line.text ↔ lines = lines' :=
  ⟨text_prefixFree.flatMap_inj (fun l _ => text_ne_nil l) hplain hplain', congrArg _⟩

/-- Each plain line has one line feed. -/
theorem count_lineFeed (hplain : ∀ l ∈ lines, l ∈ Line.plain) :
    (lines.flatMap Line.text).count 0x0a = lines.length := by
  induction lines with
  | nil => rfl
  | cons l lines ih =>
      have hbody := lineFeed_notMem_body (hplain l (by simp))
      have hend : (ascii "\n").count 0x0a = 1 := by decide
      rw [List.flatMap_cons, List.count_append, Line.text, List.count_append,
        List.count_eq_zero_of_not_mem hbody, hend, ih (fun l hl => hplain l (by simp [hl])),
        List.length_cons]
      omega

/-- A name with a line feed can make one line look like any two. -/
theorem forged_text (l l' : Line) :
    (Line.mk (l.cmd ++ ascii " r " ++ decimal l.ulq.toNat ++ ascii " a " ++
        decimal l.ula.toNat ++ ascii " es " ++ decimal (l.ula - l.ulq).toNat ++
        ascii "\nredis cmd " ++ l'.cmd) l'.ulq l'.ula).text = l.text ++ l'.text := by
  have hnext : ascii "\nredis cmd " = ascii "\n" ++ ascii "redis cmd " := by decide
  simp only [Line.text, Line.body, hnext, List.append_assoc]

end Lines

section Names

variable {item : PortVHashItem} {mem chars : List UInt8}

theorem printString_run (hs : IsString mem chars) : printString mem = some chars := by
  have hlength := strlen_run hs
  obtain ⟨_, rest, rfl⟩ := hs
  rw [printString, hlength, Option.map_some, List.append_assoc, List.take_left]

/-- A terminated name is a string in memory. -/
theorem isString_of_terminated (hcmd : Terminated item.cmd) :
    ∃ cmd, IsString item.cmdBytes cmd ∧ cmd <+: item.cmd.toList := by
  have hmem : (0 : UInt8) ∈ item.cmd.toList := by
    obtain ⟨i, hi⟩ := hcmd
    rw [← hi]
    exact Vector.mem_toList_iff.mpr (Vector.getElem_mem i.isLt)
  obtain ⟨cmd, rest, hsplit, hfirst⟩ := List.eq_append_cons_of_mem hmem
  refine ⟨cmd, ⟨hfirst, rest ++ item.stPortItem.bytes, ?_⟩, 0 :: rest, hsplit.symm⟩
  rw [PortVHashItem.cmdBytes, hsplit]
  simp

/-- The line of a terminated name is within the item. -/
theorem line_of_terminated {r : Report} (hcmd : Terminated r.item.cmd) :
    ∃ l, r.line = some l ∧ l.cmd <+: r.item.cmd.toList := by
  obtain ⟨cmd, hs, hfront⟩ := isString_of_terminated hcmd
  refine ⟨⟨cmd, r.ulq, r.ula⟩, ?_, hfront⟩
  rw [Report.line, printString_run hs, Option.map_some]

end Names

section Traces

/-- A command of the frame is a C string without line feeds. -/
def Frame.PlainName (f : Frame) : Prop :=
  ∀ cmd, f.command = some cmd → Terminated cmd ∧ 0x0a ∉ cmd.toList

variable {ip ip' : UInt32} {frames frames' : List Frame} {outs outs' : List (Option Report)}
  {w w' : PortWorld} {P : CmdChars → Prop}

/-- What is known of the commands of all frames is known of all pending ones. -/
theorem slotStep_cmd {f : Frame} {slot : Slot} (hf : ∀ cmd, f.command = some cmd → P cmd)
    (hslot : ∀ q, slot.waiting = some q → P q.cmd) :
    (∀ q, (f.slotStep slot).1.waiting = some q → P q.cmd) ∧
      ∀ r, (f.slotStep slot).2 = some r → P r.item.cmd := by
  cases slot with
  | idle =>
      refine ⟨?_, fun r hr => by cases hr⟩
      intro q hq
      change f.opened.waiting = some q at hq
      unfold Frame.opened at hq
      split at hq
      · next cmd want hcommand hwant =>
          cases hq
          exact hf cmd hcommand
      · cases hq
  | pending key cmd sec uSec =>
      have hcmd : P cmd := hslot ⟨key, cmd, sec, uSec⟩ rfl
      rcases eq_or_ne f.tuple key with hkey | hkey
      · rw [Frame.slotStep_answer hkey]
        refine ⟨(fun q hq => by cases hq), ?_⟩
        intro r hr
        cases hr
        exact hcmd
      · rw [Frame.slotStep_renew hkey]
        refine ⟨?_, fun r hr => by cases hr⟩
        intro q hq
        cases hq
        exact hcmd

/-- Every report names a command of some frame. -/
theorem reported_cmd (hframes : ∀ f ∈ frames, ∀ cmd, f.command = some cmd → P cmd)
    {slots : Conn → Slot} (hslots : ∀ k q, (slots k).waiting = some q → P q.cmd) {r : Report}
    (hr : some r ∈ (run (tracker ip) frames slots).2) : P r.item.cmd := by
  induction frames generalizing slots with
  | nil => cases hr
  | cons f frames ih =>
      have hstep := fun k => slotStep_cmd (hframes f (by simp)) (hslots k)
      have hrest : ∀ k q, ((tracker ip f slots).1 k).waiting = some q → P q.cmd := by
        intro k q hq
        rcases eq_or_ne (f.route ip) (some k) with hroute | hother
        · rw [tracker, family_self slots hroute] at hq
          exact (hstep k).1 q hq
        · rw [tracker, family_elsewhere slots hother] at hq
          exact hslots k q hq
      rcases List.mem_cons.mp hr with hfirst | hlater
      · cases hroute : f.route ip with
        | none =>
            rw [tracker, family_unrouted slots hroute] at hfirst
            cases hfirst
        | some k =>
            rw [tracker, family_answer slots hroute] at hfirst
            exact (hstep k).2 r hfirst.symm
      · exact ih (fun f hf => hframes f (by simp [hf])) hrest hlater

/-- When every report has a line, a run prints these lines. -/
theorem lines_of_reports {reports : List Report} (good : Report → Line → Prop)
    (hreports : ∀ r ∈ reports, ∃ l, r.line = some l ∧ good r l) :
    ∃ lines, reports.mapM Report.line = some lines ∧
      List.Forall₂ (fun r l => r.line = some l ∧ good r l) reports lines := by
  induction reports with
  | nil => exact ⟨[], rfl, .nil⟩
  | cons r reports ih =>
      obtain ⟨l, hline, hgood⟩ := hreports r (by simp)
      obtain ⟨lines, hlines, hall⟩ := ih (fun r hr => hreports r (by simp [hr]))
      exact ⟨l :: lines, by simp [List.mapM_cons, hline, hlines], .cons ⟨hline, hgood⟩ hall⟩

/-- A run whose commands are plain prints a plain line for each report. -/
theorem lines_of_plain
    (hrun : (pktTrace ip frames).run (vhashInit enVHashMoudleMax) = .ok (outs, w))
    (hplain : ∀ f ∈ frames, f.PlainName) :
    ∃ lines, outs.reduceOption.mapM Report.line = some lines ∧
      (∀ l ∈ lines, l ∈ Line.plain) ∧
      outs.reduceOption.map Report.line = lines.map some := by
  obtain ⟨rfl, _⟩ := pktTrace_ok hrun
  have hreports : ∀ r ∈ (run (tracker ip) frames allIdle).2.reduceOption,
      ∃ l, r.line = some l ∧ l ∈ Line.plain := by
    intro r hr
    rw [List.reduceOption_mem_iff] at hr
    obtain ⟨hterminated, hlf⟩ := reported_cmd hplain (fun _ _ hq => by cases hq) hr
    obtain ⟨l, hl, hfront⟩ := line_of_terminated hterminated
    exact ⟨l, hl, fun hmem => hlf (hfront.subset hmem)⟩
  obtain ⟨lines, hlines, hall⟩ := lines_of_reports (fun _ l => l ∈ Line.plain) hreports
  refine ⟨lines, hlines, ?_, ?_⟩
  · have hflipped : List.Forall₂ (fun l r => l ∈ Line.plain ∧ Report.line r = some l) lines
        (run (tracker ip) frames allIdle).2.reduceOption :=
      List.Forall₂.flip (hall.imp fun _ _ h => ⟨h.2, h.1⟩)
    exact ((List.forall₂_and_left _ _).mp hflipped).1
  · rw [← List.forall₂_eq_eq_eq, List.forall₂_map_left_iff, List.forall₂_map_right_iff]
    exact hall.imp fun _ _ h => h.1

/-- The text of a run has one line for each report, and two runs print the same
text only when they report the same commands with the same times: for every two
traces the tracer gets through, as long as no command of theirs is unterminated
or has a line feed in it. -/
theorem pktTrace_text_inj
    (hrun : (pktTrace ip frames).run (vhashInit enVHashMoudleMax) = .ok (outs, w))
    (hrun' : (pktTrace ip' frames').run (vhashInit enVHashMoudleMax) = .ok (outs', w'))
    (hplain : ∀ f ∈ frames, f.PlainName) (hplain' : ∀ f ∈ frames', f.PlainName) :
    ∃ text text', printed outs = some text ∧ printed outs' = some text' ∧
      text.count 0x0a = outs.reduceOption.length ∧
      (text = text' ↔ outs.reduceOption.map Report.line = outs'.reduceOption.map Report.line) := by
  obtain ⟨lines, hlines, hl, hmap⟩ := lines_of_plain hrun hplain
  obtain ⟨lines', hlines', hl', hmap'⟩ := lines_of_plain hrun' hplain'
  refine ⟨_, _, by rw [printed, hlines, Option.map_some],
    by rw [printed, hlines', Option.map_some], ?_, ?_⟩
  · rw [count_lineFeed hl, ← List.length_map (f := some), ← hmap, List.length_map]
  · rw [texts_inj hl hl', hmap, hmap', List.map_inj_right (fun _ _ => Option.some.inj)]

theorem pktTrace_text_inj_ping :
    ∃ outs w outs' w' text text',
      (pktTrace sampleServer.ip [sampleRequest, sampleReply]).run (vhashInit enVHashMoudleMax) =
        .ok (outs, w) ∧
      (pktTrace sampleServer.ip [sampleReply]).run (vhashInit enVHashMoudleMax) =
        .ok (outs', w') ∧
      printed outs = some text ∧ printed outs' = some text' ∧
      text.count 0x0a = outs.reduceOption.length ∧
      (text = text' ↔ outs.reduceOption.map Report.line = outs'.reduceOption.map Report.line) := by
  have hrequest : sampleRequest.command = some (storedName [0x50, 0x49, 0x4e, 0x47]) := by
    decide +kernel
  have hreply : sampleReply.command = none := by decide +kernel
  have hplainRequest : sampleRequest.PlainName := by
    intro cmd hcmd
    rw [hrequest] at hcmd
    obtain rfl := Option.some.inj hcmd
    exact ⟨⟨4, by decide⟩, by decide⟩
  have hplainReply : sampleReply.PlainName := by
    intro cmd hcmd
    rw [hreply] at hcmd
    cases hcmd
  obtain ⟨outs, w, hrun⟩ := ping_run
  obtain ⟨w', hrun', _⟩ := pktTrace_run sampleServer.ip [sampleReply] (by decide +kernel)
  obtain ⟨text, text', htexts⟩ := pktTrace_text_inj hrun hrun'
    (by simp [hplainRequest, hplainReply]) (by simp [hplainReply])
  exact ⟨outs, w, _, w', text, text', hrun, hrun', htexts⟩

/-- One command with a line feed in its name, and two without. -/
example :
    let forged : Report :=
      ⟨⟨0, 0, storedName (ascii "A r 0 a 0 es 0\nredis cmd B"), ⟨0, 0, 0, 0⟩⟩, 0, 0⟩
    let first : Report := ⟨⟨0, 0, storedName (ascii "A"), ⟨0, 0, 0, 0⟩⟩, 0, 0⟩
    let second : Report := ⟨⟨0, 0, storedName (ascii "B"), ⟨0, 0, 0, 0⟩⟩, 0, 0⟩
    printed [some forged] = printed [some first, some second] := by
  decide +kernel

end Traces

section Dumps

def hexDigit (n : Nat) : UInt8 :=
  if n < 10 then UInt8.ofNat (0x30 + n) else UInt8.ofNat (0x57 + n)

/-- The digits of `%2.2x`. -/
def hexByte (b : UInt8) : List UInt8 := [hexDigit (b.toNat / 16), hexDigit (b.toNat % 16)]

/-- `for (i=1; i < len+1; i++)`, with the rounds that are left. -/
def pktDumpLoop (buf : Bytes) : Nat → UInt32 → List UInt8
  | 0, _ => []
  | rounds + 1, i =>
      hexByte (buf (i - 1).toNat) ++ ascii " " ++ (if i % 16 = 0 then ascii "\n" else []) ++
        pktDumpLoop buf rounds (i + 1)

/-- The loop's bound wraps for a length of -1. -/
def dumpRounds (pLen : Int32) : Nat := (pLen.toUInt32 + 1).toNat - 1

def pktDump (pBuf : Bytes) (pLen : Int32) : List UInt8 :=
  pktDumpLoop pBuf (dumpRounds pLen) 1 ++ ascii "\n\n"

/-- The bytes that are dumped. -/
def dumped (pBuf : Bytes) (pLen : Int32) : List UInt8 := (List.range (dumpRounds pLen)).map pBuf

def isLayout (c : UInt8) : Bool := c = 0x20 || c = 0x0a

variable {buf buf' : Bytes} {pLen pLen' : Int32}

theorem toNat_hexDigit {n : Nat} (hn : n < 16) :
    (hexDigit n).toNat = if n < 10 then 0x30 + n else 0x57 + n := by
  have hsize : UInt8.size = 256 := rfl
  unfold hexDigit
  split
  · exact UInt8.toNat_ofNat_of_lt' (by omega)
  · exact UInt8.toNat_ofNat_of_lt' (by omega)

theorem hexDigit_inj {n n' : Nat} (hn : n < 16) (hn' : n' < 16) (heq : hexDigit n = hexDigit n') :
    n = n' := by
  have hvalues := congrArg UInt8.toNat heq
  rw [toNat_hexDigit hn, toNat_hexDigit hn'] at hvalues
  split at hvalues <;> split at hvalues <;> omega

theorem hexByte_injective : Function.Injective hexByte := by
  intro b b' heq
  have hb := b.toNat_lt
  have hb' := b'.toNat_lt
  simp only [hexByte, List.cons.injEq, and_true] at heq
  have hhigh := hexDigit_inj (by omega) (by omega) heq.1
  have hlow := hexDigit_inj (by omega) (by omega) heq.2
  apply UInt8.toNat_inj.mp
  omega

theorem hexDigit_layout {n : Nat} (hn : n < 16) : isLayout (hexDigit n) = false := by
  have hvalue := toNat_hexDigit hn
  have hne : ∀ c : UInt8, c.toNat < 0x30 → hexDigit n ≠ c := by
    intro c hc heq
    rw [heq] at hvalue
    split at hvalue <;> omega
  simp [isLayout, hne 0x20 (by decide), hne 0x0a (by decide)]

/-- The byte that is printed when the counter is one ahead of it. -/
theorem dump_index {j : Nat} (hfits : j < 2 ^ 32) :
    (UInt32.ofNat (j + 1) - 1).toNat = j ∧
      UInt32.ofNat (j + 1) + 1 = UInt32.ofNat (j + 1 + 1) := by
  rw [UInt32.ofNat_add (j + 1) 1, UInt32.ofNat_add j 1]
  refine ⟨?_, rfl⟩
  simp
  omega

/-- Without blanks and line feeds a dump is the digits of its bytes. -/
theorem digits_pktDumpLoop (buf : Bytes) (n j : Nat) (hfits : j + n < 2 ^ 32) :
    (pktDumpLoop buf n (UInt32.ofNat (j + 1))).filter (fun c => !isLayout c) =
      ((List.range' j n).map buf).flatMap hexByte := by
  induction n generalizing j with
  | zero => rfl
  | succ n ih =>
      obtain ⟨hhere, hnext⟩ := dump_index (by omega : j < 2 ^ 32)
      have hb := (buf j).toNat_lt
      have hhigh : isLayout (hexDigit ((buf j).toNat / 16)) = false := hexDigit_layout (by omega)
      have hlow : isLayout (hexDigit ((buf j).toNat % 16)) = false := hexDigit_layout (by omega)
      have hend : (if UInt32.ofNat (j + 1) % 16 = 0 then ascii "\n" else []).filter
          (fun c => !isLayout c) = [] := by
        split
        · decide
        · rfl
      have hblank : (ascii " ").filter (fun c => !isLayout c) = [] := by decide
      rw [pktDumpLoop, hhere, hnext, List.filter_append, List.filter_append, List.filter_append,
        hend, hblank, ih (j + 1) (by omega)]
      simp [hexByte, hhigh, hlow, List.range'_succ]

theorem pktDumpLoop_congr (n j : Nat) (hfits : j + n < 2 ^ 32)
    (hsame : ∀ k, j ≤ k → k < j + n → buf k = buf' k) :
    pktDumpLoop buf n (UInt32.ofNat (j + 1)) = pktDumpLoop buf' n (UInt32.ofNat (j + 1)) := by
  induction n generalizing j with
  | zero => rfl
  | succ n ih =>
      obtain ⟨hhere, hnext⟩ := dump_index (by omega : j < 2 ^ 32)
      rw [pktDumpLoop, pktDumpLoop, hhere, hnext, hsame j (by omega) (by omega),
        ih (j + 1) (by omega) (fun k hjk hkn => hsame k (by omega) (by omega))]

theorem dumpRounds_lt (pLen : Int32) : 0 + dumpRounds pLen < 2 ^ 32 := by
  have hlt := (pLen.toUInt32 + 1).toNat_lt
  unfold dumpRounds
  omega

theorem digits_pktDump (buf : Bytes) (pLen : Int32) :
    (pktDump buf pLen).filter (fun c => !isLayout c) = (dumped buf pLen).flatMap hexByte := by
  have hdigits := digits_pktDumpLoop buf (dumpRounds pLen) 0 (dumpRounds_lt pLen)
  have hend : (ascii "\n\n").filter (fun c => !isLayout c) = [] := by decide
  rw [pktDump, List.filter_append, hend, List.append_nil, dumped, List.range_eq_range']
  exact hdigits

/-- For all buffers and lengths: two dumps are the same text exactly when they
are dumps of the same bytes, and of as many. -/
theorem pktDump_eq_iff (buf buf' : Bytes) (pLen pLen' : Int32) :
    pktDump buf pLen = pktDump buf' pLen' ↔ dumped buf pLen = dumped buf' pLen' := by
  constructor
  · intro heq
    have hdigits := digits_pktDump buf pLen
    rw [heq, digits_pktDump buf' pLen'] at hdigits
    have hfree : PrefixFree hexByte Set.univ :=
      prefixFree_of_length (n := 2) (fun _ _ => rfl) hexByte_injective.injOn
    exact (hfree.flatMap_inj (fun _ _ => by simp [hexByte]) (by simp) (by simp) hdigits).symm
  · intro heq
    have hrounds : dumpRounds pLen = dumpRounds pLen' := by
      simpa [dumped] using congrArg List.length heq
    have hsame : ∀ k, 0 ≤ k → k < 0 + dumpRounds pLen → buf k = buf' k := by
      intro k _ hk
      rw [dumped, dumped, ← hrounds] at heq
      exact List.map_inj_left.mp heq k (List.mem_range.mpr (by omega))
    have hloop := pktDumpLoop_congr (dumpRounds pLen) 0 (dumpRounds_lt pLen) hsame
    rw [pktDump, pktDump, ← hrounds]
    exact congrArg (· ++ ascii "\n\n") hloop

end Dumps

end RedisTrace
