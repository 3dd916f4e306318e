import RedisTrace.Commands

/-!
The 32 bytes of a command name, first in `REDIS_CMD` and then in the item of
the connection table. `redis_cmd_parse` copies as many bytes as the payload
says, and `strncpy` adds a NUL only where there is room for one.
-/

namespace RedisTrace

open Cut Run Machine

/-- The field holds a C string. -/
def Terminated (cmd : CmdChars) : Prop := ∃ i : Fin 32, cmd.get i = 0

/-- A payload that is accepted leaves room for a NUL in both fields. -/
def NameFitsFields (buf : Bytes) (p : Nat) (len : Int32) : Prop :=
  ∃ parsed, redisCmdParse buf p len 0 = .ok parsed ∧
    (parsed.ret = 0 → parsed.copied ≤ 31 ∧ Terminated (strncpy parsed.pstRdsCmd.cmd))

/-- A name that stands where its length says has at most 31 bytes. -/
def ShortName (payload : List UInt8) (next : UInt8) : Prop :=
  ∀ o name tail, opening payload = some o → cutLine (o.rest ++ [next]) = some (name, tail) →
    (atoi o.size).toInt = name.length → name.length ≤ 31

section Payloads

variable {buf : Bytes} {p : Nat} {len : Int32} {name : List UInt8}

theorem terminated_strncpy {src : CmdChars} (hlast : src[31] = 0) :
    Terminated (strncpy src) := by
  refine ⟨31, ?_⟩
  change (strncpy src)[31] = 0
  rw [strncpy, Vector.getElem_ofFn]
  exact if_pos ⟨31, Nat.le_refl _, hlast⟩

theorem terminated_namedCmd (hname : name.length ≤ 31) :
    Terminated (strncpy (namedCmd name (0 : RedisCmd).cmd)) := by
  apply terminated_strncpy
  rw [namedCmd_zero name (by decide), List.getD_eq_default _ _ hname]

theorem terminated_zero : Terminated (strncpy (0 : RedisCmd).cmd) :=
  terminated_strncpy (by decide)

/-- Short names are copied with room to spare. -/
theorem parsed_of_shortName (hpos : 0 < len.toInt)
    (hshort : ShortName (payloadAt buf p len) (byteBehind buf p len)) :
    ∃ parsed, redisCmdParse buf p len 0 = .ok parsed ∧ parsed.copied ≤ 31 ∧
      Terminated (strncpy parsed.pstRdsCmd.cmd) := by
  have hholds := holds_payloadAt buf p len
  have hlen := length_payloadAt buf p hpos
  cases ho : opening (payloadAt buf p len) with
  | none =>
      obtain ⟨buf', hparsed⟩ :=
        redisCmdParse_rejected hholds hlen (payloadAt_ne_nil buf p hpos) ho 0
      exact ⟨_, hparsed, Nat.zero_le 31, terminated_zero⟩
  | some o =>
      obtain ⟨hparse, hname⟩ := redisCmdParse_opened hholds hlen ho 0
      cases hcut : cutLine (o.rest ++ [byteBehind buf p len]) with
      | none =>
          have hmissing := parseName_missing hname hcut (atoi o.size) 0
          exact ⟨_, hparse.trans hmissing, Nat.zero_le 31, terminated_zero⟩
      | some found =>
          obtain ⟨name, tail⟩ := found
          have hfound := parseName_found hname hcut (atoi o.size) 0
          rcases eq_or_ne (atoi o.size).toInt name.length with hsize | hsize
          · have hle := hshort o name tail ho hcut hsize
            rw [if_neg (not_not.mpr hsize), if_neg (by omega)] at hfound
            exact ⟨_, hparse.trans hfound, hle, terminated_namedCmd hle⟩
          · rw [if_pos hsize] at hfound
            exact ⟨_, hparse.trans hfound, Nat.zero_le 31, terminated_zero⟩

theorem shortName_of_copied (hpos : 0 < len.toInt)
    (hcopied : ∃ parsed, redisCmdParse buf p len 0 = .ok parsed ∧
      (parsed.ret = 0 → parsed.copied ≤ 31)) :
    ShortName (payloadAt buf p len) (byteBehind buf p len) := by
  intro o name tail ho hcut hsize
  obtain ⟨parsed, hparsed, hcopied⟩ := hcopied
  obtain ⟨hparse, hname⟩ := redisCmdParse_opened (holds_payloadAt buf p len)
    (length_payloadAt buf p hpos) ho 0
  have hfound := parseName_found hname hcut (atoi o.size) 0
  rw [if_neg (not_not.mpr hsize), ← hparse, hparsed] at hfound
  split at hfound
  · cases hfound
  · obtain rfl := Except.ok.inj hfound
    exact hcopied rfl

theorem nameFitsFields_iff (hpos : 0 < len.toInt) :
    NameFitsFields buf p len ↔ ShortName (payloadAt buf p len) (byteBehind buf p len) := by
  constructor
  · rintro ⟨parsed, hparsed, hfits⟩
    exact shortName_of_copied hpos ⟨parsed, hparsed, fun hret => (hfits hret).1⟩
  · intro hshort
    obtain ⟨parsed, hparsed, hcopied, hterminated⟩ := parsed_of_shortName hpos hshort
    exact ⟨parsed, hparsed, fun _ => ⟨hcopied, hterminated⟩⟩

end Payloads

namespace Frame

/-- The payload of a frame that the decoder accepts. -/
def payload (f : Frame) : List UInt8 :=
  payloadAt f.rbuf f.decoded.2.dataptr f.decoded.2.uidatalen.toInt32

def next (f : Frame) : UInt8 :=
  byteBehind f.rbuf f.decoded.2.dataptr f.decoded.2.uidatalen.toInt32

end Frame

/-- Every frame that is parsed, and not just counted as a reply or a repeat,
has a short name. -/
def ShortNames (ip : UInt32) (frames : List Frame) (slots : Conn → Slot) : Prop :=
  Along (tracker ip) (fun f slots =>
    ∀ k, f.route ip = some k → slots k = .idle → ShortName f.payload f.next) frames slots

/-- All stored names are C strings. -/
def SlotsTerminated (slots : Conn → Slot) : Prop :=
  ∀ k key cmd sec uSec, slots k = .pending key cmd sec uSec → Terminated cmd

section Traces

variable {ip : UInt32} {f : Frame} {frames : List Frame} {slots : Conn → Slot}

theorem payload_pos (haccepted : f.Accepted ip) :
    0 < f.decoded.2.uidatalen.toInt32.toInt := by
  rw [toInt_uidatalen haccepted.1]
  have hlong := (decoded_ok_iff.mp haccepted.1).2.2
  omega

theorem nameFits_iff_shortName (haccepted : f.Accepted ip) :
    f.NameFits ↔ ShortName f.payload f.next := by
  have hpos := payload_pos haccepted
  constructor
  · rintro ⟨parsed, hparsed, hcopied⟩
    exact shortName_of_copied hpos ⟨parsed, hparsed, fun _ => hcopied⟩
  · intro hshort
    obtain ⟨parsed, hparsed, hcopied, _⟩ := parsed_of_shortName hpos hshort
    exact ⟨parsed, hparsed, hcopied⟩

theorem namesFit_iff_shortNames (slots : Conn → Slot) :
    NamesFit ip frames slots ↔ ShortNames ip frames slots := by
  constructor
  · intro hfits
    refine hfits.mono (fun f slots hf k hroute hidle => ?_)
    exact (nameFits_iff_shortName (accepted_of_route hroute).1).mp (hf k hroute hidle)
  · intro hshort
    refine hshort.mono (fun f slots hf k hroute hidle => ?_)
    exact (nameFits_iff_shortName (accepted_of_route hroute).1).mpr (hf k hroute hidle)

theorem terminated_command (haccepted : f.Accepted ip) (hshort : ShortName f.payload f.next)
    {cmd : CmdChars} (hcommand : f.command = some cmd) : Terminated cmd := by
  obtain ⟨parsed, hparsed, _, hterminated⟩ :=
    parsed_of_shortName (payload_pos haccepted) hshort
  have hparsed' : f.parsed = .ok parsed := hparsed
  unfold Frame.command at hcommand
  rw [hparsed'] at hcommand
  dsimp only at hcommand
  split at hcommand
  · obtain rfl := Option.some.inj hcommand
    exact hterminated
  · cases hcommand

/-- One frame keeps the stored names terminated, and prints such a name. -/
theorem slotsTerminated_step (hslots : SlotsTerminated slots)
    (hshort : ∀ k, f.route ip = some k → slots k = .idle → ShortName f.payload f.next) :
    SlotsTerminated (tracker ip f slots).1 ∧
      ∀ r, (tracker ip f slots).2 = some r → Terminated r.item.cmd := by
  cases hroute : f.route ip with
  | none =>
      rw [tracker, family_unrouted slots hroute]
      exact ⟨hslots, fun r hr => by cases hr⟩
  | some k =>
      have haccepted := (accepted_of_route hroute).1
      have hslot : (∀ key cmd sec uSec, (f.slotStep (slots k)).1 = .pending key cmd sec uSec →
          Terminated cmd) ∧
          ∀ r, (f.slotStep (slots k)).2 = some r → Terminated r.item.cmd := by
        cases hk : slots k with
        | idle =>
            refine ⟨?_, fun r hr => by cases hr⟩
            intro key cmd sec uSec hpending
            change f.opened = _ at hpending
            unfold Frame.opened at hpending
            split at hpending
            · next cmd' _ hcommand _ =>
                obtain ⟨_, rfl, _, _⟩ := Slot.pending.inj hpending
                exact terminated_command haccepted (hshort k hroute hk) hcommand
            · cases hpending
        | pending key' cmd' sec' uSec' =>
            have hold := hslots k key' cmd' sec' uSec' hk
            rcases eq_or_ne f.tuple key' with hkey | hkey
            · rw [Frame.slotStep_answer hkey]
              refine ⟨fun _ _ _ _ hpending => (by cases hpending), ?_⟩
              intro r hr
              obtain rfl := Option.some.inj hr
              exact hold
            · rw [Frame.slotStep_renew hkey]
              refine ⟨?_, fun r hr => by cases hr⟩
              intro key cmd sec uSec hpending
              obtain ⟨_, rfl, _, _⟩ := Slot.pending.inj hpending
              exact hold
      refine ⟨?_, ?_⟩
      · intro k' key cmd sec uSec hpending
        rcases eq_or_ne k' k with rfl | hne
        · rw [tracker, family_self slots hroute] at hpending
          exact hslot.1 key cmd sec uSec hpending
        · have hother : f.route ip ≠ some k' := by
            rw [hroute]
            exact fun heq => hne (Option.some.inj heq).symm
          rw [tracker, family_elsewhere slots hother] at hpending
          exact hslots k' key cmd sec uSec hpending
      · intro r hr
        rw [tracker, family_answer slots hroute] at hr
        exact hslot.2 r hr

/-- From the empty table on, every frame is handled without leaving the name
fields, every stored name ends inside its field, and so does every printed one. -/
def NamesKept (ip : UInt32) (frames : List Frame) : Prop :=
  NamesFit ip frames allIdle ∧
    ∃ outs w m, (pktTrace ip frames).run (vhashInit enVHashMoudleMax) = .ok (outs, w) ∧
      PortTable w m ∧ (∀ key c, m key = some c → Terminated c.cmd) ∧
      ∀ r, some r ∈ outs → Terminated r.item.cmd

theorem slotsTerminated_items {m : PortMap} (hslots : ∀ k, SlotRel m k (slots k))
    (hterminated : SlotsTerminated slots) {key : PortItem} {c : Cell} (hc : m key = some c) :
    Terminated c.cmd := by
  have hslot := hslots key.conn
  cases hk : slots key.conn with
  | idle =>
      rw [hk] at hslot
      rw [hslot key rfl] at hc
      cases hc
  | pending key' cmd sec uSec =>
      rw [hk] at hslot
      obtain ⟨_, ⟨a, hcell⟩, hothers⟩ := hslot
      rcases eq_or_ne key key' with rfl | hne
      · rw [hcell] at hc
        obtain rfl := Option.some.inj hc
        exact hterminated _ _ _ _ _ hk
      · rw [hothers key rfl hne] at hc
        cases hc

theorem namesKept_of_shortNames (hshort : ShortNames ip frames allIdle) :
    NamesKept ip frames := by
  have hfits := (namesFit_iff_shortNames allIdle).mpr hshort
  have hstart : SlotsTerminated allIdle := fun _ _ _ _ _ hpending => by cases hpending
  have hstep : ∀ f slots, SlotsTerminated slots →
      (∀ k, f.route ip = some k → slots k = .idle → ShortName f.payload f.next) →
      SlotsTerminated (tracker ip f slots).1 ∧
        ∀ r, (tracker ip f slots).2 = some r → Terminated r.item.cmd :=
    fun _ _ hslots hf => slotsTerminated_step hslots hf
  obtain ⟨w, hrun, m, ht, hslots⟩ := pktTrace_run ip frames hfits
  have hend := along_invariant SlotsTerminated (fun f slots h hf => (hstep f slots h hf).1)
    frames allIdle hstart hshort
  exact ⟨hfits, _, w, m, hrun, ht, fun _ _ hc => slotsTerminated_items hslots hend hc,
    along_answers SlotsTerminated _ hstep frames allIdle hstart hshort⟩

/-- For every payload: an accepted name fits both fields exactly when it is
short. So for every trace: the stored and the printed names are C strings
within their fields exactly when all parsed names are short. -/
theorem names_fit_iff_short {buf : Bytes} {p : Nat} {len : Int32} (hpos : 0 < len.toInt)
    (ip : UInt32) (frames : List Frame) :
    (NameFitsFields buf p len ↔ ShortName (payloadAt buf p len) (byteBehind buf p len)) ∧
      (NamesKept ip frames ↔ ShortNames ip frames allIdle) := by
  refine ⟨nameFitsFields_iff hpos, ?_, namesKept_of_shortNames⟩
  rintro ⟨hfits, _⟩
  exact (namesFit_iff_shortNames allIdle).mp hfits

theorem names_fit_iff_short_ping :
    0 < (14 : Int32).toInt ∧
      (NameFitsFields sampleRequest.rbuf 54 14 ↔
        ShortName (payloadAt sampleRequest.rbuf 54 14) (byteBehind sampleRequest.rbuf 54 14)) ∧
      (NamesKept sampleServer.ip [sampleRequest] ↔
        ShortNames sampleServer.ip [sampleRequest] allIdle) :=
  ⟨by decide, names_fit_iff_short (by decide) sampleServer.ip [sampleRequest]⟩

/-- A command with a name of 32 letters. -/
def fullName : List UInt8 := List.replicate 32 0x41

/-- The name fills its field, and there is no NUL to stop at. -/
theorem names_fit_full :
    ¬ NameFitsFields (bufferOf (commandBytes 1 fullName [])) 0 43 ∧
      ∃ parsed, redisCmdParse (bufferOf (commandBytes 1 fullName [])) 0 43 0 = .ok parsed ∧
        parsed.ret = 0 ∧ parsed.copied = 32 ∧
        ¬ Terminated (strncpy parsed.pstRdsCmd.cmd) := by
  have hlen : (43 : Int32).toInt = (commandBytes 1 fullName []).length := by decide +kernel
  have hholds := holds_bufferOf (commandBytes 1 fullName [])
  unfold commandBytes at hlen hholds
  obtain ⟨buf', hparsed⟩ := redisCmdParse_request (by decide) (by decide) (by decide)
    (by decide) (by decide) 0 hholds hlen
  have hfull : ¬ Terminated (strncpy (namedCmd fullName (0 : RedisCmd).cmd)) := by
    unfold Terminated
    decide +kernel
  refine ⟨?_, _, hparsed, rfl, rfl, hfull⟩
  rintro ⟨parsed, hparsed', hfits⟩
  unfold commandBytes at hparsed'
  rw [hparsed] at hparsed'
  obtain rfl := Except.ok.inj hparsed'
  exact hfull (hfits rfl).2

end Traces

end RedisTrace
