import RedisTrace.PortRuns
import RedisTrace.VHash.Calls

/-!
The whole interface of `port_vhash.h`, with the functions that bring the table
up and down and the two that hand its mutex to the caller. The mutex is the one
that the functions take for themselves, so between `PORT_VHash_Lock` and
`PORT_VHash_unLock` nothing can be done with the table but count it and use the
pointers one has. Only what is refused for a NULL argument comes back as ever.
-/

namespace RedisTrace

open CircularList Run

/-- A call, each pointer argument NULL or not, or a store through a pointer that
a call has handed out. `out` is what the caller's variable holds before the
call, `want` what `malloc` would answer. -/
inductive PortCall where
  | init (mallocOk : Bool)
  | add (pstItem : Option PortItem) (out : Option NodePtr) (want : Option Nat)
  | update (pstItem : Option PortItem) (out : Option NodePtr) (want : Option Nat)
  | del (pstItem : Option PortItem)
  | findStruct (pstItem : Option PortItem) (out : Option NodePtr)
  | getNextNode (pstItem : Option PortItem) (prev : NodePtr) (out : Option NodePtr)
  | clean
  | exit
  | lock
  | unLock
  | getCount (out : Option UInt32)
  | store (ptr : Nat) (field : PortStore)
  deriving DecidableEq, Repr

/-- The next node is asked for from one that is in the table. From a node that
has been freed the call belongs to a run only where it does not come to look at
the node. -/
def guardedNext (pstItem : Option PortItem) (prev : NodePtr) (out : Option NodePtr) :
    PortW (UInt32 × Option NodePtr) := fun w =>
  match pstItem, prev, w.astVHashHead enPort.toNat with
  | some _, some a, some h =>
      if h.locked ∨ a ∈ h.live then portVHashGetNextNode pstItem prev out w
      else .ok ((vhashErr, out), w)
  | _, _, _ => portVHashGetNextNode pstItem prev out w

def portCall : PortCall → PortW PortReply
  | .init mallocOk => do
      portVHashInit mallocOk
      return .done
  | .add pstItem out want => do
      let (ret, pp) ← portVHashAdd pstItem out want
      if ret = vhashOk ∨ ret = vhashUpdateOk then observe ret pp.join
      else return .item ret pp.join none
  | .update pstItem out want => do
      let (ret, pp) ← portVHashUpdate pstItem out want
      if ret = vhashUpdateOk then observe ret pp.join
      else return .item ret pp.join none
  | .del pstItem => do
      let ret ← portVHashDel pstItem
      return .code ret
  | .findStruct pstItem out => do
      let (ret, pp) ← portVHashFindStruct pstItem out
      if ret = vhashOk then observe ret pp.join
      else return .item ret pp.join none
  | .getNextNode pstItem prev out => do
      let (ret, pp) ← guardedNext pstItem prev out
      return .item ret pp.join none
  | .clean => do
      portVHashCleanAll
      return .done
  | .exit => do
      portVHashExit
      return .done
  | .lock => do
      portVHashLock
      return .done
  | .unLock => do
      portVHashUnLock
      return .done
  | .getCount out => do
      let (ret, n) ← portVHashGetCount out
      return n.elim (.code ret) (.count ret)
  | .store ptr field => do
      storeItem ptr field
      return .done

/-- The calls that the exported functions of `vhash.c` refuse before they look
at the table. -/
def PortCall.refused : PortCall → Bool
  | .add pstItem _ _ | .update pstItem _ _ | .del pstItem => pstItem.isNone
  | .findStruct pstItem out => pstItem.isNone || out.isNone
  | .getCount out => out.isNone
  | _ => false

/-- The calls that come to `SpinLock_Lock` on a table that is there.
`PORT_VHash_Get_NextNode` refuses a key without a node before it does. -/
def PortCall.locks : PortCall → Bool
  | .clean | .exit | .lock => true
  | .add pstItem _ _ | .update pstItem _ _ | .del pstItem => pstItem.isSome
  | .findStruct pstItem out => pstItem.isSome && out.isSome
  | .getNextNode pstItem prev _ => pstItem.isNone || prev.isSome
  | .init _ | .unLock | .getCount _ | .store _ _ => false

inductive TableMode where
  | absent
  | free
  | held
  deriving DecidableEq, Repr

/-- What a call makes of the table; `none` for the calls that wait for a mutex
which only their own caller could give back. -/
def TableMode.next : TableMode → PortCall → Option TableMode
  | .absent, .init true => some .free
  | .absent, _ => some .absent
  | .free, .exit => some .absent
  | .free, .lock => some .held
  | .free, _ => some .free
  | .held, .unLock => some .free
  | .held, c => if c.locks then none else some .held

/-- The table is there, with its mutex taken. -/
def PortHeld (w : PortWorld) : Prop :=
  ∃ h bs m, w.astVHashHead enPort.toNat = some h ∧ h.locked = true ∧
    PortRep {h with locked := false} bs m

def InMode (w : PortWorld) (mode : TableMode) : Prop :=
  enPort < w.uiMaxVhashModules ∧
    match mode with
    | .absent => w.astVHashHead enPort.toNat = none
    | .free => ∃ m, PortTable w m
    | .held => PortHeld w

section Mutex

variable {K N D : Type} {h : VHashHead K N D}

theorem getNode_deadlock (key : K) (hlocked : h.locked = true) (ppData : Option NodePtr) :
    (getNode key ppData).run h = .error .deadlock := by
  simp [getNode, spinLockLock_deadlock hlocked]

theorem cleanMoudle_deadlock (hlocked : h.locked = true) :
    cleanMoudle.run h = .error .deadlock := by
  simp [cleanMoudle, spinLockLock_deadlock hlocked]

theorem destoryMoudle_deadlock (hlocked : h.locked = true) :
    destoryMoudle.run h = .error .deadlock := by
  simp [destoryMoudle, spinLockLock_deadlock hlocked]

theorem delNode_deadlock (key : K) (hlocked : h.locked = true)
    (hcallbacks : delCallbacks h.moudle = true) : (delNode key).run h = .error .deadlock := by
  obtain ⟨hcalc, hcompare⟩ := Bool.and_eq_true_iff.mp hcallbacks
  simp [delNode, hcalc, hcompare, spinLockLock_deadlock hlocked]

theorem addNode2_deadlock [Zero D] (key : K) (hlocked : h.locked = true)
    (hcallbacks : addCallbacks h.moudle = true) (data : N) (ppNodeData : Option NodePtr)
    (want : Option Nat) : (addNode2 key data ppNodeData want).run h = .error .deadlock := by
  simp [addNode2, hcallbacks, spinLockLock_deadlock hlocked]

theorem getNextNode_deadlock (hlocked : h.locked = true) {hash : K → UInt32}
    (hcalc : h.moudle.pfnVHashCalc = some hash) {pKey : Option K} {pData : NodePtr}
    (hasked : (pKey.isNone || pData.isSome) = true) (ppNodeData : Option NodePtr) :
    (getNextNode pKey pData ppNodeData).run h = .error .deadlock := by
  cases pKey with
  | none => simp [getNextNode, hcalc, spinLockLock_deadlock hlocked]
  | some key =>
      obtain ⟨a, rfl⟩ := Option.isSome_iff_exists.mp hasked
      simp [getNextNode, hcalc, spinLockLock_deadlock hlocked]

end Mutex

section Modes

variable {w w' : PortWorld} {h : PortHead} {bs : Nat → List Nat} {m : PortMap}

/-- A function without an answer of its own. -/
theorem done_run {α β : Type} {op : PortW α} {answer : α} (hrun : op.run w = .ok (answer, w'))
    (b : β) : (op >>= fun _ => pure b).run w = .ok (b, w') := by
  rw [StateT.run_bind, hrun]
  rfl

theorem inMode_absent (hid : enPort < w.uiMaxVhashModules) :
    InMode (w.withoutHead enPort) .absent := ⟨hid, withoutHead_head w⟩

theorem inMode_free (hid : enPort < w.uiMaxVhashModules) (hr : PortRep h bs m) :
    InMode (w.withHead enPort h) .free := ⟨hid, m, hid, h, bs, withHead_head w h, hr⟩

theorem inMode_held (hid : enPort < w.uiMaxVhashModules) (hlocked : h.locked = true)
    (hr : PortRep {h with locked := false} bs m) : InMode (w.withHead enPort h) .held :=
  ⟨hid, h, bs, m, withHead_head w h, hlocked, hr⟩

/-- A table is one whatever has been done with its mutex. -/
theorem PortRep.withLog (hr : PortRep h bs m) (log : List Event) :
    PortRep {h with locked := false, log := log} bs m :=
  ⟨hr.moudle, rfl, hr.chains.congr rfl rfl rfl rfl rfl, hr.placed, hr.cells⟩

theorem PortRep.calc (hr : PortRep h bs m) : h.moudle.pfnVHashCalc = some portVHashCalc := by
  rw [hr.moudle]
  rfl

end Modes

section Refused

variable {c : PortCall}

theorem TableMode.next_refused (mode : TableMode) (hrefused : c.refused = true) :
    mode.next c = some mode := by
  have hlocks : c.locks = false := by
    cases c with
    | add pstItem | update pstItem | del pstItem =>
        simpa [PortCall.locks, PortCall.refused] using hrefused
    | findStruct pstItem out =>
        rcases Bool.or_eq_true_iff.mp hrefused with hkey | hout
        · simp [PortCall.locks, Option.isNone_iff_eq_none.mp hkey]
        · simp [PortCall.locks, Option.isNone_iff_eq_none.mp hout]
    | getCount => rfl
    | init | getNextNode | clean | exit | lock | unLock | store => cases hrefused
  cases c with
  | init | getNextNode | clean | exit | lock | unLock | store => cases hrefused
  | add | update | del | findStruct | getCount => cases mode <;> simp [TableMode.next, hlocks]

/-- What is refused changes nothing, whatever state the table is in. -/
theorem portCall_refused (w : PortWorld) (hrefused : c.refused = true) :
    ∃ reply, (portCall c).run w = .ok (reply, w) := by
  have hcode : vhashErr ≠ vhashOk ∧ vhashErr ≠ vhashUpdateOk := by decide
  cases c with
  | add pstItem out want =>
      obtain rfl := Option.isNone_iff_eq_none.mp hrefused
      exact ⟨.item vhashErr out.join none, by simp [portCall, portVHashAdd, vhashAddNode2, hcode]⟩
  | update pstItem out want =>
      obtain rfl := Option.isNone_iff_eq_none.mp hrefused
      exact ⟨.item vhashErr out.join none,
        by simp [portCall, portVHashUpdate, vhashAddNode2, hcode]⟩
  | del pstItem =>
      obtain rfl := Option.isNone_iff_eq_none.mp hrefused
      exact ⟨.code vhashErr, rfl⟩
  | findStruct pstItem out =>
      refine ⟨.item vhashErr out.join none, ?_⟩
      have hrun : (portVHashFindStruct pstItem out).run w = .ok ((vhashErr, out), w) := by
        rcases Bool.or_eq_true_iff.mp hrefused with hkey | hout
        · rw [Option.isNone_iff_eq_none.mp hkey]
          rfl
        · rw [Option.isNone_iff_eq_none.mp hout]
          cases pstItem <;> rfl
      simp [portCall, hrun, hcode]
  | getCount out =>
      obtain rfl := Option.isNone_iff_eq_none.mp hrefused
      exact ⟨.code vhashErr, rfl⟩
  | init | getNextNode | clean | exit | lock | unLock | store => cases hrefused

end Refused

section Absent

variable {w : PortWorld}

theorem portVHashInit_absent (hid : enPort < w.uiMaxVhashModules)
    (hnone : w.astVHashHead enPort.toNat = none) (mallocOk : Bool) :
    ∃ w', (portVHashInit mallocOk).run w = .ok ((), w') ∧
      InMode w' (if mallocOk then .free else .absent) := by
  cases mallocOk with
  | true =>
      obtain ⟨h, hrun, hchains, hmoudle, hfree, -⟩ := vhashCreateMoudle_run hid hnone portMoudle
      exact ⟨w.withHead enPort h, done_run hrun _,
        inMode_free hid (PortRep.clear hchains hmoudle hfree)⟩
  | false =>
      exact ⟨w, done_run (vhashCreateMoudle_failed hid hnone portMoudle) _, hid, hnone⟩

/-- Without a table every call returns. -/
theorem portCall_absent (hw : InMode w .absent) {c : PortCall} (hgiven : ¬ c.refused = true)
    {mode : TableMode} (hnext : TableMode.next .absent c = some mode) :
    ∃ reply w', (portCall c).run w = .ok (reply, w') ∧ InMode w' mode := by
  have habsent := hw
  obtain ⟨hid, hnone⟩ := hw
  have hcode : vhashErr ≠ vhashOk ∧ vhashErr ≠ vhashUpdateOk := by decide
  cases c with
  | init mallocOk =>
      obtain ⟨w', hrun, hmode⟩ := portVHashInit_absent hid hnone mallocOk
      have heq : (if mallocOk then TableMode.free else .absent) = mode := by
        cases mallocOk <;> exact Option.some.inj hnext
      exact ⟨.done, w', done_run hrun _, heq ▸ hmode⟩
  | add pstItem out want =>
      cases pstItem with
      | none => exact absurd rfl hgiven
      | some key =>
          cases hnext
          have hrun := withMoudle_none (addNode2 key key (some none) want)
            (vhashErr, some none) hnone
          exact ⟨.item vhashErr out.join none, w,
            by simp [portCall, portVHashAdd, vhashAddNode2, hrun, hcode], habsent⟩
  | update pstItem out want =>
      cases pstItem with
      | none => exact absurd rfl hgiven
      | some key =>
          cases hnext
          have hrun := withMoudle_none (addNode2 key key (some none) want)
            (vhashErr, some none) hnone
          exact ⟨.item vhashErr out.join none, w,
            by simp [portCall, portVHashUpdate, vhashAddNode2, hrun, hcode], habsent⟩
  | del pstItem =>
      cases pstItem with
      | none => exact absurd rfl hgiven
      | some key =>
          cases hnext
          have hrun := withMoudle_none (delNode key) vhashErr hnone
          exact ⟨.code vhashErr, w, by simp [portCall, portVHashDel, vhashDelNode, hrun], habsent⟩
  | findStruct pstItem out =>
      cases pstItem with
      | none => exact absurd rfl hgiven
      | some key =>
          cases out with
          | none => exact absurd rfl hgiven
          | some pp =>
              cases hnext
              have hrun := withMoudle_none (getNode key (some pp)) (vhashErr, some pp) hnone
              exact ⟨.item vhashErr pp none, w,
                by simp [portCall, portVHashFindStruct, vhashGetNode, hrun, hcode], habsent⟩
  | getNextNode pstItem prev out =>
      cases hnext
      have hnone₀ : w.astVHashHead 0 = none := hnone
      have hrun : (portVHashGetNextNode pstItem prev out).run w = .ok ((vhashErr, out), w) :=
        withMoudle_none _ _ hnone
      have hguarded : (guardedNext pstItem prev out).run w = .ok ((vhashErr, out), w) := by
        simpa [guardedNext, StateT.run, hnone₀] using hrun
      exact ⟨.item vhashErr out.join none, w, by simp [portCall, hguarded], habsent⟩
  | clean =>
      cases hnext
      have hrun := withMoudle_none cleanMoudle vhashErr hnone
      exact ⟨.done, w, by simp [portCall, portVHashCleanAll, vhashCleanMoudle, hrun], habsent⟩
  | exit =>
      cases hnext
      exact ⟨.done, w, done_run (done_run (vhashDestoryMoudle_none hnone) _) _, habsent⟩
  | lock =>
      cases hnext
      exact ⟨.done, w, done_run (withMoudle_none spinLockLock () hnone) _, habsent⟩
  | unLock =>
      cases hnext
      exact ⟨.done, w, done_run (withMoudle_none spinLockUnlock () hnone) _, habsent⟩
  | getCount out =>
      cases out with
      | none => exact absurd rfl hgiven
      | some count =>
          cases hnext
          have hrun : (portVHashGetCount (some count)).run w = .ok ((vhashErr, some count), w) :=
            withMoudle_none _ _ hnone
          exact ⟨.count vhashErr count, w, by simp [portCall, hrun], habsent⟩
  | store ptr field =>
      cases hnext
      have hnone₀ : w.astVHashHead 0 = none := hnone
      have hrun : (storeItem ptr field).run w = .ok ((), w) := by
        simp [storeItem, StateT.run, hnone₀]
      exact ⟨.done, w, done_run hrun _, habsent⟩

end Absent

section Free

variable {w : PortWorld} {m : PortMap} {c : PortCall} {mode : TableMode}

/-- Without a place for the answer the functions do what they do with one. -/
theorem portVHashAdd_unplaced (ht : PortTable w m) (key : PortItem) (want : Option Nat) :
    ∃ ret w' m', (portVHashAdd key none want).run w = .ok ((ret, none), w') ∧
      PortTable w' m' := by
  obtain ⟨keys, ha⟩ := ht.arranged
  cases hkey : m key with
  | some c =>
      obtain ⟨w', hrun, ha'⟩ := portVHashAdd_present ha hkey none want
      exact ⟨_, w', _, hrun, ha'.toTable⟩
  | none =>
      cases want with
      | none =>
          obtain ⟨w', hrun, ha'⟩ := portVHashAdd_failed ha hkey none
          exact ⟨_, w', _, hrun, ha'.toTable⟩
      | some want =>
          obtain ⟨w', a, hrun, -, ha'⟩ := portVHashAdd_inserted ha hkey none want
          exact ⟨_, w', _, hrun, ha'.toTable⟩

theorem portVHashUpdate_unplaced (ht : PortTable w m) (key : PortItem) (want : Option Nat) :
    ∃ ret w' m', (portVHashUpdate key none want).run w = .ok ((ret, none), w') ∧
      PortTable w' m' := by
  obtain ⟨keys, ha⟩ := ht.arranged
  cases hkey : m key with
  | some c =>
      obtain ⟨w', hrun, ha'⟩ := portVHashUpdate_present ha hkey none want
      exact ⟨_, w', _, hrun, ha'.toTable⟩
  | none =>
      cases want with
      | none =>
          obtain ⟨w', hrun, ha'⟩ := portVHashUpdate_failed ha hkey none
          exact ⟨_, w', _, hrun, ha'.toTable⟩
      | some want =>
          obtain ⟨w', a, hrun, -, ha'⟩ := portVHashUpdate_inserted ha hkey none want
          exact ⟨_, w', _, hrun, ha'.toTable⟩

/-- The next node of one that is there is found, whichever key is given for
it. -/
theorem guardedNext_free (hw : InMode w .free) (pstItem : Option PortItem) (prev : NodePtr)
    (out : Option NodePtr) :
    ∃ answer w', (guardedNext pstItem prev out).run w = .ok (answer, w') ∧ InMode w' .free := by
  have hfree := hw
  obtain ⟨hid, m, -, h, bs, hhead, hr⟩ := hw
  have hhead₀ : w.astVHashHead 0 = some h := hhead
  have hl := hr.chains.toLists
  cases pstItem with
  | none =>
      have hrun := getNextNode_first hl hr.calc hr.free prev out
      exact ⟨_, w.withHead enPort (h.released []), withMoudle_run (vhashErr, out) hid hhead hrun,
        inMode_free hid (hr.released [])⟩
  | some key =>
      cases prev with
      | none =>
          have hself : w.withHead enPort h = w := withHead_self hhead
          refine ⟨_, w.withHead enPort h, withMoudle_run (vhashErr, out) hid hhead
            (getNextNode_unpointed hr.calc out), ?_⟩
          rw [hself]
          exact hfree
      | some a =>
          by_cases hlive : a ∈ h.live
          · obtain ⟨answer, hrun⟩ : ∃ answer, (getNextNode (some key) (some a) out).run h =
                .ok ((vhashOk, answer), h.released []) :=
              getNextNode_mapped hl hr.free hr.calc (hl.mapped hlive) out
            have hcall : (portVHashGetNextNode (some key) (some a) out).run w =
                .ok ((vhashOk, answer), w.withHead enPort (h.released [])) :=
              withMoudle_run (vhashErr, out) hid hhead hrun
            have hrun' : (guardedNext (some key) (some a) out).run w =
                .ok ((vhashOk, answer), w.withHead enPort (h.released [])) := by
              simpa [guardedNext, StateT.run, hhead₀, hlive] using hcall
            exact ⟨_, _, hrun', inMode_free hid (hr.released [])⟩
          · refine ⟨(vhashErr, out), w, ?_, hfree⟩
            simp [guardedNext, StateT.run, hhead₀, hlive, hr.free]

/-- With the mutex free every call returns. -/
theorem portCall_free (hw : InMode w .free) (hgiven : ¬ c.refused = true)
    (hnext : TableMode.next .free c = some mode) :
    ∃ reply w', (portCall c).run w = .ok (reply, w') ∧ InMode w' mode := by
  have hfree := hw
  obtain ⟨hid, m, ht⟩ := hw
  obtain ⟨-, h, bs, hhead, hr⟩ := id ht
  have hop : ∀ op : PortOp, ∃ reply w', (portStep op).run w = .ok (reply, w') ∧
      InMode w' .free := by
    intro op
    obtain ⟨keys, ha⟩ := ht.arranged
    obtain ⟨reply, w', m', hrun, -, ha'⟩ := portStep_simulates ha op
    exact ⟨reply, w', hrun, ha'.registered, m', ha'.toTable⟩
  cases c with
  | init mallocOk =>
      have hmode : TableMode.free = mode := by cases mallocOk <;> exact Option.some.inj hnext
      exact ⟨.done, w, done_run (done_run
        (vhashCreateMoudle_present hid hhead portMoudle mallocOk) _) _, hmode ▸ hfree⟩
  | add pstItem out want =>
      cases pstItem with
      | none => exact absurd rfl hgiven
      | some key =>
          cases hnext
          cases out with
          | some pp => exact hop (.add key pp want)
          | none =>
              obtain ⟨ret, w', m', hrun, ht'⟩ := portVHashAdd_unplaced ht key want
              exact ⟨.item ret none none, w', by simp [portCall, hrun, observe],
                ht'.registered, m', ht'⟩
  | update pstItem out want =>
      cases pstItem with
      | none => exact absurd rfl hgiven
      | some key =>
          cases hnext
          cases out with
          | some pp => exact hop (.update key pp want)
          | none =>
              obtain ⟨ret, w', m', hrun, ht'⟩ := portVHashUpdate_unplaced ht key want
              exact ⟨.item ret none none, w', by simp [portCall, hrun, observe],
                ht'.registered, m', ht'⟩
  | del pstItem =>
      cases pstItem with
      | none => exact absurd rfl hgiven
      | some key =>
          cases hnext
          exact hop (.del key)
  | findStruct pstItem out =>
      cases pstItem with
      | none => exact absurd rfl hgiven
      | some key =>
          cases out with
          | none => exact absurd rfl hgiven
          | some pp =>
              cases hnext
              exact hop (.findStruct key pp)
  | getNextNode pstItem prev out =>
      cases hnext
      obtain ⟨answer, w', hrun, hmode⟩ := guardedNext_free hfree pstItem prev out
      exact ⟨_, w', by simp [portCall, hrun]; rfl, hmode⟩
  | clean =>
      cases hnext
      exact hop .clean
  | exit =>
      cases hnext
      obtain ⟨h', hdestory, -⟩ := destoryMoudle_run hr.chains.toLists hr.free
      exact ⟨.done, w.withoutHead enPort,
        done_run (done_run (vhashDestoryMoudle_run hid hhead hdestory) _) _, inMode_absent hid⟩
  | lock =>
      cases hnext
      refine ⟨.done, w.withHead enPort {h with locked := true, log := h.log ++ [.lock]},
        done_run (withMoudle_run () hid hhead (spinLockLock_run hr.free)) _,
        inMode_held hid rfl (hr.withLog _)⟩
  | unLock =>
      cases hnext
      refine ⟨.done, w.withHead enPort {h with locked := false, log := h.log ++ [.unlock]},
        done_run (withMoudle_run () hid hhead spinLockUnlock_run) _,
        inMode_free hid (hr.withLog _)⟩
  | getCount out =>
      cases out with
      | none => exact absurd rfl hgiven
      | some count =>
          cases hnext
          obtain ⟨keys, ha⟩ := ht.arranged
          obtain ⟨w', hrun, ha'⟩ := portVHashGetCount_run ha count
          exact ⟨_, w', by simp [portCall, hrun]; rfl, ha'.registered, m, ha'.toTable⟩
  | store ptr field =>
      cases hnext
      exact hop (.store ptr field)

end Free

section Held

variable {w : PortWorld} {c : PortCall} {mode : TableMode}

/-- A store through a pointer does not ask for the mutex. -/
theorem storeItem_held (hw : InMode w .held) (a : Nat) (field : PortStore) :
    ∃ w', (storeItem a field).run w = .ok ((), w') ∧ InMode w' .held := by
  have hheld := hw
  obtain ⟨hid, h, bs, m, hhead, hlocked, hr⟩ := hw
  have hhead₀ : w.astVHashHead 0 = some h := hhead
  by_cases hlive : a ∈ h.live
  · let c : Cell := ⟨a, (h.pData a).sec, (h.pData a).uSec, (h.pData a).cmd⟩
    have hcell : m (h.pData a).stPortItem = some c := hr.cell_of_live hlive
    have hwrite := hr.write hcell (Cell.store_ptr c field)
    rw [← PortStore.apply_item] at hwrite
    refine ⟨w.withHead enPort
      {h with pData := Function.update h.pData a (field.apply (h.pData a))}, ?_,
      inMode_held hid hlocked hwrite⟩
    simp [storeItem, writeItem, StateT.run, hhead₀, hlive, VHashWorld.withHead]
  · refine ⟨w, ?_, hheld⟩
    simp [storeItem, StateT.run, hhead₀, hlive]

/-- With the mutex held, what does not wait for it returns. -/
theorem portCall_held (hw : InMode w .held) (hgiven : ¬ c.refused = true)
    (hnext : TableMode.next .held c = some mode) :
    ∃ reply w', (portCall c).run w = .ok (reply, w') ∧ InMode w' mode := by
  have hheld := hw
  obtain ⟨hid, h, bs, m, hhead, hlocked, hr⟩ := hw
  have hself : w.withHead enPort h = w := withHead_self hhead
  cases c with
  | init mallocOk =>
      cases hnext
      exact ⟨.done, w, done_run (done_run
        (vhashCreateMoudle_present hid hhead portMoudle mallocOk) _) _, hheld⟩
  | unLock =>
      cases hnext
      exact ⟨.done, w.withHead enPort {h with locked := false, log := h.log ++ [.unlock]},
        done_run (withMoudle_run () hid hhead spinLockUnlock_run) _,
        inMode_free hid (hr.withLog _)⟩
  | getNextNode pstItem prev out =>
      cases pstItem with
      | none => cases hnext
      | some key =>
          cases prev with
          | some a => cases hnext
          | none =>
              cases hnext
              have hcalc : h.moudle.pfnVHashCalc = some portVHashCalc := hr.calc
              have hrun : (guardedNext (some key) none out).run w =
                  .ok ((vhashErr, out), w.withHead enPort h) :=
                withMoudle_run (vhashErr, out) hid hhead (getNextNode_unpointed hcalc out)
              rw [hself] at hrun
              exact ⟨.item vhashErr out.join none, w, by simp [portCall, hrun], hheld⟩
  | getCount out =>
      cases out with
      | none => exact absurd rfl hgiven
      | some count =>
          cases hnext
          have hrun : (portVHashGetCount (some count)).run w =
              .ok ((vhashOk, some h.uiTotal), w.withHead enPort h) :=
            withMoudle_run (vhashErr, some count) hid hhead nodeTotal_run
          rw [hself] at hrun
          exact ⟨.count vhashOk h.uiTotal, w, by simp [portCall, hrun], hheld⟩
  | store ptr field =>
      cases hnext
      obtain ⟨w', hrun, hheld'⟩ := storeItem_held hheld ptr field
      exact ⟨.done, w', done_run hrun _, hheld'⟩
  | add pstItem | update pstItem | del pstItem =>
      cases pstItem with
      | none => exact absurd rfl hgiven
      | some key => cases hnext
  | findStruct pstItem out =>
      cases pstItem with
      | none => exact absurd rfl hgiven
      | some key =>
          cases out with
          | none => exact absurd rfl hgiven
          | some pp => cases hnext
  | clean | exit | lock => cases hnext

/-- And everything else waits for ever. -/
theorem portCall_deadlock (hw : InMode w .held) (hlocks : c.locks = true) :
    (portCall c).run w = .error .deadlock := by
  obtain ⟨hid, h, bs, m, hhead, hlocked, hr⟩ := hw
  have hhead₀ : w.astVHashHead 0 = some h := hhead
  have hcallbacks : addCallbacks h.moudle = true ∧ delCallbacks h.moudle = true ∧
      h.moudle.pfnVHashCalc = some portVHashCalc := by
    have hmoudle : h.moudle = portMoudle := hr.moudle
    rw [hmoudle]
    exact ⟨rfl, rfl, rfl⟩
  obtain ⟨hadd, hdel, hcalc⟩ := hcallbacks
  cases c with
  | init | unLock | getCount | store => cases hlocks
  | add pstItem out want =>
      obtain ⟨key, rfl⟩ := Option.isSome_iff_exists.mp hlocks
      have hrun := withMoudle_fault (vhashErr, some none) hid hhead
        (addNode2_deadlock key hlocked hadd key (some none) want)
      simp [portCall, portVHashAdd, vhashAddNode2, hrun]
  | update pstItem out want =>
      obtain ⟨key, rfl⟩ := Option.isSome_iff_exists.mp hlocks
      have hrun := withMoudle_fault (vhashErr, some none) hid hhead
        (addNode2_deadlock key hlocked hadd key (some none) want)
      simp [portCall, portVHashUpdate, vhashAddNode2, hrun]
  | del pstItem =>
      obtain ⟨key, rfl⟩ := Option.isSome_iff_exists.mp hlocks
      have hrun := withMoudle_fault vhashErr hid hhead (delNode_deadlock key hlocked hdel)
      simp [portCall, portVHashDel, vhashDelNode, hrun]
  | findStruct pstItem out =>
      obtain ⟨hkey, hout⟩ := Bool.and_eq_true_iff.mp hlocks
      obtain ⟨key, rfl⟩ := Option.isSome_iff_exists.mp hkey
      obtain ⟨pp, rfl⟩ := Option.isSome_iff_exists.mp hout
      have hrun := withMoudle_fault (vhashErr, some pp) hid hhead
        (getNode_deadlock key hlocked (some pp))
      simp [portCall, portVHashFindStruct, vhashGetNode, hrun]
  | getNextNode pstItem prev out =>
      have hrun : (portVHashGetNextNode pstItem prev out).run w = .error .deadlock :=
        withMoudle_fault _ hid hhead (getNextNode_deadlock hlocked hcalc hlocks out)
      have hguarded : (guardedNext pstItem prev out).run w = .error .deadlock := by
        cases pstItem <;> cases prev <;> simpa [guardedNext, StateT.run, hhead₀, hlocked] using hrun
      simp [portCall, hguarded]
  | clean =>
      have hrun := withMoudle_fault vhashErr hid hhead (cleanMoudle_deadlock hlocked)
      simp [portCall, portVHashCleanAll, vhashCleanMoudle, hrun]
  | exit =>
      have hrun := vhashDestoryMoudle_fault hid hhead (destoryMoudle_deadlock hlocked)
      simp [portCall, portVHashExit, hrun]
  | lock =>
      have hrun := withMoudle_fault () hid hhead (spinLockLock_deadlock hlocked)
      simp [portCall, portVHashLock, vhashLock, hrun]

end Held

section Calls

variable {w : PortWorld} {c : PortCall} {mode : TableMode}

/-- One call. -/
theorem portCall_returns (hw : InMode w mode) {mode' : TableMode}
    (hnext : mode.next c = some mode') :
    ∃ reply w', (portCall c).run w = .ok (reply, w') ∧ InMode w' mode' := by
  by_cases hrefused : c.refused = true
  · obtain ⟨reply, hrun⟩ := portCall_refused w hrefused
    rw [mode.next_refused hrefused] at hnext
    cases hnext
    exact ⟨reply, w, hrun, hw⟩
  · cases mode with
    | absent => exact portCall_absent hw hrefused hnext
    | free => exact portCall_free hw hrefused hnext
    | held => exact portCall_held hw hrefused hnext

/-- The calls that do not return are those that come to the mutex while their
caller has it. -/
theorem TableMode.next_none_iff : mode.next c = none ↔ mode = .held ∧ c.locks = true := by
  constructor
  · intro hnone
    cases mode with
    | absent => rcases c with (_ | _) | _ <;> cases hnone
    | free => cases c <;> cases hnone
    | held =>
        refine ⟨rfl, ?_⟩
        cases c with
        | unLock => cases hnone
        | _ => simpa [TableMode.next] using hnone
  · rintro ⟨rfl, hlocks⟩
    cases c with
    | unLock => cases hlocks
    | _ => simp [TableMode.next, hlocks]

/-- Every run of the interface, from the time before `PORT_VHash_INIT` on: it
comes to its end, or it waits for ever, and the calls alone tell which. It does
the latter exactly when a call comes to the mutex of a table that is there
between `PORT_VHash_Lock` and the next `PORT_VHash_unLock`. -/
theorem portCalls_end (cs : List PortCall) :
    (∀ mode, cs.foldlM TableMode.next .absent = some mode →
      ∃ replies w, (cs.mapM portCall).run (vhashInit enVHashMoudleMax) = .ok (replies, w) ∧
        InMode w mode) ∧
    (cs.foldlM TableMode.next .absent = none →
      (cs.mapM portCall).run (vhashInit enVHashMoudleMax) = .error .deadlock) ∧
    (cs.foldlM TableMode.next .absent = none ↔ ∃ before c after, cs = before ++ c :: after ∧
      before.foldlM TableMode.next .absent = some .held ∧ c.locks = true) := by
  have hstart : InMode (vhashInit enVHashMoudleMax) .absent := ⟨enPort_known, rfl⟩
  obtain ⟨hreturns, hwaits⟩ := mapM_monitored InMode
    (fun _ _ _ _ hw hnext => portCall_returns hw hnext)
    (fun _ _ _ hw hnext => by
      obtain ⟨rfl, hlocks⟩ := TableMode.next_none_iff.mp hnext
      exact portCall_deadlock hw hlocks)
    cs hstart
  refine ⟨hreturns, hwaits, ?_⟩
  rw [foldlM_eq_none_iff]
  constructor
  · rintro ⟨before, c, after, mode, hcs, hbefore, hstop⟩
    obtain ⟨rfl, hlocks⟩ := TableMode.next_none_iff.mp hstop
    exact ⟨before, c, after, hcs, hbefore, hlocks⟩
  · rintro ⟨before, c, after, hcs, hbefore, hlocks⟩
    exact ⟨before, c, after, .held, hcs, hbefore, TableMode.next_none_iff.mpr ⟨rfl, hlocks⟩⟩

end Calls

end RedisTrace
