import RedisTrace.PortTable

/-!
Runs of the connection table's interface: any sequence of calls, and of stores
to `sec`, `u_sec` and the bytes of `cmd` through the pointers the calls have
handed out. The map model answers every call from a `PortMap` alone; only the
address of a new item is left to the allocator.
-/

namespace RedisTrace

open CircularList Run

/-- One store to a non-key field of an item. -/
inductive PortStore where
  | sec (v : UInt32)
  | uSec (v : UInt32)
  | cmd (i : Fin 32) (v : UInt8)
  deriving DecidableEq, Repr

def PortStore.apply (item : PortVHashItem) : PortStore → PortVHashItem
  | .sec v => {item with sec := v}
  | .uSec v => {item with uSec := v}
  | .cmd i v => {item with cmd := item.cmd.setIfInBounds i v}

/-- A call, or a store through a pointer. `out` is what the caller's pointer
variable holds before the call, `want` what `malloc` would answer. -/
inductive PortOp where
  | add (item : PortItem) (out : NodePtr) (want : Option Nat)
  | update (item : PortItem) (out : NodePtr) (want : Option Nat)
  | del (item : PortItem)
  | findStruct (item : PortItem) (out : NodePtr)
  | clean
  | getCount (out : UInt32)
  | store (ptr : Nat) (field : PortStore)
  deriving DecidableEq, Repr

/-- What the caller sees: the return code, the pointer variable after the
call, and the item behind it when the call says there is one. -/
inductive PortReply where
  | item (ret : UInt32) (out : NodePtr) (seen : Option PortVHashItem)
  | code (ret : UInt32)
  | count (ret : UInt32) (out : UInt32)
  | done
  deriving DecidableEq, Repr

/-- Looking at the item a call has handed out. -/
def observe (ret : UInt32) (out : NodePtr) : PortW PortReply :=
  match out with
  | none => return .item ret none none
  | some a => do
      let seen ← readItem a
      return .item ret out (some seen)

/-- Only stores to items that are in the table belong to a run; any other
would write to freed memory. -/
def storeItem (a : Nat) (field : PortStore) : PortW Unit := fun w =>
  match w.astVHashHead enPort.toNat with
  | none => .ok ((), w)
  | some h => if a ∈ h.live then writeItem a field.apply w else .ok ((), w)

def portStep : PortOp → PortW PortReply
  | .add item out want => do
      let (ret, pp) ← portVHashAdd item (some out) want
      if ret = vhashOk ∨ ret = vhashUpdateOk then observe ret pp.join
      else return .item ret pp.join none
  | .update item out want => do
      let (ret, pp) ← portVHashUpdate item (some out) want
      if ret = vhashUpdateOk then observe ret pp.join
      else return .item ret pp.join none
  | .del item => do
      let ret ← portVHashDel item
      return .code ret
  | .findStruct item out => do
      let (ret, pp) ← portVHashFindStruct item (some out)
      if ret = vhashOk then observe ret pp.join
      else return .item ret pp.join none
  | .clean => do
      portVHashCleanAll
      return .done
  | .getCount out => do
      let (ret, n) ← portVHashGetCount (some out)
      return .count ret (n.getD out)
  | .store ptr field => do
      storeItem ptr field
      return .done

/-- `PORT_VHash_INIT` and a run. `mallocOk` is about the allocation of the
module itself. -/
def portRun (mallocOk : Bool) (ops : List PortOp) : PortW (List PortReply) := do
  portVHashInit mallocOk
  ops.mapM portStep

section MapModel

def Cell.store (c : Cell) : PortStore → Cell
  | .sec v => {c with sec := v}
  | .uSec v => {c with uSec := v}
  | .cmd i v => {c with cmd := c.cmd.setIfInBounds i v}

/-- One operation of a finite map from 4-tuples to items. -/
inductive MapStep : PortMap → PortOp → PortReply → PortMap → Prop where
  | addPresent {m : PortMap} {key : PortItem} {c : Cell} (out : NodePtr)
      (want : Option Nat) (present : m key = some c) :
      MapStep m (.add key out want)
        (.item vhashUpdateOk (some c.ptr) (some (c.item key))) m
  | addFailed {m : PortMap} {key : PortItem} (out : NodePtr) (absent : m key = none) :
      MapStep m (.add key out none) (.item vhashNotInnif out none) m
  | addInserted {m : PortMap} {key : PortItem} {a : Nat} (out : NodePtr) (want : Nat)
      (absent : m key = none) (fresh : m.Fresh a) :
      MapStep m (.add key out (some want))
        (.item vhashOk (some a) (some ((Cell.zeroed a).item key)))
        (Function.update m key (some (Cell.zeroed a)))
  | updatePresent {m : PortMap} {key : PortItem} {c : Cell} (out : NodePtr)
      (want : Option Nat) (present : m key = some c) :
      MapStep m (.update key out want)
        (.item vhashUpdateOk (some c.ptr) (some (c.item key))) m
  | updateFailed {m : PortMap} {key : PortItem} (out : NodePtr) (absent : m key = none) :
      MapStep m (.update key out none) (.item vhashNotInnif out none) m
  | updateInserted {m : PortMap} {key : PortItem} {a : Nat} (out : NodePtr) (want : Nat)
      (absent : m key = none) (fresh : m.Fresh a) :
      MapStep m (.update key out (some want)) (.item vhashOk out none)
        (Function.update m key (some (Cell.zeroed a)))
  | delPresent {m : PortMap} {key : PortItem} {c : Cell} (present : m key = some c) :
      MapStep m (.del key) (.code vhashOk) (Function.update m key none)
  | delAbsent {m : PortMap} {key : PortItem} (absent : m key = none) :
      MapStep m (.del key) (.code vhashNotFound) m
  | findPresent {m : PortMap} {key : PortItem} {c : Cell} (out : NodePtr)
      (present : m key = some c) :
      MapStep m (.findStruct key out)
        (.item vhashOk (some c.ptr) (some (c.item key))) m
  | findAbsent {m : PortMap} {key : PortItem} (out : NodePtr) (absent : m key = none) :
      MapStep m (.findStruct key out) (.item vhashNotFound out none) m
  | clean (m : PortMap) : MapStep m .clean .done PortMap.empty
  | getCount {m : PortMap} {n : UInt32} (out : UInt32)
      (exact : Set.ncard m.keys < 2 ^ 32 → n.toNat = Set.ncard m.keys) :
      MapStep m (.getCount out) (.count vhashOk n) m
  | storeHit {m : PortMap} {key : PortItem} {c : Cell} (field : PortStore)
      (present : m key = some c) :
      MapStep m (.store c.ptr field) .done (Function.update m key (some (c.store field)))
  | storeMiss {m : PortMap} {a : Nat} (field : PortStore) (fresh : m.Fresh a) :
      MapStep m (.store a field) .done m

/-- The key an operation is about, as far as the map knows it. -/
def PortOp.Touches (op : PortOp) (m : PortMap) (key : PortItem) : Prop :=
  match op with
  | .add item _ _ | .update item _ _ | .del item => item = key
  | .findStruct _ _ | .getCount _ => False
  | .clean => True
  | .store ptr _ => ∃ c, m key = some c ∧ c.ptr = ptr

/-- No operation of the map changes another key's item. -/
theorem MapStep.frame {m m' : PortMap} {op : PortOp} {reply : PortReply}
    (hstep : MapStep m op reply m') {key : PortItem} (hkey : ¬ op.Touches m key) :
    m' key = m key := by
  have hne : ∀ item, ¬ item = key → key ≠ item := fun _ hitem heq => hitem heq.symm
  cases hstep with
  | addInserted out want absent fresh => exact Function.update_of_ne (hne _ hkey) _ _
  | updateInserted out want absent fresh => exact Function.update_of_ne (hne _ hkey) _ _
  | delPresent present => exact Function.update_of_ne (hne _ hkey) _ _
  | clean => exact absurd trivial hkey
  | storeHit field present =>
      apply Function.update_of_ne
      rintro rfl
      exact hkey ⟨_, present, rfl⟩
  | addPresent | addFailed | updatePresent | updateFailed | delAbsent | findPresent
  | findAbsent | getCount | storeMiss => rfl

/-- The keys in the order they have come in, after one more operation. An
answer of `vhashOk` to an insertion says that the key is new. -/
def arrive (keys : List PortItem) : PortOp → PortReply → List PortItem
  | .add item _ _, .item ret _ _ | .update item _ _, .item ret _ _ =>
      if ret = vhashOk then keys ++ [item] else keys
  | .del item, .code ret => if ret = vhashOk then keys.filter (· ≠ item) else keys
  | .clean, _ => []
  | _, _ => keys

/-- The keys a run leaves in the table, the oldest first. -/
def arrivals (ops : List PortOp) (replies : List PortReply) : List PortItem :=
  (ops.zip replies).foldl (fun keys (op, reply) => arrive keys op reply) []

end MapModel

section Simulation

variable {w : PortWorld} {m : PortMap} {keys : List PortItem} {key : PortItem} {c : Cell}

theorem observe_run (ht : PortTable w m) (hc : m key = some c) (ret : UInt32) :
    (observe ret (some c.ptr)).run w =
      .ok (.item ret (some c.ptr) (some (c.item key)), w) := by
  simp [observe, readItem_run ht hc]

theorem PortStore.apply_item (field : PortStore) (c : Cell) (key : PortItem) :
    field.apply (c.item key) = (c.store field).item key := by
  cases field <;> rfl

theorem Cell.store_ptr (c : Cell) (field : PortStore) : (c.store field).ptr = c.ptr := by
  cases field <;> rfl

theorem storeItem_run (ha : Arranged w m keys) (a : Nat) (field : PortStore) :
    ∃ w' m', (storeItem a field).run w = .ok ((), w') ∧
      MapStep m (.store a field) .done m' ∧ Arranged w' m' keys := by
  obtain ⟨hid, h, bs, hhead, hr, ho⟩ := ha
  have hhead₀ : w.astVHashHead 0 = some h := hhead
  by_cases hlive : a ∈ h.live
  · have hcell := hr.cell_of_live hlive
    obtain ⟨w', hrun, ha'⟩ := writeItem_run ⟨hid, h, bs, hhead, hr, ho⟩ hcell field.apply _
      (Cell.store_ptr _ field) (PortStore.apply_item field _ _)
    refine ⟨w', _, ?_, .storeHit field hcell, ha'⟩
    simpa [storeItem, StateT.run, hhead₀, hlive] using hrun
  · refine ⟨w, m, ?_, .storeMiss field ?_, hid, h, bs, hhead, hr, ho⟩
    · simp [storeItem, StateT.run, hhead₀, hlive]
    · rintro key c hc rfl
      exact hlive (hr.live_of_cell hc)

private theorem failed_code : vhashNotInnif ≠ vhashOk ∧ vhashNotInnif ≠ vhashUpdateOk := by
  decide

private theorem inserted_code : vhashOk ≠ vhashUpdateOk := by decide

private theorem absent_code : vhashNotFound ≠ vhashOk := by decide

/-- Every call on the table answers as the map does, and keeps the order in
which the keys have come. -/
theorem portStep_simulates (ha : Arranged w m keys) (op : PortOp) :
    ∃ reply w' m', (portStep op).run w = .ok (reply, w') ∧ MapStep m op reply m' ∧
      Arranged w' m' (arrive keys op reply) := by
  cases op with
  | add key out want =>
      cases hkey : m key with
      | some c =>
          obtain ⟨w', hrun, ha'⟩ := portVHashAdd_present ha hkey (some out) want
          exact ⟨_, w', m, by simp [portStep, hrun, observe_run ha'.toTable hkey],
            .addPresent out want hkey, ha'⟩
      | none =>
          cases want with
          | none =>
              obtain ⟨w', hrun, ha'⟩ := portVHashAdd_failed ha hkey (some out)
              exact ⟨_, w', m, by simp [portStep, hrun, failed_code],
                .addFailed out hkey, ha'⟩
          | some want =>
              obtain ⟨w', a, hrun, hfresh, ha'⟩ := portVHashAdd_inserted ha hkey (some out) want
              have hseen : (observe vhashOk (some a)).run w' =
                  .ok (.item vhashOk (some a) (some ((Cell.zeroed a).item key)), w') :=
                observe_run ha'.toTable (Function.update_self key (some (Cell.zeroed a)) m) vhashOk
              exact ⟨_, w', _, by simp [portStep, hrun, hseen],
                .addInserted out want hkey hfresh, ha'⟩
  | update key out want =>
      cases hkey : m key with
      | some c =>
          obtain ⟨w', hrun, ha'⟩ := portVHashUpdate_present ha hkey (some out) want
          exact ⟨_, w', m, by simp [portStep, hrun, observe_run ha'.toTable hkey],
            .updatePresent out want hkey, ha'⟩
      | none =>
          cases want with
          | none =>
              obtain ⟨w', hrun, ha'⟩ := portVHashUpdate_failed ha hkey (some out)
              exact ⟨_, w', m, by simp [portStep, hrun, failed_code],
                .updateFailed out hkey, ha'⟩
          | some want =>
              obtain ⟨w', a, hrun, hfresh, ha'⟩ := portVHashUpdate_inserted ha hkey (some out) want
              exact ⟨_, w', _, by simp [portStep, hrun, inserted_code],
                .updateInserted out want hkey hfresh, ha'⟩
  | del key =>
      cases hkey : m key with
      | some c =>
          obtain ⟨w', hrun, ha'⟩ := portVHashDel_present ha hkey
          exact ⟨_, w', _, by simp [portStep, hrun], .delPresent hkey, ha'⟩
      | none =>
          obtain ⟨w', hrun, ha'⟩ := portVHashDel_absent ha hkey
          exact ⟨_, w', _, by simp [portStep, hrun], .delAbsent hkey, ha'⟩
  | findStruct key out =>
      cases hkey : m key with
      | some c =>
          obtain ⟨w', hrun, ha'⟩ := portVHashFindStruct_present ha hkey out
          exact ⟨_, w', m, by simp [portStep, hrun, observe_run ha'.toTable hkey],
            .findPresent out hkey, ha'⟩
      | none =>
          obtain ⟨w', hrun, ha'⟩ := portVHashFindStruct_absent ha hkey out
          exact ⟨_, w', m, by simp [portStep, hrun, absent_code], .findAbsent out hkey, ha'⟩
  | clean =>
      obtain ⟨w', hrun, ha'⟩ := portVHashCleanAll_run ha
      exact ⟨_, w', _, by simp [portStep, hrun], .clean m, ha'⟩
  | getCount out =>
      obtain ⟨w', hrun, ha'⟩ := portVHashGetCount_run ha out
      refine ⟨.count vhashOk (UInt32.ofNat (Set.ncard m.keys)), w', m,
        by simp [portStep, hrun], .getCount out ?_, ha'⟩
      intro hsmall
      rw [UInt32.toNat_ofNat', Nat.mod_eq_of_lt hsmall]
  | store ptr field =>
      obtain ⟨w', m', hrun, hmap, ha'⟩ := storeItem_run ha ptr field
      exact ⟨_, w', m', by simp [portStep, hrun], hmap, ha'⟩

/-- Every run from `PORT_VHash_INIT` on goes through, answers as the map does,
and leaves the buckets in the order in which the keys have come. -/
theorem portRun_arranged (ops : List PortOp) :
    ∃ replies w m, (portRun true ops).run (vhashInit enVHashMoudleMax) =
        .ok (replies, w) ∧
      Steps MapStep PortMap.empty ops replies m ∧
      Arranged w m (arrivals ops replies) := by
  have hstep : ∀ (w : PortWorld) (t : PortMap × List PortItem) (op : PortOp),
      Arranged w t.1 t.2 → ∃ (reply : PortReply) (w' : PortWorld)
        (t' : PortMap × List PortItem), (portStep op).run w = .ok (reply, w') ∧
        (MapStep t.1 op reply t'.1 ∧ t'.2 = arrive t.2 op reply) ∧ Arranged w' t'.1 t'.2 := by
    intro w t op ha
    obtain ⟨reply, w', m', hrun, hmap, ha'⟩ := portStep_simulates ha op
    exact ⟨reply, w', (m', arrive t.2 op reply), hrun, ⟨hmap, rfl⟩, ha'⟩
  obtain ⟨w₀, hinit, ha₀⟩ := portVHashInit_arranged
  obtain ⟨replies, w, ⟨m, keys⟩, hrun, hsteps, ha⟩ := mapM_simulates
    (fun w (t : PortMap × List PortItem) => Arranged w t.1 t.2) hstep ops w₀
    (PortMap.empty, []) ha₀
  obtain ⟨hsteps, hkeys⟩ := hsteps.split
  refine ⟨replies, w, m, ?_, hsteps, ?_⟩
  · rw [portRun, StateT.run_bind, hinit]
    exact hrun
  · rw [arrivals, ← hkeys]
    exact ha

/-- From `PORT_VHash_INIT` on, every run of calls and stores answers as the
finite map does, starting from the empty one, and ends in a table that holds
exactly the items of the map. -/
theorem portRun_refines_map (ops : List PortOp) :
    ∃ replies w m, (portRun true ops).run (vhashInit enVHashMoudleMax) =
        .ok (replies, w) ∧
      Steps MapStep PortMap.empty ops replies m ∧ PortTable w m := by
  obtain ⟨replies, w, m, hrun, hsteps, ha⟩ := portRun_arranged ops
  exact ⟨replies, w, m, hrun, hsteps, ha.toTable⟩

end Simulation

section Invariant

/-- The representation invariant of the table, with `bs b` the nodes of bucket
`b` in list order. -/
structure PortInvariant (h : PortHead) (bs : Nat → List Nat) : Prop where
  bucket_lt : ∀ key, portVHashCalc key < h.moudle.uiBucketCount
  flink : ∀ b, b < h.bucketCount →
    List.IsChain (fun p q => nextOf h.mem p = some q)
      (.listHead b :: (bs b).map .node ++ [.listHead b])
  blink : ∀ b, b < h.bucketCount →
    List.IsChain (fun p q => prevOf h.mem p = some q)
      (.listHead b :: ((bs b).map .node).reverse ++ [.listHead b])
  distinct : ∀ b, (bs b).Nodup
  live : ∀ a, a ∈ h.live ↔ ∃ b, b < h.bucketCount ∧ a ∈ bs b
  apart : ∀ b c a, a ∈ bs b → a ∈ bs c → b = c
  placed : ∀ b a, a ∈ bs b → (portVHashCalc (h.pData a).stPortItem).toNat = b
  unique : ∀ a a', a ∈ h.live → a' ∈ h.live →
    portVHashCompare (h.pData a).stPortItem (h.pData a') = vhashOk → a = a'
  sums : ∀ b, b < h.bucketCount → h.ulDataNodeSum b = UInt32.ofNat (bs b).length
  total : h.uiTotal = ∑ b ∈ Finset.range h.bucketCount, h.ulDataNodeSum b

theorem PortRep.invariant {h : PortHead} {bs : Nat → List Nat} {m : PortMap}
    (hr : PortRep h bs m) : PortInvariant h bs where
  bucket_lt := by
    intro key
    rw [hr.moudle]
    exact portVHash_lt _
  flink := by
    intro b hb
    exact (hr.chains.ring b hb).links.imp (fun _ _ hlinked => hlinked.1)
  blink := fun b hb => (hr.chains.ring b hb).backward
  distinct := hr.chains.nodup
  live := by
    intro a
    rw [hr.chains.live a]
    constructor
    · rintro ⟨b, ha⟩
      exact ⟨b, hr.chains.lt_count ha, ha⟩
    · rintro ⟨b, _, ha⟩
      exact ⟨b, ha⟩
  apart := hr.chains.apart
  placed := hr.placed
  unique := by
    intro a a' ha ha' hequal
    have hkey := (portVHashCompare_ok_iff _ _).mp hequal
    have hcell := hr.cell_of_live ha'
    rw [hkey, hr.cell_of_live ha] at hcell
    exact congrArg Cell.ptr (Option.some.inj hcell)
  sums := hr.chains.sums
  total := hr.chains.total_eq_sum

/-- `VHash_Node_Stat` and `VHash_Node_Total` agree. -/
def StatAddsUp (w : PortWorld) : Prop :=
  ∃ puiNodeStat uiTotal w₁ w₂,
    (vhashNodeStat enPort (some [])).run w = .ok ((vhashOk, some puiNodeStat), w₁) ∧
    (vhashNodeTotal enPort (some 0)).run w = .ok ((vhashOk, some uiTotal), w₂) ∧
    puiNodeStat.sum = uiTotal

theorem PortTable.statAddsUp {w : PortWorld} {m : PortMap} (ht : PortTable w m) :
    StatAddsUp w := by
  obtain ⟨hid, h, bs, hhead, hr⟩ := ht
  refine ⟨_, h.uiTotal, _, _, withMoudle_run (vhashErr, some []) hid hhead
    (nodeStat_run hr.free), withMoudle_run (vhashErr, some 0) hid hhead nodeTotal_run, ?_⟩
  rw [sum_map_range]
  exact hr.chains.total_eq_sum.symm

variable {w : PortWorld}

/-- Without a module every call gives its error answer and changes nothing. -/
theorem portStep_unregistered (hnone : w.astVHashHead enPort.toNat = none)
    (op : PortOp) : ∃ reply, (portStep op).run w = .ok (reply, w) := by
  have hcode : vhashErr ≠ vhashOk ∧ vhashErr ≠ vhashUpdateOk := by decide
  cases op with
  | add key out want =>
      have hrun := withMoudle_none (addNode2 key key (some none) want)
        (vhashErr, some none) hnone
      exact ⟨_, by simp [portStep, portVHashAdd, vhashAddNode2, hrun, hcode]; rfl⟩
  | update key out want =>
      have hrun := withMoudle_none (addNode2 key key (some none) want)
        (vhashErr, some none) hnone
      exact ⟨_, by simp [portStep, portVHashUpdate, vhashAddNode2, hrun, hcode]; rfl⟩
  | del key =>
      have hrun := withMoudle_none (delNode key) vhashErr hnone
      exact ⟨_, by simp [portStep, portVHashDel, vhashDelNode, hrun]; rfl⟩
  | findStruct key out =>
      have hrun := withMoudle_none (getNode key (some out)) (vhashErr, some out) hnone
      exact ⟨_, by simp [portStep, portVHashFindStruct, vhashGetNode, hrun, hcode]; rfl⟩
  | clean =>
      have hrun := withMoudle_none cleanMoudle vhashErr hnone
      exact ⟨_, by simp [portStep, portVHashCleanAll, vhashCleanMoudle, hrun]; rfl⟩
  | getCount out =>
      have hrun : (portVHashGetCount (some out)).run w = .ok ((vhashErr, some out), w) :=
        withMoudle_none _ _ hnone
      exact ⟨_, by simp [portStep, hrun]; rfl⟩
  | store ptr field =>
      have hnone₀ : w.astVHashHead 0 = none := hnone
      have hrun : (storeItem ptr field).run w = .ok ((), w) := by
        simp [storeItem, StateT.run, hnone₀]
      exact ⟨_, by simp [portStep, hrun]; rfl⟩

/-- Every run from `PORT_VHash_INIT` ends without a fault in a table that
satisfies the representation invariant. When even the module could not be
allocated there is no table, and every call is refused. -/
theorem portRun_invariant (mallocOk : Bool) (ops : List PortOp) :
    ∃ replies w, (portRun mallocOk ops).run (vhashInit enVHashMoudleMax) =
        .ok (replies, w) ∧
      (mallocOk = true → (w.astVHashHead enPort.toNat).isSome) ∧
      ∀ h, w.astVHashHead enPort.toNat = some h →
        (∃ bs, PortInvariant h bs) ∧ StatAddsUp w := by
  cases mallocOk with
  | true =>
      obtain ⟨replies, w, m, hrun, _, ha⟩ := portRun_arranged ops
      have hstat := ha.toTable.statAddsUp
      obtain ⟨_, h, bs, hhead, hr, _⟩ := ha
      refine ⟨replies, w, hrun, fun _ => by rw [hhead]; rfl, ?_⟩
      intro h' hhead'
      rw [hhead] at hhead'
      cases hhead'
      exact ⟨⟨bs, hr.invariant⟩, hstat⟩
  | false =>
      let w₀ : PortWorld := vhashInit enVHashMoudleMax
      obtain ⟨replies, w, hrun, hnone⟩ := mapM_invariant
        (fun w : PortWorld => w.astVHashHead enPort.toNat = none)
        (fun w op hnone => by
          obtain ⟨reply, hstep⟩ := portStep_unregistered hnone op
          exact ⟨reply, w, hstep, hnone⟩) ops w₀ rfl
      refine ⟨replies, w, hrun, by simp, ?_⟩
      intro h hhead
      rw [hnone] at hhead
      cases hhead

end Invariant

end RedisTrace
