import RedisTrace.Library.Slots
import RedisTrace.Tables

/-!
Calls on several modules. A call reaches its own slot of `g_astVHashHead` and no
other, whatever the callbacks do, so calls on different modules can be mixed in
any order: each module is its own map.
-/

namespace RedisTrace

open Run

variable {K N D : Type}

/-- What a call on this module number can see of the modules. -/
def VHashWorld.slot (w : VHashWorld K N D) (enMoudleId : UInt32) :
    UInt32 × Option (VHashHead K N D) :=
  (w.uiMaxVhashModules, w.astVHashHead enMoudleId.toNat)

def VHashWorld.put (w : VHashWorld K N D) (enMoudleId : UInt32)
    (head : Option (VHashHead K N D)) : VHashWorld K N D :=
  {w with astVHashHead := Function.update w.astVHashHead enMoudleId.toNat head}

/-- What a program makes of one slot. -/
abbrev SlotFunction (K N D α : Type) :=
  UInt32 × Option (VHashHead K N D) → Except Fault (α × Option (VHashHead K N D))

/-- The program is a function of its slot, and changes nothing else. -/
def OnSlot {α : Type} (enMoudleId : UInt32) (op : VHashW K N D α) : Prop :=
  ∃ g : SlotFunction K N D α,
    ∀ w, op.run w = (g (w.slot enMoudleId)).map (fun (a, head) => (a, w.put enMoudleId head))

def withMoudleSlot {α : Type} (enMoudleId : UInt32) (error : α) (op : VHashM K N D α) :
    SlotFunction K N D α
  | (uiMaxVhashModules, head) =>
      if uiMaxVhashModules ≤ enMoudleId then .ok (error, head)
      else
        match head with
        | none => .ok (error, none)
        | some h => (op.run h).map (fun (a, h') => (a, some h'))

def destorySlot (enMoudleId : UInt32) : SlotFunction K N D UInt32
  | (uiMaxVhashModules, head) =>
      if uiMaxVhashModules ≤ enMoudleId then .ok (vhashErr, head)
      else
        match head with
        | none => .ok (vhashErr, none)
        | some h => (destoryMoudle.run h).map (fun (ret, _) => (ret, none))

def createSlot [Zero D] (enMoudleId : UInt32) (pVHashMoudle : Option (VHashMoudle K N D))
    (mallocOk : Bool) : SlotFunction K N D UInt32
  | (uiMaxVhashModules, head) =>
      if uiMaxVhashModules ≤ enMoudleId then .ok (vhashErr, head)
      else
        match pVHashMoudle, head with
        | none, head => .ok (vhashErr, head)
        | some _, some h => .ok (vhashOk, some h)
        | some m, none =>
            if mallocOk then
              match (initBuckets m.uiBucketCount).run (rawBuckets m.uiBucketCount) with
              | none => .error .badAddress
              | some (_, mem) => .ok (vhashOk, some (createHead m mem))
            else .ok (vhashNotInnif, none)

section Slots

variable {α β : Type} {enMoudleId : UInt32} {w : VHashWorld K N D}

theorem put_self (w : VHashWorld K N D) (enMoudleId : UInt32) :
    w.put enMoudleId (w.astVHashHead enMoudleId.toNat) = w := by
  rw [VHashWorld.put, Function.update_eq_self]

theorem put_slot (w : VHashWorld K N D) (enMoudleId : UInt32)
    (head : Option (VHashHead K N D)) :
    (w.put enMoudleId head).slot enMoudleId = (w.uiMaxVhashModules, head) := by
  simp [VHashWorld.put, VHashWorld.slot]

theorem put_slot_other (w : VHashWorld K N D) {id : UInt32} (hne : id ≠ enMoudleId)
    (head : Option (VHashHead K N D)) : (w.put enMoudleId head).slot id = w.slot id := by
  have hnat : id.toNat ≠ enMoudleId.toNat := fun heq => hne (UInt32.toNat_inj.mp heq)
  simp [VHashWorld.put, VHashWorld.slot, hnat]

theorem onSlot_pure (answer : α) :
    OnSlot enMoudleId (pure answer : VHashW K N D α) := by
  refine ⟨fun slot => .ok (answer, slot.2), ?_⟩
  intro w
  change _ = Except.ok (answer, w.put enMoudleId (w.astVHashHead enMoudleId.toNat))
  rw [put_self]
  rfl

theorem OnSlot.map {op : VHashW K N D α} (hop : OnSlot enMoudleId op) (wrap : α → β) :
    OnSlot enMoudleId (wrap <$> op) := by
  obtain ⟨g, hg⟩ := hop
  refine ⟨fun slot => (g slot).map (Prod.map wrap id), ?_⟩
  intro w
  rw [StateT.run_map, hg]
  cases hend : g (w.slot enMoudleId) with
  | error e => simp only [hend]; rfl
  | ok result => simp only [hend]; rfl

theorem withMoudle_onSlot (error : α) (op : VHashM K N D α) :
    OnSlot enMoudleId (withMoudle enMoudleId error op) := by
  refine ⟨withMoudleSlot enMoudleId error op, ?_⟩
  intro w
  unfold withMoudle withMoudleSlot StateT.run VHashWorld.slot
  by_cases hid : w.uiMaxVhashModules ≤ enMoudleId
  · simp [hid, Except.map, put_self]
  · cases hhead : w.astVHashHead enMoudleId.toNat with
    | none =>
        have hself := put_self w enMoudleId
        rw [hhead] at hself
        simp [hid, hhead, Except.map, hself]
    | some h => cases hrun : op h <;> simp [hid, hhead, hrun, Except.map, VHashWorld.put]

theorem vhashDestoryMoudle_onSlot :
    OnSlot enMoudleId (vhashDestoryMoudle enMoudleId : VHashW K N D UInt32) := by
  refine ⟨destorySlot enMoudleId, ?_⟩
  intro w
  unfold vhashDestoryMoudle destorySlot StateT.run VHashWorld.slot
  by_cases hid : w.uiMaxVhashModules ≤ enMoudleId
  · simp [hid, Except.map, put_self]
  · cases hhead : w.astVHashHead enMoudleId.toNat with
    | none =>
        have hself := put_self w enMoudleId
        rw [hhead] at hself
        simp [hid, hhead, Except.map, hself]
    | some h =>
        cases hrun : destoryMoudle h <;>
          simp [hid, hhead, hrun, Except.map, VHashWorld.put]

theorem vhashCreateMoudle_onSlot [Zero D] (pVHashMoudle : Option (VHashMoudle K N D))
    (mallocOk : Bool) :
    OnSlot enMoudleId (vhashCreateMoudle enMoudleId pVHashMoudle mallocOk) := by
  refine ⟨createSlot enMoudleId pVHashMoudle mallocOk, ?_⟩
  intro w
  have hself := put_self w enMoudleId
  unfold vhashCreateMoudle createSlot StateT.run VHashWorld.slot
  by_cases hid : w.uiMaxVhashModules ≤ enMoudleId
  · simp [hid, Except.map, put_self]
  · cases pVHashMoudle with
    | none => simp [hid, Except.map, put_self]
    | some m =>
        cases hhead : w.astVHashHead enMoudleId.toNat with
        | some h =>
            rw [hhead] at hself
            simp [hid, hhead, Except.map, hself]
        | none =>
            rw [hhead] at hself
            cases mallocOk with
            | false => simp [hid, hhead, Except.map, hself]
            | true =>
                cases hinit : initBuckets m.uiBucketCount (rawBuckets m.uiBucketCount) <;>
                  simp [hid, hhead, hinit, Except.map, VHashWorld.put]

/-- Every exported function keeps to the slot of the module number it is given. -/
theorem vhashCall_onSlot [Zero D] (c : VHashCall K N D) : OnSlot c.enMoudleId (vhashCall c) := by
  cases c with
  | createMoudle id m mallocOk => exact (vhashCreateMoudle_onSlot m mallocOk).map _
  | destoryMoudle id => exact vhashDestoryMoudle_onSlot.map _
  | cleanMoudle id => exact (withMoudle_onSlot _ _).map _
  | getNextNode id pKey pData ppNodeData => exact (withMoudle_onSlot _ _).map _
  | getNode id pKey ppData =>
      rcases pKey with _ | key
      · exact (onSlot_pure _).map _
      · rcases ppData with _ | out
        · exact (onSlot_pure _).map _
        · exact (withMoudle_onSlot _ _).map _
  | addNode2 id pKey pData ppNodeData want =>
      rcases pKey with _ | key
      · exact (onSlot_pure _).map _
      · rcases pData with _ | data
        · exact (onSlot_pure _).map _
        · exact (withMoudle_onSlot _ _).map _
  | delNode id pKey =>
      rcases pKey with _ | key
      · exact (onSlot_pure _).map _
      · exact (withMoudle_onSlot _ _).map _
  | nodeStat id puiNodeStat =>
      rcases puiNodeStat with _ | stat
      · exact (onSlot_pure _).map _
      · exact (withMoudle_onSlot _ _).map _
  | nodeTotal id puiTotal =>
      rcases puiTotal with _ | total
      · exact (onSlot_pure _).map _
      · exact (withMoudle_onSlot _ _).map _

theorem vhashCall_confined [Zero D] :
    Slots.Confined (VHashWorld.slot (K := K) (N := N) (D := D)) VHashCall.enMoudleId vhashCall := by
  constructor
  · intro c w reply w' hrun id hne
    obtain ⟨g, hg⟩ := vhashCall_onSlot c
    rw [hg w] at hrun
    cases hend : g (w.slot c.enMoudleId) with
    | error e =>
        rw [hend] at hrun
        cases hrun
    | ok result =>
        rw [hend] at hrun
        cases hrun
        exact put_slot_other w hne _
  · intro c w reply w' hrun v hslot
    obtain ⟨g, hg⟩ := vhashCall_onSlot c
    rw [hg w] at hrun
    cases hend : g (w.slot c.enMoudleId) with
    | error e =>
        rw [hend] at hrun
        cases hrun
    | ok result =>
        rw [hend] at hrun
        cases hrun
        refine ⟨v.put c.enMoudleId result.2, ?_, ?_⟩
        · rw [hg v, hslot, hend]
          rfl
        · rw [put_slot, put_slot]
          exact congrArg (·, result.2) (congrArg Prod.fst hslot)

end Slots

/-- A call that keeps to the interface, on the module of the given number; `f`
tells what each module is registered with. -/
def moudleCall [Zero D] (f : UInt32 → KeyedMoudle K N D) (c : UInt32 × TableCall K N) :
    VHashW K N D VHashReply :=
  vhashCall (c.2.call (f c.1) c.1)

/-- What the map of module `enMoudleId` does at that call. -/
def KeyedMoudle.moudleStep [Zero D] [DecidableEq K] (f : KeyedMoudle K N D)
    (uiMaxVhashModules enMoudleId : UInt32) (c : UInt32 × TableCall K N) :
    StateT (Option f.Table) Option VHashReply :=
  f.slotStep (enMoudleId < uiMaxVhashModules) c.2

section Runs

theorem enMoudleId_call (f : UInt32 → KeyedMoudle K N D) (c : UInt32 × TableCall K N) :
    (c.2.call (f c.1) c.1).enMoudleId = c.1 := by
  obtain ⟨id, c⟩ := c
  cases c with
  | next prev ppNodeData => cases prev <;> rfl
  | create | destory | clean | get | add | del | stat | total => rfl

/-- What is said of one module depends on its slot only. -/
theorem Backs.congr {f : KeyedMoudle K N D} {enMoudleId : UInt32} {w w' : VHashWorld K N D}
    {s : Option f.Table} (hb : Backs f enMoudleId w s)
    (hslot : w'.slot enMoudleId = w.slot enMoudleId) : Backs f enMoudleId w' s := by
  have hcount : w'.uiMaxVhashModules = w.uiMaxVhashModules := congrArg Prod.fst hslot
  have hhead : w'.astVHashHead enMoudleId.toNat = w.astVHashHead enMoudleId.toNat :=
    congrArg Prod.snd hslot
  cases s with
  | none => exact hhead.trans hb
  | some t =>
      obtain ⟨h, bs, hw, ht⟩ := hb
      exact ⟨h, bs, ⟨hcount ▸ hw.known, hhead.trans hw.head, hw.moudle, hw.free, hw.chains⟩, ht⟩

theorem moudleCall_confined [Zero D] (f : UInt32 → KeyedMoudle K N D) :
    Slots.Confined VHashWorld.slot Prod.fst (moudleCall f) := by
  have hcalls := vhashCall_confined.comp (fun c : UInt32 × TableCall K N => c.2.call (f c.1) c.1)
  simp only [enMoudleId_call] at hcalls
  exact hcalls

variable [Zero D] [DecidableEq K]

/-- The calls on one module answer as its map does, when no others are made. -/
theorem moudleCalls_alone (f : UInt32 → KeyedMoudle K N D) (uiMaxVhashModules enMoudleId : UInt32)
    {cs : List (UInt32 × TableCall K N)} (hcs : ∀ c ∈ cs, c.1 = enMoudleId)
    {replies : List VHashReply} {s : Option (f enMoudleId).Table}
    (hmap : (cs.mapM ((f enMoudleId).moudleStep uiMaxVhashModules enMoudleId)).run none =
      some (replies, s)) :
    ∃ w, (cs.mapM (moudleCall f)).run (vhashInit uiMaxVhashModules) = .ok (replies, w) ∧
      Backs (f enMoudleId) enMoudleId w s := by
  let rel : VHashWorld K N D → Option (f enMoudleId).Table → Prop := fun w s =>
    w.uiMaxVhashModules = uiMaxVhashModules ∧ Backs (f enMoudleId) enMoudleId w s
  have hfollows : ∀ c ∈ cs, ∀ w s reply s', rel w s →
      ((f enMoudleId).moudleStep uiMaxVhashModules enMoudleId c).run s = some (reply, s') →
      ∃ w', (moudleCall f c).run w = .ok (reply, w') ∧ rel w' s' := by
    rintro ⟨id, c⟩ hc w s reply s' ⟨hcount, hb⟩ hstep
    obtain rfl : id = enMoudleId := hcs _ hc
    rw [← hcount] at hstep
    obtain ⟨w', hrun, hcount', hb'⟩ := slotStep_answers hb hstep
    exact ⟨w', hrun, hcount'.trans hcount, hb'⟩
  have hstart : rel (vhashInit uiMaxVhashModules) none := ⟨rfl, rfl⟩
  obtain ⟨w, hrun, -, hb⟩ := mapM_follows rel cs hfollows hstart hmap
  exact ⟨w, hrun, hb⟩

/-- However calls on any modules are mixed: where the calls on each module keep
to its interface, they all come to an end, each module answers as the map of its
own calls, and in the end a lookup finds what that map has. -/
theorem moudleCalls_maps (f : UInt32 → KeyedMoudle K N D) (uiMaxVhashModules : UInt32)
    (cs : List (UInt32 × TableCall K N)) (replies : UInt32 → List VHashReply)
    (s : ∀ enMoudleId, Option (f enMoudleId).Table)
    (hmaps : ∀ enMoudleId, ((Slots.calls Prod.fst enMoudleId cs).mapM
      ((f enMoudleId).moudleStep uiMaxVhashModules enMoudleId)).run none =
        some (replies enMoudleId, s enMoudleId)) :
    ∃ all w, (cs.mapM (moudleCall f)).run (vhashInit uiMaxVhashModules) = .ok (all, w) ∧
      ∀ enMoudleId, Slots.answers Prod.fst enMoudleId cs all = replies enMoudleId ∧
        Backs (f enMoudleId) enMoudleId w (s enMoudleId) ∧
        ∀ t, s enMoudleId = some t → ∀ key,
          find enMoudleId w key = .ok ((t.lookup key).map Prod.snd) := by
  have halone := fun enMoudleId => moudleCalls_alone f uiMaxVhashModules enMoudleId
    (fun c hc => by simpa using (List.mem_filter.mp hc).2) (hmaps enMoudleId)
  obtain ⟨all, w, hrun⟩ := ((moudleCall_confined f).returns_iff cs _).mpr (fun enMoudleId => by
    obtain ⟨w, hown, -⟩ := halone enMoudleId
    exact ⟨_, w, hown⟩)
  refine ⟨all, w, hrun, ?_⟩
  intro enMoudleId
  obtain ⟨w₁, hown, hb⟩ := halone enMoudleId
  obtain ⟨w₂, hpart, hslot⟩ := (moudleCall_confined f).apart hrun (i := enMoudleId) rfl
  obtain ⟨hreplies, rfl⟩ := Prod.mk.inj (Except.ok.inj (hpart.symm.trans hown))
  have hbacks := hb.congr hslot.symm
  refine ⟨hreplies, hbacks, ?_⟩
  intro t ht key
  rw [ht] at hbacks
  exact hbacks.find key

/-- Two modules with the callbacks of the connection table, and a number that
names none. -/
def mixedCalls : List (UInt32 × TableCall PortItem PortItem) :=
  [(0, .create true), (1, .create true), (0, .add thereKey (some none) (some 7)),
    (1, .add backKey none (some 7)), (0, .add backKey none (some 7)), (1, .get thereKey none),
    (5, .total 0), (0, .next (some (thereKey, 7)) none), (1, .del backKey), (1, .total 0)]

set_option maxRecDepth 20000 in
theorem moudleCalls_maps_mixed :
    ∃ all w, (mixedCalls.mapM (moudleCall (fun _ => portKeyed))).run (vhashInit 2) =
        .ok (all, w) ∧
      Slots.answers Prod.fst 0 mixedCalls all =
        [.code vhashOk, .node (vhashOk, some (some 7)), .node (vhashOk, none),
          .node (vhashOk, some (some 8))] ∧
      Slots.answers Prod.fst 1 mixedCalls all =
        [.code vhashOk, .node (vhashOk, none), .node (vhashNotFound, some none),
          .code vhashOk, .total (vhashOk, some 0)] ∧
      find 1 w backKey = .ok none := by
  have hmaps : ∀ enMoudleId, ∃ replies s, ((Slots.calls Prod.fst enMoudleId mixedCalls).mapM
      (portKeyed.moudleStep 2 enMoudleId)).run none = some (replies, s) := by
    intro enMoudleId
    by_cases h : enMoudleId = 0 ∨ enMoudleId = 1 ∨ enMoudleId = 5
    · rcases h with rfl | rfl | rfl <;> exact ⟨_, _, rfl⟩
    · have hnone : Slots.calls Prod.fst enMoudleId mixedCalls = [] := by
        simp only [not_or] at h
        simp [Slots.calls, mixedCalls, Ne.symm h.1, Ne.symm h.2.1, Ne.symm h.2.2]
      rw [hnone]
      exact ⟨_, _, rfl⟩
  choose replies s hmaps using hmaps
  obtain ⟨all, w, hrun, hall⟩ := moudleCalls_maps (fun _ => portKeyed) 2 mixedCalls replies s hmaps
  obtain ⟨hreplies₀, -, -⟩ := hall 0
  obtain ⟨hreplies₁, -, hfind⟩ := hall 1
  have hzero := (hmaps 0).symm
  have hone := (hmaps 1).symm
  refine ⟨all, w, hrun, ?_, ?_, ?_⟩
  · rw [hreplies₀]
    exact (Prod.mk.inj (Option.some.inj hzero)).1
  · rw [hreplies₁]
    exact (Prod.mk.inj (Option.some.inj hone)).1
  · have hempty : s 1 = some ⟨[], List.nodup_nil⟩ := (Prod.mk.inj (Option.some.inj hone)).2
    exact hfind _ hempty backKey

end Runs

end RedisTrace
