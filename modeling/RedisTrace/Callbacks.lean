import RedisTrace.PortVHash
import RedisTrace.VHash.Calls

/-!
Missing callbacks. A module may be registered with any of its callbacks NULL,
and each function has a list of its own of those it insists on. A call meets
what is expected of it if it invokes no NULL callback and is refused, with
nothing changed, where a callback of its work is missing. `VHash_Get_Node` has
no such list.
-/

namespace RedisTrace

variable {K N D : Type}

namespace VHashCall

/-- The pointers a function checks before it looks at the module are there. -/
def pointersGiven : VHashCall K N D → Bool
  | .createMoudle _ pVHashMoudle _ => pVHashMoudle.isSome
  | .getNode _ pKey ppData => pKey.isSome && ppData.isSome
  | .addNode2 _ pKey pData _ _ => pKey.isSome && pData.isSome
  | .delNode _ pKey => pKey.isSome
  | .nodeStat _ puiNodeStat => puiNodeStat.isSome
  | .nodeTotal _ puiTotal => puiTotal.isSome
  | .destoryMoudle _ | .cleanMoudle _ | .getNextNode _ _ _ _ => true

/-- The callbacks a function needs for its work are there. `clean` may be
missing everywhere. -/
def callbacksGiven (m : VHashMoudle K N D) : VHashCall K N D → Bool
  | .getNode _ _ _ | .delNode _ _ => delCallbacks m
  | .addNode2 _ _ _ _ _ => addCallbacks m
  | .getNextNode _ _ _ _ => m.pfnVHashCalc.isSome
  | _ => true

/-- The reply that leaves the out-parameter as it was passed. -/
def refusal (ret : UInt32) : VHashCall K N D → VHashReply
  | .getNode _ _ ppData => .node (ret, ppData)
  | .addNode2 _ _ _ ppNodeData _ => .node (ret, ppNodeData)
  | .getNextNode _ _ _ ppNodeData => .node (ret, ppNodeData)
  | .nodeStat _ puiNodeStat => .stat (ret, puiNodeStat)
  | .nodeTotal _ puiTotal => .total (ret, puiTotal)
  | _ => .code ret

end VHashCall

section Guards

variable {w : VHashWorld K N D} {c : VHashCall K N D}

/-- `VHash_Get_Node` got to a module without a hash function or a comparison. -/
def UncheckedGet (w : VHashWorld K N D) (c : VHashCall K N D) : Prop :=
  ∃ id key out h, c = .getNode id (some key) (some out) ∧ id < w.uiMaxVhashModules ∧
    w.astVHashHead id.toNat = some h ∧ delCallbacks h.moudle = false

theorem UncheckedGet.of_null (hnull : CallsNull w c) : UncheckedGet w c := by
  obtain ⟨id, key, out, h, rfl, hid, hhead, hcalc⟩ := hnull
  refine ⟨id, key, out, h, rfl, hid, hhead, ?_⟩
  unfold delCallbacks
  rw [hcalc]
  rfl

/-- A function that refuses its module leaves it as it was. -/
theorem withMoudle_refused {α : Type} {op : VHashM K N D α} {answer : α} {id : UInt32}
    {h : VHashHead K N D} (error : α) (hid : id < w.uiMaxVhashModules)
    (hhead : w.astVHashHead id.toNat = some h) (hrun : op.run h = .ok (answer, h)) :
    (withMoudle id error op).run w = .ok (answer, w) := by
  rw [withMoudle_run error hid hhead hrun]
  exact congrArg (fun w' => Except.ok (answer, w')) (withHead_self hhead)

/-- Where a callback of its work is missing, `VHash_Get_Node` answers anything
but that: the tables of such a module are empty. -/
theorem getNode_unchecked {h h' : VHashHead K N D} {bs : Nat → List Nat} {key : K}
    (hs : Sound h bs) (hmissing : delCallbacks h.moudle = false)
    {answer : UInt32 × Option NodePtr} {ppData : Option NodePtr}
    (hrun : (getNode key ppData).run h = .ok (answer, h')) : answer.1 = vhashNotFound := by
  cases hcalc : h.moudle.pfnVHashCalc with
  | none =>
      rw [getNode_null hs hcalc] at hrun
      cases hrun
  | some hash =>
      by_cases hin : h.moudle.Reaches key
      · obtain ⟨_, hcalc', hlt⟩ := hin
        obtain ⟨f, hserves⟩ | hmiss := hs.lookup hcalc' hlt
        · unfold delCallbacks at hmissing
          rw [hcalc, hserves.compare] at hmissing
          cases hmissing
        · rw [getNode_of_miss hs.free hmiss] at hrun
          cases hrun
          rfl
      · rw [getNode_beyond hs hcalc hin] at hrun
        cases hrun

variable [Zero D]

/-- The call invokes no NULL callback, and is refused where one it needs is
missing. -/
structure CallbacksGuarded (w : VHashWorld K N D) (c : VHashCall K N D) : Prop where
  neverNull : (vhashCall c).run w ≠ .error .nullCallback
  refused : ∀ h, c.enMoudleId < w.uiMaxVhashModules →
    w.astVHashHead c.enMoudleId.toNat = some h → c.pointersGiven = true →
    c.callbacksGiven h.moudle = false →
    (vhashCall c).run w = .ok (c.refusal vhashInterfaceErr, w)

/-- The functions with a list of callbacks keep to it. -/
theorem refused_of_listed {h : VHashHead K N D} (hget : ¬ UncheckedGet w c)
    (hid : c.enMoudleId < w.uiMaxVhashModules)
    (hhead : w.astVHashHead c.enMoudleId.toNat = some h) (hgiven : c.pointersGiven = true)
    (hmissing : c.callbacksGiven h.moudle = false) :
    (vhashCall c).run w = .ok (c.refusal vhashInterfaceErr, w) := by
  cases c with
  | createMoudle | destoryMoudle | cleanMoudle | nodeStat | nodeTotal => cases hmissing
  | getNode id pKey ppData =>
      obtain ⟨hkey, hout⟩ := Bool.and_eq_true_iff.mp hgiven
      obtain ⟨key, rfl⟩ := Option.isSome_iff_exists.mp hkey
      obtain ⟨out, rfl⟩ := Option.isSome_iff_exists.mp hout
      exact absurd ⟨id, key, out, h, rfl, hid, hhead, hmissing⟩ hget
  | addNode2 id pKey pData ppNodeData want =>
      obtain ⟨hkey, hdata⟩ := Bool.and_eq_true_iff.mp hgiven
      obtain ⟨key, rfl⟩ := Option.isSome_iff_exists.mp hkey
      obtain ⟨data, rfl⟩ := Option.isSome_iff_exists.mp hdata
      exact map_run _ (withMoudle_refused _ hid hhead
        (addNode2_refuses hmissing data ppNodeData want))
  | getNextNode id pKey pData ppNodeData =>
      have hnone : h.moudle.pfnVHashCalc = none := Option.isNone_iff_eq_none.mp
        (Option.isSome_eq_false_iff.mp hmissing)
      exact map_run _ (withMoudle_refused _ hid hhead
        (getNextNode_refuses hnone pKey pData ppNodeData))
  | delNode id pKey =>
      obtain ⟨key, rfl⟩ := Option.isSome_iff_exists.mp hgiven
      exact map_run _ (withMoudle_refused _ hid hhead (delNode_refuses hmissing))

theorem not_guarded_of_unchecked (hw : w.Sound) (hget : UncheckedGet w c) :
    ¬ CallbacksGuarded w c := by
  intro hguarded
  obtain ⟨id, key, out, h, rfl, hid, hhead, hmissing⟩ := hget
  have hrefused := hguarded.refused h hid hhead rfl hmissing
  obtain ⟨bs, hs⟩ := hw _ h hhead
  cases hbody : (getNode key (some out)).run h with
  | error e =>
      have hfault : (vhashCall (.getNode id (some key) (some out))).run w = .error e :=
        map_fault _ (withMoudle_fault _ hid hhead hbody)
      rw [hfault] at hrefused
      cases hrefused
  | ok result =>
      obtain ⟨answer, h'⟩ := result
      have hret := getNode_unchecked hs hmissing hbody
      have hok : (vhashCall (.getNode id (some key) (some out))).run w =
          .ok (.node answer, w.withHead id h') :=
        map_run _ (withMoudle_run _ hid hhead hbody)
      rw [hok, VHashCall.refusal] at hrefused
      have hanswer : answer = (vhashInterfaceErr, some out) :=
        VHashReply.node.inj (Prod.mk.inj (Except.ok.inj hrefused)).1
      rw [hanswer] at hret
      cases hret

/-- A NULL callback is invoked by `VHash_Get_Node` on a module without a hash
function and by no other call. -/
theorem vhashCall_null_iff (hw : w.Sound) :
    (vhashCall c).run w = .error .nullCallback ↔ CallsNull w c := by
  constructor
  · intro hrun
    rcases vhashCall_ends hw c with ⟨reply, w', hrun', -⟩ | ⟨hnull, -⟩ | hfault
    · rw [hrun] at hrun'
      cases hrun'
    · exact hnull
    · rw [hrun] at hfault
      cases hfault
  · exact vhashCall_null hw

/-- In every table that can be reached, every call but an unchecked
`VHash_Get_Node` meets what is expected of it. -/
theorem callbacksGuarded_iff (hw : Reached w) (c : VHashCall K N D) :
    (CallbacksGuarded w c ↔ ¬ UncheckedGet w c) ∧
      ((vhashCall c).run w = .error .nullCallback ↔ CallsNull w c) := by
  have hnull := vhashCall_null_iff (c := c) hw.sound
  refine ⟨?_, hnull⟩
  constructor
  · intro hguarded hget
    exact not_guarded_of_unchecked hw.sound hget hguarded
  · intro hget
    constructor
    · intro hrun
      exact hget (.of_null (hnull.mp hrun))
    · intro h hid hhead hgiven hmissing
      exact refused_of_listed hget hid hhead hgiven hmissing

end Guards

section Port

/-- The connection table has all its callbacks. -/
theorem callbacksGuarded_iff_port :
    ∃ w : VHashWorld PortItem PortItem PortVHashItem, Reached w ∧
      CallbacksGuarded w (.getNode enPort (some (keyOfBucket 0)) (some none)) := by
  obtain ⟨w, h, _, _, hw, _, hhead, hmoudle, _⟩ :=
    reached_first enPort_known portFull (keyOfBucket 0) (keyOfBucket 0) rfl
  refine ⟨w, hw, (callbacksGuarded_iff hw _).1.mpr ?_⟩
  rintro ⟨_, _, _, h', hcall, _, hhead', hmissing⟩
  cases hcall
  rw [hhead] at hhead'
  cases hhead'
  rw [hmoudle] at hmissing
  cases hmissing

/-- The connection table, registered without its hash function. -/
def portUnhashed : VHashMoudle PortItem PortItem PortVHashItem :=
  {portMoudle with pfnVHashCalc := none}

/-- The search in it invokes NULL. -/
theorem callbacksGuarded_unhashed :
    ∃ w, Reached w ∧
      (vhashCall (.getNode enPort (some (keyOfBucket 0)) (some none))).run w =
        .error .nullCallback ∧
      (∃ h, w.astVHashHead enPort.toNat = some h ∧ h.moudle = portUnhashed) ∧
      ¬ CallbacksGuarded w (.getNode enPort (some (keyOfBucket 0)) (some none)) := by
  obtain ⟨w, h, hw, hid', hhead, hmoudle, -⟩ := reached_created enPort_known portUnhashed
  have hnull : CallsNull w (.getNode enPort (some (keyOfBucket 0)) (some none)) := by
    refine ⟨enPort, keyOfBucket 0, none, h, rfl, hid', hhead, ?_⟩
    rw [hmoudle]
    rfl
  exact ⟨w, hw, vhashCall_null hw.sound hnull, ⟨h, hhead, hmoudle⟩,
    not_guarded_of_unchecked hw.sound (.of_null hnull)⟩

end Port

end RedisTrace
