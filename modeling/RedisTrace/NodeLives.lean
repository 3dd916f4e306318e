import RedisTrace.Library.Ledger
import RedisTrace.PortVHash
import RedisTrace.VHash.Calls

/-!
What becomes of the nodes of a module between its creation and its destruction.
A node is acquired by `malloc`, filled by `cpy`, cleared by `clean` and
released by `free`; the record of a module holds the events of all nodes, and
each address is followed on its own.
-/

namespace RedisTrace

open Ledger Run

variable {K N D : Type}

/-- What an event does to the node at an address. -/
def actAt (a : Nat) : Event → Option Act
  | .malloc x => if x = a then some .acquire else none
  | .cpy x => if x = a then some .fill else none
  | .clean x => if x = a then some .clear else none
  | .free x => if x = a then some .release else none
  | .lock | .unlock => none

def actsAt (a : Nat) (log : List Event) : List Act := log.filterMap (actAt a)

/-- A stored node holds a value that has not been cleaned. -/
def phaseAt (live : Finset Nat) (a : Nat) : Phase := if a ∈ live then .full else .gone

/-- The record accounts for every address: what has been done to it is what
may be done to a node, and has made it what it is. -/
def Accounted (h : VHashHead K N D) : Prop :=
  ∀ a, after .gone (actsAt a h.log) = some (phaseAt h.live a)

section Effects

variable {m : VHashMoudle K N D} {clean : D → UInt32 × D}

theorem actsAt_append (a : Nat) (log log' : List Event) :
    actsAt a (log ++ log') = actsAt a log ++ actsAt a log' := List.filterMap_append

theorem actsAt_removal (hclean : m.pfnVHashClean = some clean) (a x : Nat) :
    actsAt a (removal m x) = if x = a then [.clear, .release] else [] := by
  by_cases hxa : x = a <;> simp [actsAt, removal, cleanEvents, hclean, actAt, hxa]

/-- Emptying the table removes each node once. -/
theorem actsAt_removals (hclean : m.pfnVHashClean = some clean) (a : Nat) {as : List Nat}
    (hnodup : as.Nodup) :
    actsAt a (as.flatMap (removal m)) = if a ∈ as then [.clear, .release] else [] := by
  induction as with
  | nil => rfl
  | cons x as ih =>
      obtain ⟨hx, hnodup'⟩ := List.nodup_cons.mp hnodup
      rw [List.flatMap_cons, actsAt_append, actsAt_removal hclean, ih hnodup']
      by_cases hxa : x = a
      · subst hxa
        simp [hx]
      · have hax : a ≠ x := fun heq => hxa heq.symm
        simp [hxa, hax]

/-- What a call does to the nodes may be done to each of them, and leaves the
live ones full. -/
theorem NodeEffect.accounted (hclean : m.pfnVHashClean = some clean) (hcopies : ¬ m.CopyFails)
    {live live' : Finset Nat} {events : List Event} (heffect : NodeEffect m live events live')
    (a : Nat) : after (phaseAt live a) (actsAt a events) = some (phaseAt live' a) := by
  cases heffect with
  | none => rfl
  | @updated x stored =>
      by_cases hxa : x = a
      · subst hxa
        simp [actsAt, cleanEvents, hclean, actAt, phaseAt, stored, after, next]
      · simp [actsAt, cleanEvents, hclean, actAt, hxa, after]
  | notUpdated _ fails => exact absurd fails hcopies
  | @inserted x fresh =>
      by_cases hxa : x = a
      · subst hxa
        simp [actsAt, actAt, phaseAt, fresh, after, next]
      · have hax : a ≠ x := fun heq => hxa heq.symm
        simp [actsAt, actAt, phaseAt, hxa, hax, after]
  | notInserted _ fails => exact absurd fails hcopies
  | @deleted x stored =>
      rw [actsAt_removal hclean]
      by_cases hxa : x = a
      · subst hxa
        simp [phaseAt, stored, after, next]
      · have hax : a ≠ x := fun heq => hxa heq.symm
        simp [phaseAt, hxa, hax, after]
  | @emptied as nodup all =>
      rw [actsAt_removals hclean a nodup]
      by_cases ha : a ∈ live
      · simp [phaseAt, (all a).mpr ha, ha, after, next]
      · have hout : a ∉ as := fun hmem => ha ((all a).mp hmem)
        simp [phaseAt, ha, hout, after]

theorem Accounted.kept {h h' : VHashHead K N D} (ha : Accounted h) (hkept : Kept h h')
    (hclean : h.moudle.pfnVHashClean = some clean) (hcopies : ¬ h.moudle.CopyFails) :
    Accounted h' := by
  intro a
  rcases hkept.effect with rfl | ⟨events, heffect, hlog⟩
  · exact ha a
  · have hlock : actAt a .lock = none := rfl
    have hunlock : actAt a .unlock = none := rfl
    have hmutex : actsAt a (.lock :: events ++ [.unlock]) = actsAt a events := by
      simp [actsAt, hlock, hunlock]
    rw [hlog, actsAt_append, after_append, ha a, hmutex]
    exact heffect.accounted hclean hcopies a

theorem Sound.uiTotal_eq {h : VHashHead K N D} {bs : Nat → List Nat} (hs : Sound h bs) :
    h.uiTotal = UInt32.ofNat h.live.card := by
  rw [hs.card_live]
  exact hs.total

end Effects

/-- The calls a table is worked on with between its creation and its
destruction. -/
inductive TableOp (K N : Type) where
  | addNode2 (pKey : Option K) (pData : Option N) (ppNodeData : Option NodePtr)
      (want : Option Nat)
  | delNode (pKey : Option K)
  | cleanMoudle
  | getNode (pKey : Option K) (ppData : Option NodePtr)

def TableOp.call (enMoudleId : UInt32) : TableOp K N → VHashCall K N D
  | .addNode2 pKey pData ppNodeData want =>
      .addNode2 enMoudleId pKey pData ppNodeData want
  | .delNode pKey => .delNode enMoudleId pKey
  | .cleanMoudle => .cleanMoudle enMoudleId
  | .getNode pKey ppData => .getNode enMoudleId pKey ppData

section Runs

variable {w : VHashWorld K N D} {f : FullMoudle K N D} {clean : D → UInt32 × D}
  {enMoudleId : UInt32}

/-- The module number names a full module whose nodes are accounted for. -/
def InUse (f : FullMoudle K N D) (enMoudleId : UInt32) (w : VHashWorld K N D) : Prop :=
  enMoudleId < w.uiMaxVhashModules ∧ ∃ h bs, w.astVHashHead enMoudleId.toNat = some h ∧
    Sound h bs ∧ h.moudle = f.moudle ∧ Accounted h

theorem FullMoudle.copies (hcopies : ∀ d data, (f.cpy d data f.uiDataLen).1 = vhashOk) :
    ¬ f.moudle.CopyFails := by
  rintro ⟨cpy, d, data, hcpy, hfails⟩
  cases hcpy
  exact hfails (hcopies d data)

/-- A body that returns keeps the module in use. -/
theorem InUse.returns (hclean : f.clean = some clean)
    (hcopies : ∀ d data, (f.cpy d data f.uiDataLen).1 = vhashOk) (hw : InUse f enMoudleId w)
    {α : Type} {op : VHashM K N D α} (error : α)
    (hends : ∀ h bs, Sound h bs → h.moudle = f.moudle → Ends h op) :
    ∃ answer w', (withMoudle enMoudleId error op).run w = .ok (answer, w') ∧
      InUse f enMoudleId w' := by
  obtain ⟨hid, h, bs, hhead, hs, hmoudle, ha⟩ := hw
  obtain ⟨answer, h', hrun, hkept⟩ := hends h bs hs hmoudle
  obtain ⟨bs', hs'⟩ := hkept.sound
  refine ⟨answer, _, withMoudle_run error hid hhead hrun, hid, h', bs', withHead_head w h', hs',
    hkept.moudle.trans hmoudle, ?_⟩
  exact ha.kept hkept (by rw [hmoudle]; exact hclean) (by rw [hmoudle]; exact f.copies hcopies)

theorem tableOp_returns [Zero D] (hclean : f.clean = some clean)
    (hcopies : ∀ d data, (f.cpy d data f.uiDataLen).1 = vhashOk) (hw : InUse f enMoudleId w)
    (op : TableOp K N) :
    ∃ reply w', (vhashCall (op.call enMoudleId)).run w = .ok (reply, w') ∧
      InUse f enMoudleId w' := by
  cases op with
  | addNode2 pKey pData ppNodeData want =>
      cases pKey with
      | none => exact ⟨_, w, map_run _ rfl, hw⟩
      | some key =>
          cases pData with
          | none => exact ⟨_, w, map_run _ rfl, hw⟩
          | some data =>
              have hends : ∀ h bs, Sound h bs → h.moudle = f.moudle →
                  Ends h (addNode2 key data ppNodeData want) := by
                intro h bs hs hmoudle
                exact addNode2_ends hs (fun _ => hmoudle ▸ f.reaches key) data ppNodeData want
              obtain ⟨answer, w', hrun, hw'⟩ :=
                hw.returns hclean hcopies (vhashErr, ppNodeData) hends
              exact ⟨_, w', map_run _ hrun, hw'⟩
  | delNode pKey =>
      cases pKey with
      | none => exact ⟨_, w, map_run _ rfl, hw⟩
      | some key =>
          have hends : ∀ h bs, Sound h bs → h.moudle = f.moudle → Ends h (delNode key) := by
            intro h bs hs hmoudle
            exact delNode_ends hs (fun _ => hmoudle ▸ f.reaches key)
          obtain ⟨answer, w', hrun, hw'⟩ := hw.returns hclean hcopies vhashErr hends
          exact ⟨_, w', map_run _ hrun, hw'⟩
  | cleanMoudle =>
      obtain ⟨answer, w', hrun, hw'⟩ := hw.returns hclean hcopies vhashErr
        (fun h bs hs _ => cleanMoudle_ends hs)
      exact ⟨_, w', map_run _ hrun, hw'⟩
  | getNode pKey ppData =>
      cases pKey with
      | none => exact ⟨_, w, map_run _ rfl, hw⟩
      | some key =>
          cases ppData with
          | none => exact ⟨_, w, map_run _ rfl, hw⟩
          | some out =>
              have hends : ∀ h bs, Sound h bs → h.moudle = f.moudle →
                  Ends h (getNode key (some out)) := by
                intro h bs hs hmoudle
                exact getNode_ends hs (hmoudle ▸ f.reaches key) (some out)
              obtain ⟨answer, w', hrun, hw'⟩ := hw.returns hclean hcopies (vhashErr, some out) hends
              exact ⟨_, w', map_run _ hrun, hw'⟩

theorem created_inUse [Zero D] (hid : enMoudleId < w.uiMaxVhashModules)
    (hnone : w.astVHashHead enMoudleId.toNat = none) (f : FullMoudle K N D) :
    ∃ w', (vhashCall (.createMoudle enMoudleId (some f.moudle) true)).run w =
      .ok (.code vhashOk, w') ∧ InUse f enMoudleId w' := by
  obtain ⟨h, hrun, hchains, hmoudle, hfree, hlive, hlog, -, hmem⟩ :=
    vhashCreateMoudle_run hid hnone f.moudle
  have hs : Sound h (fun _ => []) :=
    .created hchains hfree hlive (by rw [hmoudle]; exact hmem)
  refine ⟨w.withHead enMoudleId h, map_run _ hrun, hid, h, _, withHead_head w h, hs, hmoudle, ?_⟩
  intro a
  rw [hlog, hlive]
  rfl

/-- From its creation to its destruction a module gives back every node it
was given, and cleans every value it has copied, once each. Between the calls
every live node holds one value, and `uiTotal` counts the live nodes. -/
theorem nodes_accounted [Zero D] (f : FullMoudle K N D) (hclean : f.clean = some clean)
    (hcopies : ∀ d data, (f.cpy d data f.uiDataLen).1 = vhashOk)
    (hid : enMoudleId < w.uiMaxVhashModules)
    (hnone : w.astVHashHead enMoudleId.toNat = none) (ops : List (TableOp K N)) :
    ∃ w₀ replies w₁ h h',
      (vhashCall (.createMoudle enMoudleId (some f.moudle) true)).run w =
        .ok (.code vhashOk, w₀) ∧
      (ops.mapM (fun op => vhashCall (op.call enMoudleId))).run w₀ = .ok (replies, w₁) ∧
      w₁.astVHashHead enMoudleId.toNat = some h ∧
      h.uiTotal = UInt32.ofNat h.live.card ∧ Accounted h ∧
      (vhashCall (.destoryMoudle enMoudleId)).run w₁ =
        .ok (.code vhashOk, w₁.withoutHead enMoudleId) ∧
      destoryMoudle.run h = .ok (vhashOk, h') ∧
      ∀ a, ∃ ns : List Nat, actsAt a h'.log = ns.flatMap life := by
  obtain ⟨w₀, hcreate, hw₀⟩ := created_inUse hid hnone f
  obtain ⟨replies, w₁, hrun, hid₁, h, bs, hhead, hs, hmoudle, ha⟩ :=
    mapM_invariant (InUse f enMoudleId)
      (fun w op hw => tableOp_returns hclean hcopies hw op) ops w₀ hw₀
  obtain ⟨h', hdestroy, hkept, hlive⟩ := destoryMoudle_kept hs
  have ha' : Accounted h' := ha.kept hkept (by rw [hmoudle]; exact hclean)
    (by rw [hmoudle]; exact f.copies hcopies)
  refine ⟨w₀, replies, w₁, h, h', hcreate, hrun, hhead, hs.uiTotal_eq, ha,
    map_run _ (vhashDestoryMoudle_run hid₁ hhead hdestroy), hdestroy, ?_⟩
  intro a
  have hgone := ha' a
  rw [hlive] at hgone
  exact (after_gone_iff _).mp hgone

end Runs

section Port

/-- An item of the connection table that is added, updated and removed, and one
that is left to the destruction. -/
def portOps : List (TableOp PortItem PortItem) :=
  [.addNode2 (some (keyOfBucket 0)) (some (keyOfBucket 0)) none (some 7),
    .addNode2 (some (keyOfBucket 0)) (some (keyOfBucket 0)) none none,
    .delNode (some (keyOfBucket 0)),
    .addNode2 (some (keyOfBucket 1)) (some (keyOfBucket 1)) none (some 7)]

theorem nodes_accounted_port :
    ∃ (w₁ : VHashWorld PortItem PortItem PortVHashItem)
      (h h' : VHashHead PortItem PortItem PortVHashItem),
      w₁.astVHashHead enPort.toNat = some h ∧ h.uiTotal = UInt32.ofNat h.live.card ∧
      destoryMoudle.run h = .ok (vhashOk, h') ∧
      ∀ a, ∃ ns : List Nat, actsAt a h'.log = ns.flatMap life := by
  obtain ⟨_, _, w₁, h, h', _, _, hhead, htotal, _, _, hdestroy, hlives⟩ :=
    nodes_accounted (w := vhashInit enVHashMoudleMax) portFull rfl (fun _ _ => rfl) enPort_known
      rfl portOps
  exact ⟨w₁, h, h', hhead, htotal, hdestroy, hlives⟩

end Port

end RedisTrace
