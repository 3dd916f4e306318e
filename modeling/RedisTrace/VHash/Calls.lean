import RedisTrace.VHash.Bodies

/-!
Calls of the exported functions of `vhash.c`, with any module number, any
pointers and any registered module, and the tables that sequences of such calls
can reach. `VHash_Add_Node` is not among them, as it relinks a node that is on
a list already, nor are `VHash_Lock` and `VHash_unLock`, which hand the mutex
itself to the caller.
-/

namespace RedisTrace

open CircularList Run

variable {K N D : Type}

/-- A call with its arguments; `mallocOk` and `want` are what `malloc` would
answer. -/
inductive VHashCall (K N D : Type) where
  | createMoudle (enMoudleId : UInt32) (pVHashMoudle : Option (VHashMoudle K N D))
      (mallocOk : Bool)
  | destoryMoudle (enMoudleId : UInt32)
  | cleanMoudle (enMoudleId : UInt32)
  | getNode (enMoudleId : UInt32) (pKey : Option K) (ppData : Option NodePtr)
  | addNode2 (enMoudleId : UInt32) (pKey : Option K) (pData : Option N)
      (ppNodeData : Option NodePtr) (want : Option Nat)
  | getNextNode (enMoudleId : UInt32) (pKey : Option K) (pData : NodePtr)
      (ppNodeData : Option NodePtr)
  | delNode (enMoudleId : UInt32) (pKey : Option K)
  | nodeStat (enMoudleId : UInt32) (puiNodeStat : Option (List UInt32))
  | nodeTotal (enMoudleId : UInt32) (puiTotal : Option UInt32)

/-- The code a call returns, with the out-parameter it leaves if it has one. -/
inductive VHashReply where
  | code (ret : UInt32)
  | node (answer : UInt32 × Option NodePtr)
  | stat (answer : UInt32 × Option (List UInt32))
  | total (answer : UInt32 × Option UInt32)

def VHashReply.ret : VHashReply → UInt32
  | .code ret => ret
  | .node answer => answer.1
  | .stat answer => answer.1
  | .total answer => answer.1

def vhashCall [Zero D] : VHashCall K N D → VHashW K N D VHashReply
  | .createMoudle enMoudleId pVHashMoudle mallocOk =>
      .code <$> vhashCreateMoudle enMoudleId pVHashMoudle mallocOk
  | .destoryMoudle enMoudleId => .code <$> vhashDestoryMoudle enMoudleId
  | .cleanMoudle enMoudleId => .code <$> vhashCleanMoudle enMoudleId
  | .getNode enMoudleId pKey ppData => .node <$> vhashGetNode enMoudleId pKey ppData
  | .addNode2 enMoudleId pKey pData ppNodeData want =>
      .node <$> vhashAddNode2 enMoudleId pKey pData ppNodeData want
  | .getNextNode enMoudleId pKey pData ppNodeData =>
      .node <$> vhashGetNextNode enMoudleId pKey pData ppNodeData
  | .delNode enMoudleId pKey => .code <$> vhashDelNode enMoudleId pKey
  | .nodeStat enMoudleId puiNodeStat => .stat <$> vhashNodeStat enMoudleId puiNodeStat
  | .nodeTotal enMoudleId puiTotal => .total <$> vhashNodeTotal enMoudleId puiTotal

namespace VHashCall

def enMoudleId : VHashCall K N D → UInt32
  | .createMoudle enMoudleId _ _ | .destoryMoudle enMoudleId | .cleanMoudle enMoudleId
  | .getNode enMoudleId _ _ | .addNode2 enMoudleId _ _ _ _ | .getNextNode enMoudleId _ _ _
  | .delNode enMoudleId _ | .nodeStat enMoudleId _ | .nodeTotal enMoudleId _ => enMoudleId

/-- What the body of a call relies on in its module: that the key it looks up
has a bucket, and that there is a node where the caller points. The calls that
check for their callbacks rely on nothing where one is missing. -/
def BodyInOrder (h : VHashHead K N D) : VHashCall K N D → Prop
  | .getNode _ (some key) (some _) => h.moudle.Reaches key
  | .addNode2 _ (some key) (some _) _ _ =>
      addCallbacks h.moudle = true → h.moudle.Reaches key
  | .getNextNode _ (some _) (some a) _ =>
      h.moudle.pfnVHashCalc.isSome → (h.mem (.node a)).isSome
  | .delNode _ (some key) =>
      delCallbacks h.moudle = true → h.moudle.Reaches key
  | _ => True

/-- The call finds what it relies on in the module it is made to, if there is
one. -/
def InOrder (w : VHashWorld K N D) (c : VHashCall K N D) : Prop :=
  ∀ h, c.enMoudleId < w.uiMaxVhashModules →
    w.astVHashHead c.enMoudleId.toNat = some h → c.BodyInOrder h

end VHashCall

/-- Every module has a sound table. -/
def VHashWorld.Sound (w : VHashWorld K N D) : Prop :=
  ∀ id h, w.astVHashHead id = some h → ∃ bs, RedisTrace.Sound h bs

/-- The modules as a call leaves them when it returns. -/
structure WorldKept (w w' : VHashWorld K N D) : Prop where
  count : w'.uiMaxVhashModules = w.uiMaxVhashModules
  sound : w'.Sound
  kept : ∀ id h h', w.astVHashHead id = some h → w'.astVHashHead id = some h' → Kept h h'

/-- The call returns and leaves sound tables. -/
def Returns {α : Type} (w : VHashWorld K N D) (op : VHashW K N D α) : Prop :=
  ∃ answer w', op.run w = .ok (answer, w') ∧ WorldKept w w'

section Exported

variable {w : VHashWorld K N D} {h h' : VHashHead K N D}

theorem map_run {α β : Type} {op : VHashW K N D α} {answer : α} {w' : VHashWorld K N D}
    (g : α → β) (hrun : op.run w = .ok (answer, w')) :
    (g <$> op).run w = .ok (g answer, w') := by
  simp [hrun]

theorem map_fault {α β : Type} {op : VHashW K N D α} {e : Fault} (g : α → β)
    (hrun : op.run w = .error e) : (g <$> op).run w = .error e := by
  simp [hrun]

theorem Returns.map {α β : Type} {op : VHashW K N D α} (hop : Returns w op) (g : α → β) :
    Returns w (g <$> op) := by
  obtain ⟨answer, w', hrun, hkept⟩ := hop
  exact ⟨g answer, w', map_run g hrun, hkept⟩

theorem WorldKept.refl (hw : w.Sound) : WorldKept w w := by
  refine ⟨rfl, hw, ?_⟩
  intro id h h' hhead hhead'
  rw [hhead] at hhead'
  cases hhead'
  obtain ⟨bs, hs⟩ := hw id h hhead
  exact hs.refl

theorem returns_unchanged {α : Type} (hw : w.Sound) (answer : α) :
    Returns w (pure answer) := ⟨answer, w, rfl, .refl hw⟩

variable (enMoudleId : UInt32)

theorem WorldKept.withHead (hw : w.Sound) (hhead : w.astVHashHead enMoudleId.toNat = some h)
    (hkept : Kept h h') : WorldKept w (w.withHead enMoudleId h') := by
  refine ⟨rfl, ?_, ?_⟩
  · intro id g hg
    rcases eq_or_ne id enMoudleId.toNat with rfl | hne
    · rw [withHead_head] at hg
      cases hg
      exact hkept.sound
    · rw [withHead_ne w h' hne] at hg
      exact hw id g hg
  · intro id g g' hg hg'
    rcases eq_or_ne id enMoudleId.toNat with rfl | hne
    · rw [withHead_head] at hg'
      rw [hhead] at hg
      cases hg
      cases hg'
      exact hkept
    · rw [withHead_ne w h' hne] at hg'
      exact (WorldKept.refl hw).kept id g g' hg hg'

/-- A module number that named nothing names a sound table. -/
theorem WorldKept.created (hw : w.Sound) (hhead : w.astVHashHead enMoudleId.toNat = none)
    {bs : Nat → List Nat} (hs : Sound h bs) : WorldKept w (w.withHead enMoudleId h) := by
  refine ⟨rfl, ?_, ?_⟩
  · intro id g hg
    rcases eq_or_ne id enMoudleId.toNat with rfl | hne
    · rw [withHead_head] at hg
      cases hg
      exact ⟨bs, hs⟩
    · rw [withHead_ne w h hne] at hg
      exact hw id g hg
  · intro id g g' hg hg'
    have hne : id ≠ enMoudleId.toNat := by
      rintro rfl
      rw [hhead] at hg
      cases hg
    rw [withHead_ne w h hne] at hg'
    exact (WorldKept.refl hw).kept id g g' hg hg'

theorem WorldKept.withoutHead (hw : w.Sound) : WorldKept w (w.withoutHead enMoudleId) := by
  have hleft : ∀ id g, (w.withoutHead enMoudleId).astVHashHead id = some g →
      w.astVHashHead id = some g := by
    intro id g hg
    rcases eq_or_ne id enMoudleId.toNat with rfl | hne
    · rw [withoutHead_head] at hg
      cases hg
    · rwa [withoutHead_ne w hne] at hg
  exact ⟨rfl, fun id g hg => hw id g (hleft id g hg),
    fun id g g' hg hg' => (WorldKept.refl hw).kept id g g' hg (hleft id g' hg')⟩

/-- An exported function returns where its body does. -/
theorem withMoudle_returns {α : Type} {op : VHashM K N D α} (error : α) (hw : w.Sound)
    (hends : ∀ h bs, enMoudleId < w.uiMaxVhashModules →
      w.astVHashHead enMoudleId.toNat = some h → Sound h bs → Ends h op) :
    Returns w (withMoudle enMoudleId error op) := by
  by_cases hid : enMoudleId < w.uiMaxVhashModules
  · cases hhead : w.astVHashHead enMoudleId.toNat with
    | none => exact ⟨error, w, withMoudle_none op error hhead, .refl hw⟩
    | some h =>
        obtain ⟨bs, hs⟩ := hw _ h hhead
        obtain ⟨answer, h', hrun, hkept⟩ := hends h bs hid hhead hs
        exact ⟨answer, _, withMoudle_run error hid hhead hrun,
          .withHead enMoudleId hw hhead hkept⟩
  · exact ⟨error, w, withMoudle_unknown op error hid, .refl hw⟩

theorem vhashCreateMoudle_returns [Zero D] (hw : w.Sound)
    (pVHashMoudle : Option (VHashMoudle K N D)) (mallocOk : Bool) :
    Returns w (vhashCreateMoudle enMoudleId pVHashMoudle mallocOk) := by
  by_cases hid : w.uiMaxVhashModules ≤ enMoudleId
  · exact ⟨vhashErr, w, by simp [vhashCreateMoudle, StateT.run, hid], .refl hw⟩
  · cases pVHashMoudle with
    | none => exact ⟨vhashErr, w, by simp [vhashCreateMoudle, StateT.run, hid], .refl hw⟩
    | some m =>
        cases hhead : w.astVHashHead enMoudleId.toNat with
        | some h =>
            exact ⟨vhashOk, w, by simp [vhashCreateMoudle, StateT.run, hid, hhead], .refl hw⟩
        | none =>
            cases mallocOk with
            | false =>
                exact ⟨vhashNotInnif, w, by simp [vhashCreateMoudle, StateT.run, hid, hhead],
                  .refl hw⟩
            | true =>
                obtain ⟨h, hrun, hchains, hmoudle, hfree, hlive, -, -, hmem⟩ :=
                  vhashCreateMoudle_run (UInt32.not_le.mp hid) hhead m
                have hs : Sound h (fun _ => []) :=
                  .created hchains hfree hlive (by rw [hmoudle]; exact hmem)
                exact ⟨vhashOk, _, hrun, .created enMoudleId hw hhead hs⟩

theorem vhashDestoryMoudle_returns (hw : w.Sound) :
    Returns w (vhashDestoryMoudle enMoudleId) := by
  by_cases hid : enMoudleId < w.uiMaxVhashModules
  · cases hhead : w.astVHashHead enMoudleId.toNat with
    | none =>
        exact ⟨vhashErr, w, by simp [vhashDestoryMoudle, StateT.run, hhead], .refl hw⟩
    | some h =>
        obtain ⟨bs, hs⟩ := hw _ h hhead
        obtain ⟨h', hrun, -⟩ := destoryMoudle_kept hs
        exact ⟨vhashOk, _, vhashDestoryMoudle_run hid hhead hrun, .withoutHead enMoudleId hw⟩
  · have hid' : w.uiMaxVhashModules ≤ enMoudleId := UInt32.not_lt.mp hid
    exact ⟨vhashErr, w, by simp [vhashDestoryMoudle, StateT.run, hid'], .refl hw⟩

end Exported

section Calls

variable [Zero D] {w w' : VHashWorld K N D} {c : VHashCall K N D} {reply : VHashReply}

/-- A call that finds what it relies on returns and leaves sound tables. -/
theorem vhashCall_returns (hw : w.Sound) (hc : c.InOrder w) : Returns w (vhashCall c) := by
  cases c with
  | createMoudle id m mallocOk => exact (vhashCreateMoudle_returns id hw m mallocOk).map _
  | destoryMoudle id => exact (vhashDestoryMoudle_returns id hw).map _
  | cleanMoudle id =>
      exact (withMoudle_returns id _ hw (fun _ _ _ _ hs => cleanMoudle_ends hs)).map _
  | getNode id pKey ppData =>
      cases pKey with
      | none => exact (returns_unchanged hw _).map _
      | some key =>
          cases ppData with
          | none => exact (returns_unchanged hw _).map _
          | some out =>
              apply (withMoudle_returns id _ hw _).map
              intro h bs hid hhead hs
              exact getNode_ends hs (hc h hid hhead) (some out)
  | addNode2 id pKey pData ppNodeData want =>
      cases pKey with
      | none => exact (returns_unchanged hw _).map _
      | some key =>
          cases pData with
          | none => exact (returns_unchanged hw _).map _
          | some data =>
              apply (withMoudle_returns id _ hw _).map
              intro h bs hid hhead hs
              exact addNode2_ends hs (hc h hid hhead) data ppNodeData want
  | getNextNode id pKey pData ppNodeData =>
      apply (withMoudle_returns id _ hw _).map
      intro h bs hid hhead hs
      apply getNextNode_ends hs
      rintro key a rfl rfl
      exact hc h hid hhead
  | delNode id pKey =>
      cases pKey with
      | none => exact (returns_unchanged hw _).map _
      | some key =>
          apply (withMoudle_returns id _ hw _).map
          intro h bs hid hhead hs
          exact delNode_ends hs (hc h hid hhead)
  | nodeStat id puiNodeStat =>
      cases puiNodeStat with
      | none => exact (returns_unchanged hw _).map _
      | some stat => exact (withMoudle_returns id _ hw (fun _ _ _ _ hs => nodeStat_ends hs)).map _
  | nodeTotal id puiTotal =>
      cases puiTotal with
      | none => exact (returns_unchanged hw _).map _
      | some total =>
          exact (withMoudle_returns id _ hw (fun _ _ _ _ hs => nodeTotal_ends hs)).map _

/-- The one function that calls a callback without having checked for it:
`VHash_Get_Node`, and the one callback it calls on every table. -/
def CallsNull (w : VHashWorld K N D) (c : VHashCall K N D) : Prop :=
  ∃ id key out h, c = .getNode id (some key) (some out) ∧ id < w.uiMaxVhashModules ∧
    w.astVHashHead id.toNat = some h ∧ h.moudle.pfnVHashCalc = none

theorem vhashCall_null (hw : w.Sound) (hnull : CallsNull w c) :
    (vhashCall c).run w = .error .nullCallback := by
  obtain ⟨id, key, out, h, rfl, hid, hhead, hcalc⟩ := hnull
  obtain ⟨bs, hs⟩ := hw _ h hhead
  exact map_fault _ (withMoudle_fault _ hid hhead (getNode_null hs hcalc (some out)))

/-- Any other call that does not find what it relies on leaves the memory of
the module. -/
theorem vhashCall_astray (hw : w.Sound) (hc : ¬ c.InOrder w) (hnull : ¬ CallsNull w c) :
    (vhashCall c).run w = .error .badAddress := by
  obtain ⟨h, hid, hhead, hbody⟩ : ∃ h, c.enMoudleId < w.uiMaxVhashModules ∧
      w.astVHashHead c.enMoudleId.toNat = some h ∧ ¬ c.BodyInOrder h := by
    simpa [VHashCall.InOrder] using hc
  obtain ⟨bs, hs⟩ := hw _ h hhead
  cases c with
  | createMoudle | destoryMoudle | cleanMoudle | nodeStat | nodeTotal =>
      exact absurd trivial hbody
  | getNode id pKey ppData =>
      cases pKey with
      | none => exact absurd trivial hbody
      | some key =>
          cases ppData with
          | none => exact absurd trivial hbody
          | some out =>
              cases hcalc : h.moudle.pfnVHashCalc with
              | none => exact absurd ⟨id, key, out, h, rfl, hid, hhead, hcalc⟩ hnull
              | some hash =>
                  apply map_fault
                  exact withMoudle_fault _ hid hhead (getNode_beyond hs hcalc hbody (some out))
  | addNode2 id pKey pData ppNodeData want =>
      cases pKey with
      | none => exact absurd trivial hbody
      | some key =>
          cases pData with
          | none => exact absurd trivial hbody
          | some data =>
              obtain ⟨hcallbacks, hout⟩ : addCallbacks h.moudle = true ∧
                  ¬ h.moudle.Reaches key := Classical.not_imp.mp hbody
              apply map_fault
              exact withMoudle_fault _ hid hhead
                (addNode2_beyond hs hcallbacks hout data ppNodeData want)
  | getNextNode id pKey pData ppNodeData =>
      cases pKey with
      | none => exact absurd trivial hbody
      | some key =>
          cases pData with
          | none => exact absurd trivial hbody
          | some a =>
              obtain ⟨hcalc, hout⟩ : h.moudle.pfnVHashCalc.isSome ∧
                  ¬ (h.mem (.node a)).isSome := Classical.not_imp.mp hbody
              apply map_fault
              exact withMoudle_fault _ hid hhead (getNextNode_astray hs hcalc hout ppNodeData)
  | delNode id pKey =>
      cases pKey with
      | none => exact absurd trivial hbody
      | some key =>
          obtain ⟨hcallbacks, hout⟩ : delCallbacks h.moudle = true ∧
              ¬ h.moudle.Reaches key := Classical.not_imp.mp hbody
          apply map_fault
          exact withMoudle_fault _ hid hhead (delNode_beyond hs hcallbacks hout)

/-- The three ends a call can come to. -/
theorem vhashCall_ends (hw : w.Sound) (c : VHashCall K N D) :
    Returns w (vhashCall c) ∨
      (CallsNull w c ∧ (vhashCall c).run w = .error .nullCallback) ∨
      (vhashCall c).run w = .error .badAddress := by
  by_cases hc : c.InOrder w
  · exact .inl (vhashCall_returns hw hc)
  · by_cases hnull : CallsNull w c
    · exact .inr (.inl ⟨hnull, vhashCall_null hw hnull⟩)
    · exact .inr (.inr (vhashCall_astray hw hc hnull))

/-- So a call that returns leaves sound tables, whatever it was given. -/
theorem vhashCall_kept (hw : w.Sound) (hrun : (vhashCall c).run w = .ok (reply, w')) :
    WorldKept w w' := by
  rcases vhashCall_ends hw c with ⟨reply', w'', hrun', hkept⟩ | ⟨-, hfault⟩ | hfault
  · rw [hrun] at hrun'
    cases hrun'
    exact hkept
  · rw [hrun] at hfault
    cases hfault
  · rw [hrun] at hfault
    cases hfault

end Calls

/-- What calls that returned have led to from `VHash_Init`. -/
inductive Reached [Zero D] : VHashWorld K N D → Prop where
  | init (uiMaxVhashModules : UInt32) : Reached (vhashInit uiMaxVhashModules)
  | call {w w' : VHashWorld K N D} {c : VHashCall K N D} {reply : VHashReply}
      (before : Reached w) (returned : (vhashCall c).run w = .ok (reply, w')) : Reached w'

/-- The table of a module that has just been created, for instance. -/
theorem reached_created [Zero D] {uiMaxVhashModules enMoudleId : UInt32}
    (hid : enMoudleId < uiMaxVhashModules) (m : VHashMoudle K N D) :
    ∃ w h, Reached w ∧ enMoudleId < w.uiMaxVhashModules ∧
      w.astVHashHead enMoudleId.toNat = some h ∧ h.moudle = m ∧
      Chains h (fun _ => []) ∧ h.live = ∅ := by
  have hid' : enMoudleId < (vhashInit uiMaxVhashModules : VHashWorld K N D).uiMaxVhashModules :=
    hid
  obtain ⟨h, hcreate, hchains, hmoudle, _, hlive, _⟩ := vhashCreateMoudle_run hid' rfl m
  have hcreated : (vhashCall (.createMoudle enMoudleId (some m) true)).run
      (vhashInit uiMaxVhashModules) =
        .ok (.code vhashOk, (vhashInit uiMaxVhashModules).withHead enMoudleId h) :=
    map_run _ hcreate
  exact ⟨_, h, .call (.init _) hcreated, hid', withHead_head _ h, hmoudle, hchains, hlive⟩

/-- A table with one node. -/
theorem reached_first [Zero D] {uiMaxVhashModules enMoudleId : UInt32}
    (hid : enMoudleId < uiMaxVhashModules) (f : FullMoudle K N D) (key : K) (data : N)
    (hcopied : (f.cpy 0 data f.uiDataLen).1 = vhashOk) :
    ∃ w h bs a, Reached w ∧ enMoudleId < w.uiMaxVhashModules ∧
      w.astVHashHead enMoudleId.toNat = some h ∧ h.moudle = f.moudle ∧ Chains h bs ∧
      bs (f.bucket key) = [a] := by
  have hid' : enMoudleId < (vhashInit uiMaxVhashModules : VHashWorld K N D).uiMaxVhashModules :=
    hid
  obtain ⟨w₀, w₁, h, bs, a, hcreate, hadd, hknown, hhead, hmoudle, -, hchains, hbs, -⟩ :=
    vhashAddNode2_first hid' rfl f key data hcopied
  have hcreated : (vhashCall (.createMoudle enMoudleId (some f.moudle) true)).run
      (vhashInit uiMaxVhashModules) = .ok (.code vhashOk, w₀) := map_run _ hcreate
  have hadded : (vhashCall (.addNode2 enMoudleId (some key) (some data) none (some 0))).run w₀ =
      .ok (.node (vhashOk, none), w₁) := map_run _ hadd
  exact ⟨w₁, h, bs, a, .call (.call (.init _) hcreated) hadded, hknown, hhead, hmoudle, hchains,
    hbs⟩

theorem Reached.sound [Zero D] {w : VHashWorld K N D} (hw : Reached w) : w.Sound := by
  induction hw with
  | init uiMaxVhashModules =>
      intro id h hhead
      cases hhead
  | call before returned ih => exact (vhashCall_kept ih returned).sound

end RedisTrace
