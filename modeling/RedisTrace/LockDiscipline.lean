import RedisTrace.PortVHash
import RedisTrace.VHash.Calls

/-!
The mutex of a module. The primitive steps of the model end a run that touches
a list or a node while the mutex is free, and one that takes the mutex twice,
so a call that returns has done neither; what is left to show is that calls
return, and how often the mutex was taken and given back by then.
-/

namespace RedisTrace

variable {K N D : Type}

/-- Between two states of a module the mutex was taken at most once and given
back as often, and it is free in the end. -/
structure LockKept (h h' : VHashHead K N D) : Prop where
  free : h'.locked = false
  taken : ∃ events, h'.log = h.log ++ events ∧ events.count .lock ≤ 1 ∧
    events.count .unlock = events.count .lock

/-- Events of the nodes only are no events of the mutex. -/
theorem count_quiet {events : List Event} (hquiet : ∀ e ∈ events, e.ofMutex = false) {e : Event}
    (he : e.ofMutex = true) : events.count e = 0 := by
  apply List.count_eq_zero.mpr
  intro hmem
  rw [hquiet e hmem] at he
  cases he

theorem Kept.lockKept {h h' : VHashHead K N D} (hkept : Kept h h') : LockKept h h' := by
  obtain ⟨bs, hs⟩ := hkept.sound
  refine ⟨hs.free, ?_⟩
  rcases hkept.effect with rfl | ⟨events, heffect, hlog⟩
  · exact ⟨[], by simp, by simp, by simp⟩
  · have hlock := count_quiet heffect.quiet (e := .lock) rfl
    have hunlock := count_quiet heffect.quiet (e := .unlock) rfl
    refine ⟨_, hlog, ?_, ?_⟩
    · simp [hlock]
    · simp [hlock, hunlock]

/-- What holds of the mutexes when a call returns. A module that is destroyed
is followed to the point where its memory is given up. -/
structure LocksKept (w w' : VHashWorld K N D) (c : VHashCall K N D) : Prop where
  free : ∀ id h', w'.astVHashHead id = some h' → h'.locked = false
  kept : ∀ id h h', w.astVHashHead id = some h → w'.astVHashHead id = some h' → LockKept h h'
  destroyed : ∀ id h, c = .destoryMoudle id → w.astVHashHead id.toNat = some h →
    ∃ h', destoryMoudle.run h = .ok (vhashOk, h') ∧ LockKept h h'

/-- The hash function stays below the number of buckets. -/
def VHashMoudle.HashInRange (m : VHashMoudle K N D) : Prop :=
  ∀ hash, m.pfnVHashCalc = some hash → ∀ key, hash key < m.uiBucketCount

/-- A node given to `VHash_Get_NextNode` is stored in the module. -/
def VHashCall.NodeStored (h : VHashHead K N D) : VHashCall K N D → Prop
  | .getNextNode _ (some _) (some a) _ => a ∈ h.live
  | _ => True

theorem VHashMoudle.HashInRange.reaches {m : VHashMoudle K N D} (hrange : m.HashInRange)
    (hsome : m.pfnVHashCalc.isSome) (key : K) : m.Reaches key := by
  obtain ⟨hash, hcalc⟩ := Option.isSome_iff_exists.mp hsome
  exact ⟨hash, hcalc, hrange hash hcalc key⟩

section Calls

variable {w : VHashWorld K N D} {c : VHashCall K N D}

/-- Where the hash function keeps to the buckets, a call finds what it relies
on unless it is a `VHash_Get_Node` without a hash function. -/
theorem inOrder_of_inRange (hw : w.Sound)
    (hrange : ∀ h, w.astVHashHead c.enMoudleId.toNat = some h → h.moudle.HashInRange)
    (hstored : ∀ h, w.astVHashHead c.enMoudleId.toNat = some h → c.NodeStored h)
    (hnull : ¬ CallsNull w c) : c.InOrder w := by
  intro h hid hhead
  have hreaches := (hrange h hhead).reaches
  cases c with
  | createMoudle | destoryMoudle | cleanMoudle | nodeStat | nodeTotal => trivial
  | getNode id pKey ppData =>
      cases pKey with
      | none => trivial
      | some key =>
          cases ppData with
          | none => trivial
          | some out =>
              apply hreaches
              apply Option.isSome_iff_ne_none.mpr
              intro hcalc
              exact hnull ⟨id, key, out, h, rfl, hid, hhead, hcalc⟩
  | addNode2 id pKey pData ppNodeData want =>
      cases pKey with
      | none => trivial
      | some key =>
          cases pData with
          | none => trivial
          | some data =>
              intro hcallbacks
              obtain ⟨_, _, _, _, hcalc, -⟩ := addCallbacks_iff.mp hcallbacks
              exact hreaches (by rw [hcalc]; rfl) key
  | getNextNode id pKey pData ppNodeData =>
      cases pKey with
      | none => trivial
      | some key =>
          cases pData with
          | none => trivial
          | some a =>
              intro _
              obtain ⟨bs, hs⟩ := hw _ h hhead
              exact hs.mapped (hstored h hhead)
  | delNode id pKey =>
      cases pKey with
      | none => trivial
      | some key =>
          intro hcallbacks
          exact hreaches (Bool.and_eq_true_iff.mp hcallbacks).1 key

theorem WorldKept.locksKept {w' : VHashWorld K N D} (hw : w.Sound) (hkept : WorldKept w w')
    (c : VHashCall K N D) : LocksKept w w' c := by
  constructor
  · intro id h' hhead
    obtain ⟨bs, hs⟩ := hkept.sound id h' hhead
    exact hs.free
  · intro id h h' hhead hhead'
    exact (hkept.kept id h h' hhead hhead').lockKept
  · intro id h _ hhead
    obtain ⟨bs, hs⟩ := hw _ h hhead
    obtain ⟨h', hrun, hkept', -⟩ := destoryMoudle_kept hs
    exact ⟨h', hrun, hkept'.lockKept⟩

variable [Zero D]

/-- No call stops at the mutex, at a list or node it does not hold the mutex
for, or in a loop. -/
theorem vhashCall_fault (hw : w.Sound) {e : Fault} (hrun : (vhashCall c).run w = .error e) :
    e = .nullCallback ∨ e = .badAddress := by
  rcases vhashCall_ends hw c with ⟨reply, w', hrun', -⟩ | ⟨-, hfault⟩ | hfault
  · rw [hrun] at hrun'
    cases hrun'
  · rw [hrun] at hfault
    cases hfault
    exact .inl rfl
  · rw [hrun] at hfault
    cases hfault
    exact .inr rfl

/-- And so no sequence of calls does. -/
theorem vhashRun_fault (hw : w.Sound) {calls : List (VHashCall K N D)} {e : Fault}
    (hrun : (calls.mapM vhashCall).run w = .error e) :
    e = .nullCallback ∨ e = .badAddress := by
  induction calls generalizing w with
  | nil => cases hrun
  | cons c rest ih =>
      cases hfirst : (vhashCall c).run w with
      | error e' =>
          simp [hfirst] at hrun
          exact vhashCall_fault hw (hrun ▸ hfirst)
      | ok result =>
          obtain ⟨reply, w₁⟩ := result
          cases hrest : (rest.mapM vhashCall).run w₁ with
          | error e' =>
              simp [hfirst, hrest] at hrun
              exact ih (vhashCall_kept hw hfirst).sound (hrun ▸ hrest)
          | ok result => simp [hfirst, hrest] at hrun

/-- A call to a module whose hash function keeps to its buckets returns with
every mutex taken at most once, given back as often and free, or never returns
because `VHash_Get_Node` invoked NULL; and no sequence of calls blocks on a
mutex it holds, or touches a list or a node without holding one. -/
theorem vhashCall_lockDiscipline (hw : Reached w) (c : VHashCall K N D)
    (hrange : ∀ h, w.astVHashHead c.enMoudleId.toNat = some h → h.moudle.HashInRange)
    (hstored : ∀ h, w.astVHashHead c.enMoudleId.toNat = some h → c.NodeStored h) :
    ((∃ reply w', (vhashCall c).run w = .ok (reply, w') ∧ LocksKept w w' c) ∨
      CallsNull w c ∧ (vhashCall c).run w = .error .nullCallback) ∧
    ∀ calls : List (VHashCall K N D), (calls.mapM vhashCall).run w ≠ .error .deadlock ∧
      (calls.mapM vhashCall).run w ≠ .error .unlocked := by
  constructor
  · by_cases hnull : CallsNull w c
    · exact .inr ⟨hnull, vhashCall_null hw.sound hnull⟩
    · obtain ⟨reply, w', hrun, hkept⟩ :=
        vhashCall_returns hw.sound (inOrder_of_inRange hw.sound hrange hstored hnull)
      exact .inl ⟨reply, w', hrun, hkept.locksKept hw.sound c⟩
  · intro calls
    constructor
    · intro hrun
      rcases vhashRun_fault hw.sound hrun with hfault | hfault <;> cases hfault
    · intro hrun
      rcases vhashRun_fault hw.sound hrun with hfault | hfault <;> cases hfault

end Calls

section Port

theorem portFull_inRange : portFull.moudle.HashInRange := by
  intro hash hcalc key
  cases hcalc
  exact portFull.hash_lt key

/-- From the one node of a connection table on. -/
theorem vhashCall_lockDiscipline_port :
    ∃ (w w' : VHashWorld PortItem PortItem PortVHashItem) (a : Nat) (reply : VHashReply),
      Reached w ∧
      (vhashCall (.getNextNode enPort (some (keyOfBucket 0)) (some a) (some none))).run w =
        .ok (reply, w') ∧
      LocksKept w w' (.getNextNode enPort (some (keyOfBucket 0)) (some a) (some none)) := by
  obtain ⟨w, h, bs, a, hw, -, hhead, hmoudle, hchains, hbs⟩ :=
    reached_first enPort_known portFull (keyOfBucket 0) (keyOfBucket 0) rfl
  have hplaced : a ∈ bs (portFull.bucket (keyOfBucket 0)) := by simp [hbs]
  have honly : ∀ h', w.astVHashHead enPort.toNat = some h' → h' = h :=
    fun h' hhead' => Option.some.inj (hhead'.symm.trans hhead)
  have hrange : ∀ h', w.astVHashHead enPort.toNat = some h' → h'.moudle.HashInRange := by
    intro h' hhead'
    rw [honly h' hhead', hmoudle]
    exact portFull_inRange
  have hstored : ∀ h', w.astVHashHead enPort.toNat = some h' → a ∈ h'.live := by
    intro h' hhead'
    rw [honly h' hhead']
    exact hchains.live_of_mem hplaced
  obtain ⟨hends, -⟩ := vhashCall_lockDiscipline hw
    (.getNextNode enPort (some (keyOfBucket 0)) (some a) (some none)) hrange hstored
  rcases hends with ⟨reply, w', hrun, hkept⟩ | ⟨⟨_, _, _, _, hcall, -⟩, -⟩
  · exact ⟨w, w', a, reply, hw, hrun, hkept⟩
  · cases hcall

end Port

end RedisTrace
