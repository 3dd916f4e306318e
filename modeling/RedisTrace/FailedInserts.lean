import RedisTrace.AddNode

/-!
What a failed `VHash_Add_Node2` leaves behind. On the insert path a `cpy` that
fails costs the new node only, which is cleaned and freed. On the update path
the node is in the table already: it is cleaned as well, but it stays there.
-/

namespace RedisTrace

open CircularList Run

variable {K N D : Type}

/-- `h'` is the module `h` again, as far as a caller can tell: the same lists
of the same nodes with the same data and counts, and no call of `clean` on any
of the nodes in between. -/
structure Untouched (h h' : VHashHead K N D) : Prop where
  moudle : h'.moudle = h.moudle
  live : h'.live = h.live
  links : ∀ p, (∀ a, p = .node a → a ∈ h.live) → h'.mem p = h.mem p
  data : ∀ a ∈ h.live, h'.pData a = h.pData a
  sums : h'.ulDataNodeSum = h.ulDataNodeSum
  total : h'.uiTotal = h.uiTotal
  listLen : h'.ulListLen = h.ulListLen
  cleans : ∃ events, h'.log = h.log ++ events ∧ ∀ a ∈ h.live, Event.clean a ∉ events

/-- The module `enMoudleId` is untouched, and so are all others. -/
structure TableKept (enMoudleId : UInt32) (w w' : VHashWorld K N D) : Prop where
  modules : w'.uiMaxVhashModules = w.uiMaxVhashModules
  table : Option.Rel Untouched (w.astVHashHead enMoudleId.toNat)
    (w'.astVHashHead enMoudleId.toNat)
  others : ∀ i, i ≠ enMoudleId.toNat → w'.astVHashHead i = w.astVHashHead i

/-- Whatever code other than the two of success the call returns, it leaves
`*ppNodeData` and the table as they were. -/
def FailureUndone [Zero D] (enMoudleId : UInt32) (pKey : Option K) (pData : Option N)
    (ppNodeData : Option NodePtr) (want : Option Nat) (w : VHashWorld K N D) : Prop :=
  ∀ ret ppNodeData' w',
    (vhashAddNode2 enMoudleId pKey pData ppNodeData want).run w =
      .ok ((ret, ppNodeData'), w') →
    ret ≠ vhashOk → ret ≠ vhashUpdateOk →
    ppNodeData' = ppNodeData ∧ TableKept enMoudleId w w'

/-- Should new data be copied over `d` at all, the copy succeeds, or it leaves
`d` as it was and nothing is cleaned. -/
def CopyHarmless (m : VHashMoudle K N D) (d : D) (data : N) : Prop :=
  ∀ isUpdate cpy, m.pfnVHashIsUpdate = some isUpdate → m.pfnVHashCpy = some cpy →
    isUpdate d data = vhashOk →
    (cpy (cleaned m d) data m.uiDataLen).1 = vhashOk ∨
      (cpy (cleaned m d) data m.uiDataLen).1 = vhashUpdateOk ∨
      m.pfnVHashClean = none ∧ (cpy d data m.uiDataLen).2 = d

section Paths

variable {h h' : VHashHead K N D} {key : K} {data : N} {a : Nat}

theorem Untouched.refl (h : VHashHead K N D) : Untouched h h :=
  ⟨rfl, rfl, fun _ _ => rfl, fun _ _ => rfl, rfl, rfl, rfl, [], by simp, by simp⟩

theorem Untouched.released (h : VHashHead K N D) : Untouched h (h.released []) :=
  ⟨rfl, rfl, fun _ _ => rfl, fun _ _ => rfl, rfl, rfl, rfl, [.lock, .unlock], by
    simp [VHashHead.released], by simp⟩

/-- A node that was not there before may come and go. -/
theorem Untouched.freed (hfresh : a ∉ h.live) (d : D) :
    Untouched h (VHashHead.released {h with
      mem := Function.update h.mem (.node a) none
      pData := Function.update h.pData a d}
      ([.malloc a, .cpy a] ++ cleanEvents h.moudle a ++ [.free a])) := by
  have hother : ∀ x ∈ h.live, x ≠ a := by
    rintro x hx rfl
    exact hfresh hx
  refine ⟨rfl, rfl, ?_, ?_, rfl, rfl, rfl, _, rfl, ?_⟩
  · intro p hp
    apply Function.update_of_ne
    intro hpa
    exact hfresh (hp a hpa)
  · intro x hx
    exact Function.update_of_ne (hother x hx) _ _
  · intro x hx hmem
    have hxa := hother x hx
    cases hclean : h.moudle.pfnVHashClean <;> simp [cleanEvents, hclean, hxa] at hmem

variable [Zero D] {ppNodeData : Option NodePtr} {want : Option Nat}

/-- Once the copy has succeeded there is no other way out than success. -/
theorem addNode2_inserted_code (hfree : h.locked = false) {b want : Nat} {last : Option Nat}
    (hlook : (lookup key).run {h with locked := true, log := h.log ++ [.lock]} =
      .ok ((b, .miss last), {h with locked := true, log := h.log ++ [.lock]}))
    (hcallbacks : addCallbacks h.moudle = true) {cpy : D → N → UInt32 → UInt32 × D}
    (hcpy : h.moudle.pfnVHashCpy = some cpy)
    (hcopied : (cpy 0 data h.moudle.uiDataLen).1 = vhashOk) {ret : UInt32}
    {ppNodeData' : Option NodePtr}
    (hrun : (addNode2 key data ppNodeData (some want)).run h =
      .ok ((ret, ppNodeData'), h')) : ret = vhashOk := by
  simp [addNode2, hcallbacks, spinLockLock_run hfree, hlook, mallocNode_some_run,
    writeData_run, cpyData_run cpy, hcpy, hcopied] at hrun
  obtain ⟨_, -, hrun⟩ := ok_of_bind hrun
  obtain ⟨_, -, hrun⟩ := ok_of_bind hrun
  obtain ⟨_, -, hrun⟩ := ok_of_bind hrun
  simp [spinLockUnlock_run] at hrun
  exact hrun.1.1.symm

/-- A failed call leaves everything untouched, unless it is an update that
`IsUpdate` allows and `cpy` fails to carry out. -/
theorem addNode2_failed {ret : UInt32} {ppNodeData' : Option NodePtr}
    (hrun : (addNode2 key data ppNodeData want).run h = .ok ((ret, ppNodeData'), h'))
    (hret : ret ≠ vhashOk) (hret' : ret ≠ vhashUpdateOk) :
    ppNodeData' = ppNodeData ∧ (Untouched h h' ∨
      ∃ isUpdate cpy a, Hits h key a ∧ h.moudle.pfnVHashIsUpdate = some isUpdate ∧
        h.moudle.pfnVHashCpy = some cpy ∧ isUpdate (h.pData a) data = vhashOk ∧
        ret = (cpy (cleaned h.moudle (h.pData a)) data h.moudle.uiDataLen).1 ∧
        h' = notUpdated h cpy data a) := by
  cases hcallbacks : addCallbacks h.moudle with
  | false =>
      simp [addNode2, hcallbacks] at hrun
      obtain ⟨⟨-, rfl⟩, rfl⟩ := hrun
      exact ⟨rfl, .inl (.refl h)⟩
  | true =>
      obtain ⟨_, _, isUpdate, cpy, _, _, hisUpdate, hcpy⟩ := addCallbacks_iff.mp hcallbacks
      have hfree : h.locked = false := by
        cases hlocked : h.locked with
        | false => rfl
        | true => simp [addNode2, hcallbacks, spinLockLock_deadlock hlocked] at hrun
      cases hlook : (lookup key).run {h with locked := true, log := h.log ++ [.lock]} with
      | error e => simp [addNode2, hcallbacks, spinLockLock_run hfree, hlook] at hrun
      | ok result =>
          obtain ⟨⟨b, found⟩, h₁⟩ := result
          obtain ⟨rfl, -, hhit⟩ := lookup_ok hlook
          cases found with
          | hit a =>
              have ha : a ∈ h.live := (hhit a rfl).1
              by_cases hupdate : isUpdate (h.pData a) data = vhashOk
              · by_cases hcopied : (cpy (cleaned h.moudle (h.pData a)) data
                    h.moudle.uiDataLen).1 = vhashOk
                · simp [addNode2, hcallbacks, spinLockLock_run hfree, hlook, hisUpdate,
                    callback_run, readData_run, ha, hupdate, cleanData_run, cpyData_run cpy,
                    hcpy, hcopied, spinLockUnlock_run] at hrun
                  exact absurd hrun.1.1.symm hret'
                · rw [addNode2_notUpdated ⟨hfree, ha, b, hlook⟩ hcallbacks hisUpdate hcpy
                    hupdate hcopied ppNodeData want] at hrun
                  cases hrun
                  exact ⟨rfl, .inr ⟨isUpdate, cpy, a, ⟨hfree, ha, b, hlook⟩, hisUpdate, hcpy,
                    hupdate, rfl, rfl⟩⟩
              · simp [addNode2, hcallbacks, spinLockLock_run hfree, hlook, hisUpdate,
                  callback_run, readData_run, ha, hupdate, spinLockUnlock_run] at hrun
                obtain ⟨⟨-, rfl⟩, rfl⟩ := hrun
                exact ⟨rfl, .inl (.released h)⟩
          | miss last =>
              cases want with
              | none =>
                  simp [addNode2, hcallbacks, spinLockLock_run hfree, hlook,
                    mallocNode_none_run, spinLockUnlock_run] at hrun
                  obtain ⟨⟨-, rfl⟩, rfl⟩ := hrun
                  exact ⟨rfl, .inl (.released h)⟩
              | some want =>
                  by_cases hcopied : (cpy 0 data h.moudle.uiDataLen).1 = vhashOk
                  · exact absurd (addNode2_inserted_code hfree hlook hcallbacks hcpy hcopied hrun)
                      hret
                  · rw [addNode2_copy_failed hfree hlook hcallbacks hcpy hcopied ppNodeData] at hrun
                    cases hrun
                    exact ⟨rfl, .inl (.freed (unused_not_mem h.live want) _)⟩

end Paths

section Table

variable {w w' : VHashWorld K N D} {h h' : VHashHead K N D} {enMoudleId : UInt32}
variable {key : K} {data : N} {a : Nat} {d : D}

theorem TableKept.refl (w : VHashWorld K N D) : TableKept enMoudleId w w := by
  refine ⟨rfl, ?_, fun _ _ => rfl⟩
  cases w.astVHashHead enMoudleId.toNat with
  | none => exact .none
  | some h => exact .some (.refl h)

theorem TableKept.withHead (hhead : w.astVHashHead enMoudleId.toNat = some h)
    (hsame : Untouched h h') : TableKept enMoudleId w (w.withHead enMoudleId h') := by
  refine ⟨rfl, ?_, fun i hi => Function.update_of_ne hi _ _⟩
  rw [hhead, withHead_head]
  exact .some hsame

theorem TableKept.head (hkept : TableKept enMoudleId w (w.withHead enMoudleId h'))
    (hhead : w.astVHashHead enMoudleId.toNat = some h) : Untouched h h' := by
  have htable := hkept.table
  rw [hhead, withHead_head] at htable
  cases htable with
  | some hsame => exact hsame

theorem getNode_ok {ret : UInt32}
    (hrun : (getNode key (some none)).run h = .ok ((ret, some (some a)), h')) :
    Hits h key a ∧ h' = h.released [] := by
  cases hfree : h.locked with
  | true => simp [getNode, spinLockLock_deadlock hfree] at hrun
  | false =>
      cases hlook : (lookup key).run {h with locked := true, log := h.log ++ [.lock]} with
      | error e => simp [getNode, spinLockLock_run hfree, hlook] at hrun
      | ok result =>
          obtain ⟨⟨b, found⟩, h₁⟩ := result
          obtain ⟨rfl, -, hhit⟩ := lookup_ok hlook
          cases found with
          | miss last =>
              simp [getNode, spinLockLock_run hfree, hlook, spinLockUnlock_run] at hrun
          | hit x =>
              simp [getNode, spinLockLock_run hfree, hlook, spinLockUnlock_run] at hrun
              obtain ⟨⟨-, rfl⟩, rfl⟩ := hrun
              exact ⟨⟨hfree, (hhit x rfl).1, b, hlook⟩, by simp [VHashHead.released]⟩

/-- `VHash_Get_Node` finds the data of the node its lookup ends at. -/
theorem find_iff_hits : find enMoudleId w key = .ok (some d) ↔
    enMoudleId < w.uiMaxVhashModules ∧ ∃ h a, w.astVHashHead enMoudleId.toNat = some h ∧
      Hits h key a ∧ h.pData a = d := by
  constructor
  · intro hfind
    obtain ⟨⟨⟨ret, ppData⟩, w'⟩, hrun, hend⟩ := ok_of_bind hfind
    have hdata : (ppData.join.bind fun a =>
        (w'.astVHashHead enMoudleId.toNat).map fun h => h.pData a) = some d :=
      Except.ok.inj hend
    obtain ⟨a, hjoin, hstored⟩ := Option.bind_eq_some_iff.mp hdata
    rw [Option.join_eq_some_iff.mp hjoin] at hrun
    obtain ⟨heq, -⟩ | ⟨h, h', hknown, hhead, hbody, rfl⟩ := withMoudle_ok hrun
    · cases heq
    · obtain ⟨hhits, rfl⟩ := getNode_ok hbody
      rw [withHead_head] at hstored
      exact ⟨hknown, h, a, hhead, hhits, Option.some.inj hstored⟩
  · rintro ⟨hknown, h, a, hhead, hhits, rfl⟩
    have hrun := withMoudle_run (vhashErr, some none) hknown hhead
      (getNode_of_hits hhits (some none))
    simp [find, vhashGetNode, hrun]

theorem addCallbacks_of_hits (hhits : Hits h key a) {isUpdate : D → N → UInt32}
    {cpy : D → N → UInt32 → UInt32 × D} (hisUpdate : h.moudle.pfnVHashIsUpdate = some isUpdate)
    (hcpy : h.moudle.pfnVHashCpy = some cpy) : addCallbacks h.moudle = true := by
  obtain ⟨-, -, b, hlook⟩ := hhits
  obtain ⟨-, hcalc, hhit⟩ := lookup_ok hlook
  have hcompare := (hhit a rfl).2
  simp only [addCallbacks, hcalc, hcompare, hisUpdate, hcpy, Option.isSome_some, Bool.and_self]

/-- An untouched module after an update that failed says that nothing was
cleaned and that `cpy` changed nothing. -/
theorem harmless_of_untouched {cpy : D → N → UInt32 → UInt32 × D} (hlive : a ∈ h.live)
    (hsame : Untouched h (notUpdated h cpy data a)) :
    h.moudle.pfnVHashClean = none ∧ (cpy (h.pData a) data h.moudle.uiDataLen).2 = h.pData a := by
  have hclean : h.moudle.pfnVHashClean = none := by
    obtain ⟨events, hlog, hnone⟩ := hsame.cleans
    have hevents : events = .lock ::
        (cleanEvents h.moudle a ++ [.cpy a] ++ cleanEvents h.moudle a) ++ [.unlock] :=
      List.append_cancel_left hlog.symm
    have hout := hnone a hlive
    cases hclean : h.moudle.pfnVHashClean with
    | none => rfl
    | some clean => simp [hevents, cleanEvents, hclean] at hout
  refine ⟨hclean, ?_⟩
  have hdata := hsame.data a hlive
  simpa [notUpdated, cleaned, hclean] using hdata

theorem untouched_of_harmless {cpy : D → N → UInt32 → UInt32 × D}
    (hclean : h.moudle.pfnVHashClean = none)
    (hsame : (cpy (h.pData a) data h.moudle.uiDataLen).2 = h.pData a) :
    Untouched h (notUpdated h cpy data a) := by
  refine ⟨rfl, rfl, fun _ _ => rfl, ?_, rfl, rfl, rfl, _, rfl, ?_⟩
  · intro x _
    simp [notUpdated, cleaned, hclean, hsame]
  · simp [cleanEvents, hclean]

/-- For every module, whatever its callbacks do, every table and every call of
`VHash_Add_Node2`: a failure changes nothing exactly when the key is not
stored, or its item is one to which the copy does no harm. -/
theorem failureUndone_iff [Zero D] (enMoudleId : UInt32) (pKey : Option K)
    (pData : Option N) (ppNodeData : Option NodePtr) (want : Option Nat)
    (w : VHashWorld K N D) :
    FailureUndone enMoudleId pKey pData ppNodeData want w ↔
      ∀ key data h d, pKey = some key → pData = some data →
        w.astVHashHead enMoudleId.toNat = some h → find enMoudleId w key = .ok (some d) →
        CopyHarmless h.moudle d data := by
  constructor
  · rintro hundone key data h d rfl rfl hhead hfind isUpdate cpy hisUpdate hcpy hupdate
    obtain ⟨hknown, h', a, hhead', hhits, rfl⟩ := find_iff_hits.mp hfind
    rw [hhead] at hhead'
    cases hhead'
    by_cases hcopied : (cpy (cleaned h.moudle (h.pData a)) data h.moudle.uiDataLen).1 = vhashOk
    · exact .inl hcopied
    by_cases hcode : (cpy (cleaned h.moudle (h.pData a)) data h.moudle.uiDataLen).1 =
        vhashUpdateOk
    · exact .inr (.inl hcode)
    have hcallbacks := addCallbacks_of_hits hhits hisUpdate hcpy
    have hrun := withMoudle_run (vhashErr, ppNodeData) hknown hhead
      (addNode2_notUpdated hhits hcallbacks hisUpdate hcpy hupdate hcopied ppNodeData want)
    obtain ⟨_, hkept⟩ := hundone _ _ _ hrun hcopied hcode
    exact .inr (.inr (harmless_of_untouched hhits.2.1 (hkept.head hhead)))
  · intro hharmless ret ppNodeData' w' hrun hret hret'
    cases pKey with
    | none =>
        cases hrun
        exact ⟨rfl, .refl w⟩
    | some key =>
        cases pData with
        | none =>
            cases hrun
            exact ⟨rfl, .refl w⟩
        | some data =>
            obtain ⟨heq, rfl⟩ | ⟨h, h', hknown, hhead, hbody, rfl⟩ := withMoudle_ok hrun
            · cases heq
              exact ⟨rfl, .refl w'⟩
            · obtain ⟨hout, huntouched | ⟨isUpdate, cpy, a, hhits, hisUpdate, hcpy, hupdate,
                rfl, rfl⟩⟩ := addNode2_failed hbody hret hret'
              · exact ⟨hout, .withHead hhead huntouched⟩
              · have hfind := find_iff_hits.mpr ⟨hknown, h, a, hhead, hhits, rfl⟩
                obtain hok | hok | ⟨hclean, hsame⟩ := hharmless key data h _ rfl rfl hhead hfind
                  isUpdate cpy hisUpdate hcpy hupdate
                · exact absurd hok hret
                · exact absurd hok hret'
                · exact ⟨hout, .withHead hhead (untouched_of_harmless hclean hsame)⟩

end Table

section Records

structure Record where
  key : Nat
  value : Nat
  deriving DecidableEq, Repr

instance : Zero Record := ⟨⟨0, 0⟩⟩

/-- A table of records whose `cpy` takes no value from 100 on, and whose
`clean` gives the value up. -/
def recordFull : FullMoudle Nat Record Record where
  uiBucketCount := 1
  uiDataLen := 8
  hash := fun _ => 0
  compare := fun key d => if d.key = key then vhashOk else vhashErr
  isUpdate := fun _ _ => vhashOk
  clean := some (fun d => (vhashOk, {d with value := 0}))
  cpy := fun d data _ => if data.value < 100 then (vhashOk, data) else (vhashErr, d)
  hash_lt := fun _ => by decide

/-- The value 5 is stored. The call that is to replace it by 100 fails, and
the record has lost its value. -/
theorem failureUndone_value_lost :
    ∃ w₀ w₁ : VHashWorld Nat Record Record,
      (vhashCreateMoudle enPort (some recordFull.moudle) true).run
        (vhashInit enVHashMoudleMax) = .ok (vhashOk, w₀) ∧
      (vhashAddNode2 enPort (some 1) (some ⟨1, 5⟩) none (some 0)).run w₀ =
        .ok ((vhashOk, none), w₁) ∧
      ¬ FailureUndone enPort (some 1) (some ⟨1, 100⟩) (some none) none w₁ := by
  obtain ⟨w₀, w₁, h, bs, a, hcreate, hadd, hknown, hhead, hmoudle, hfree, hchains, hbs, hdata⟩ :=
    vhashAddNode2_first (w := vhashInit enVHashMoudleMax) enPort_known rfl recordFull 1 ⟨1, 5⟩ rfl
  refine ⟨w₀, w₁, hcreate, hadd, ?_⟩
  intro hundone
  have hmatch : recordFull.matching 1 h.pData a = true := by
    rw [FullMoudle.matching, hdata]
    rfl
  have hscan : scan (recordFull.matching 1 h.pData) none (bs (recordFull.bucket 1)) =
      .hit a := by
    rw [hbs]
    simp [scan, hmatch]
  have hfailed : (recordFull.cpy (cleaned recordFull.moudle (h.pData a)) ⟨1, 100⟩
      recordFull.uiDataLen).1 = vhashErr := by
    rw [hdata]
    rfl
  have hcode : vhashErr ≠ vhashOk ∧ vhashErr ≠ vhashUpdateOk := by decide
  have hrun := withMoudle_run (vhashErr, some none) hknown hhead
    (addNode2_update_failed hchains.toLists (.of_eq hmoudle) hfree ⟨1, 100⟩ (some none) none
      hscan rfl (hfailed ▸ hcode.1))
  rw [hfailed] at hrun
  obtain ⟨_, hkept⟩ := hundone _ _ _ hrun hcode.1 hcode.2
  have hlost := (hkept.head hhead).data a (live_of_scan hchains.toLists hscan)
  simp only [notUpdated, released_pData, Function.update_self, hmoudle, hdata] at hlost
  revert hlost
  decide

end Records

end RedisTrace
