import RedisTrace.VHash.Moudles

/-!
What the functions of `vhash.c` do to any module, whichever of its callbacks
are NULL and wherever its hash sends a key. A table that only these functions
have worked on is sound: its lists and counters are well formed, the mutex is
free, and a node on a list shows that the callbacks needed to put it there
were given. Each function either leaves a sound table behind or stops at a
callback or a bucket that is not there.
-/

namespace RedisTrace

open CircularList Run

variable {K N D : Type}

/-- The events of the mutex, as against those of the nodes. -/
def Event.ofMutex : Event → Bool
  | .lock | .unlock => true
  | _ => false

/-- There is something `cpy` refuses to copy. -/
def VHashMoudle.CopyFails (m : VHashMoudle K N D) : Prop :=
  ∃ cpy d data, m.pfnVHashCpy = some cpy ∧ (cpy d data m.uiDataLen).1 ≠ vhashOk

/-- The key has a bucket. -/
def VHashMoudle.Reaches (m : VHashMoudle K N D) (key : K) : Prop :=
  ∃ hash, m.pfnVHashCalc = some hash ∧ hash key < m.uiBucketCount

theorem FullMoudle.reaches (f : FullMoudle K N D) (key : K) : f.moudle.Reaches key :=
  ⟨f.hash, rfl, f.hash_lt key⟩

/-- What a call that holds the mutex does to the nodes: from the live nodes it
finds, the events it causes and the live nodes it leaves. -/
inductive NodeEffect (m : VHashMoudle K N D) (live : Finset Nat) :
    List Event → Finset Nat → Prop where
  | none : NodeEffect m live [] live
  | updated {a : Nat} (stored : a ∈ live) :
      NodeEffect m live (cleanEvents m a ++ [.cpy a]) live
  | notUpdated {a : Nat} (stored : a ∈ live) (fails : m.CopyFails) :
      NodeEffect m live (cleanEvents m a ++ [.cpy a] ++ cleanEvents m a) live
  | inserted {a : Nat} (fresh : a ∉ live) :
      NodeEffect m live [.malloc a, .cpy a] (insert a live)
  | notInserted {a : Nat} (fresh : a ∉ live) (fails : m.CopyFails) :
      NodeEffect m live ([.malloc a, .cpy a] ++ cleanEvents m a ++ [.free a]) live
  | deleted {a : Nat} (stored : a ∈ live) :
      NodeEffect m live (removal m a) (live.erase a)
  | emptied {as : List Nat} (nodup : as.Nodup) (all : ∀ a, a ∈ as ↔ a ∈ live) :
      NodeEffect m live (as.flatMap (removal m)) ∅

theorem ofMutex_cleanEvents (m : VHashMoudle K N D) (a : Nat) :
    ∀ e ∈ cleanEvents m a, e.ofMutex = false := by
  intro e he
  unfold cleanEvents at he
  split at he
  · rw [List.mem_singleton.mp he]
    rfl
  · cases he

theorem ofMutex_removal (m : VHashMoudle K N D) (a : Nat) :
    ∀ e ∈ removal m a, e.ofMutex = false := by
  intro e he
  rcases List.mem_append.mp he with he | he
  · exact ofMutex_cleanEvents m a e he
  · rw [List.mem_singleton.mp he]
    rfl

/-- Nothing that is done to the nodes is done to the mutex. -/
theorem NodeEffect.quiet {m : VHashMoudle K N D} {live live' : Finset Nat}
    {events : List Event} (heffect : NodeEffect m live events live') :
    ∀ e ∈ events, e.ofMutex = false := by
  intro e he
  have hclean := ofMutex_cleanEvents m
  cases heffect with
  | none => cases he
  | @updated a _ =>
      simp only [List.mem_append, List.mem_singleton] at he
      obtain he | rfl := he
      · exact hclean a e he
      · rfl
  | @notUpdated a _ _ =>
      simp only [List.mem_append, List.mem_singleton] at he
      obtain (he | rfl) | he := he
      · exact hclean a e he
      · rfl
      · exact hclean a e he
  | inserted _ =>
      simp only [List.mem_cons, List.not_mem_nil, or_false] at he
      obtain rfl | rfl := he <;> rfl
  | @notInserted a _ _ =>
      simp only [List.mem_append, List.mem_cons, List.not_mem_nil, or_false] at he
      obtain ((rfl | rfl) | he) | rfl := he
      · rfl
      · rfl
      · exact hclean a e he
      · rfl
  | @deleted a _ => exact ofMutex_removal m a e he
  | @emptied as _ _ =>
      obtain ⟨a, _, ha⟩ := List.mem_flatMap.mp he
      exact ofMutex_removal m a e ha

/-- A table between two calls. -/
structure Sound (h : VHashHead K N D) (bs : Nat → List Nat) : Prop
    extends Chains h bs where
  free : h.locked = false
  callbacks : h.live.Nonempty → addCallbacks h.moudle = true
  outside : ∀ b, h.bucketCount ≤ b → h.mem (.listHead b) = none

/-- What a call has done when it returns: nothing, or what it did with the
mutex held, which it took once and gave back. -/
structure Kept (h h' : VHashHead K N D) : Prop where
  moudle : h'.moudle = h.moudle
  sound : ∃ bs, Sound h' bs
  effect : h' = h ∨ ∃ events, NodeEffect h.moudle h.live events h'.live ∧
    h'.log = h.log ++ (.lock :: events ++ [.unlock])

/-- The body of a call returns. -/
def Ends {α : Type} (h : VHashHead K N D) (op : VHashM K N D α) : Prop :=
  ∃ answer h', op.run h = .ok (answer, h') ∧ Kept h h'

section Kept

variable {h h' : VHashHead K N D} {bs bs' : Nat → List Nat}

theorem Sound.refl (hs : Sound h bs) : Kept h h := ⟨rfl, ⟨bs, hs⟩, .inl rfl⟩

theorem Sound.live_empty (hs : Sound h bs) (hnone : addCallbacks h.moudle = false) :
    h.live = ∅ := by
  apply Finset.not_nonempty_iff_eq_empty.mp
  intro hlive
  rw [hs.callbacks hlive] at hnone
  cases hnone

theorem Sound.bucket_empty (hs : Sound h bs) (hnone : addCallbacks h.moudle = false)
    (b : Nat) : bs b = [] := by
  apply List.eq_nil_iff_forall_not_mem.mpr
  intro a ha
  have hlive := hs.live_of_mem ha
  rw [hs.live_empty hnone] at hlive
  simp at hlive

/-- A call that had the mutex leaves a sound table if it leaves well-formed
lists and the bucket heads it found. -/
theorem Sound.taken (hs : Sound h bs) (hc : Chains h' bs') (hmoudle : h'.moudle = h.moudle)
    (hfree : h'.locked = false) (hheads : SameHeads h h') {events : List Event}
    (heffect : NodeEffect h.moudle h.live events h'.live)
    (hlog : h'.log = h.log ++ (.lock :: events ++ [.unlock]))
    (hcallbacks : h'.live.Nonempty → addCallbacks h.moudle = true) : Kept h h' := by
  refine ⟨hmoudle, ⟨bs', hc, hfree, ?_, ?_⟩, .inr ⟨events, heffect, hlog⟩⟩
  · rw [hmoudle]
    exact hcallbacks
  · intro b hb
    have hcount : h'.bucketCount = h.bucketCount := by
      rw [VHashHead.bucketCount, hmoudle]
      rfl
    have hnone := hheads b
    rw [hs.outside b (hcount ▸ hb)] at hnone
    simpa using hnone

/-- A call that only looked. -/
theorem Sound.looked (hs : Sound h bs) : Kept h (h.released []) :=
  hs.taken (hs.toChains.released []) rfl rfl (fun _ => rfl) .none rfl hs.callbacks

/-- A call that wrote to a stored node. -/
theorem Sound.wrote (hs : Sound h bs) (pData : Nat → D) {events : List Event}
    (heffect : NodeEffect h.moudle h.live events h.live) :
    Kept h (VHashHead.released {h with pData := pData} events) :=
  hs.taken ((hs.toChains.rewritten pData).released events) rfl rfl (fun _ => rfl) heffect rfl
    hs.callbacks

/-- A created table is sound. -/
theorem Sound.created (hc : Chains h (fun _ => [])) (hfree : h.locked = false)
    (hlive : h.live = ∅)
    (hmem : ∀ q, (∀ b, b < h.bucketCount → q ≠ .listHead b) →
      h.mem q = rawBuckets h.moudle.uiBucketCount q) : Sound h (fun _ => []) := by
  refine ⟨hc, hfree, ?_, ?_⟩
  · intro hnonempty
    rw [hlive] at hnonempty
    simp at hnonempty
  · intro b hb
    rw [hmem]
    · exact if_neg (Nat.not_lt.mpr hb)
    · rintro c hc' heq
      cases heq
      omega

end Kept

section Bodies

variable {h : VHashHead K N D} {bs : Nat → List Nat} {key : K} {hash : K → UInt32}

/-- A lookup in a sound table finds the key's bucket served by a full module,
or, where a callback is missing, every bucket empty. -/
theorem Sound.lookup (hs : Sound h bs) (hcalc : h.moudle.pfnVHashCalc = some hash)
    (hlt : hash key < h.moudle.uiBucketCount) :
    (∃ f : FullMoudle K N D, Serves h.moudle f key) ∨
      (lookup key).run {h with locked := true, log := h.log ++ [.lock]} =
        .ok (((hash key).toNat, .miss none), {h with locked := true, log := h.log ++ [.lock]}) := by
  cases hcallbacks : addCallbacks h.moudle with
  | true =>
      obtain ⟨hash', compare, isUpdate, cpy, hcalc', hcompare, hisUpdate, hcpy⟩ :=
        addCallbacks_iff.mp hcallbacks
      obtain ⟨f, hserves, -⟩ := exists_serves hcalc hlt hcompare hisUpdate hcpy
      exact .inl ⟨f, hserves⟩
  | false =>
      have hring := hs.ring (hash key).toNat (UInt32.lt_iff_toNat_lt.mp hlt)
      rw [hs.bucket_empty hcallbacks] at hring
      exact .inr (lookup_empty rfl hcalc hring)

/-- Beyond the last bucket a lookup leaves the memory of the module. -/
theorem Sound.lookup_beyond (hs : Sound h bs) (hcalc : h.moudle.pfnVHashCalc = some hash)
    (hbeyond : ¬ hash key < h.moudle.uiBucketCount) :
    (RedisTrace.lookup key).run {h with locked := true, log := h.log ++ [.lock]} =
      .error .badAddress := by
  refine RedisTrace.lookup_beyond rfl (by exact hcalc) ?_
  exact hs.outside _ (Nat.not_lt.mp (fun hlt => hbeyond (UInt32.lt_iff_toNat_lt.mpr hlt)))

section GetNode

theorem getNode_ends (hs : Sound h bs) (hin : h.moudle.Reaches key) (ppData : Option NodePtr) :
    Ends h (getNode key ppData) := by
  obtain ⟨hash, hcalc, hlt⟩ := hin
  obtain ⟨f, hserves⟩ | hmiss := hs.lookup hcalc hlt
  · cases hscan : scan (f.matching key h.pData) none (bs (f.bucket key)) with
    | hit a => exact ⟨_, _, getNode_hit hs.toLists hserves hs.free ppData hscan, hs.looked⟩
    | miss last => exact ⟨_, _, getNode_miss hs.toLists hserves hs.free ppData hscan, hs.looked⟩
  · exact ⟨_, _, getNode_of_miss hs.free hmiss ppData, hs.looked⟩

/-- `VHash_Get_Node` does not ask whether there is a hash function. -/
theorem getNode_null (hs : Sound h bs) (hnone : h.moudle.pfnVHashCalc = none)
    (ppData : Option NodePtr) : (getNode key ppData).run h = .error .nullCallback :=
  getNode_fault hs.free (lookup_null hnone) ppData

theorem getNode_beyond (hs : Sound h bs) (hcalc : h.moudle.pfnVHashCalc = some hash)
    (hout : ¬ h.moudle.Reaches key) (ppData : Option NodePtr) :
    (getNode key ppData).run h = .error .badAddress :=
  getNode_fault hs.free (hs.lookup_beyond hcalc (fun hlt => hout ⟨hash, hcalc, hlt⟩)) ppData

end GetNode

section DelNode

/-- The callbacks `VHash_Del_Node` insists on. -/
def delCallbacks (m : VHashMoudle K N D) : Bool :=
  m.pfnVHashCalc.isSome && m.pfnVHashCompare.isSome

theorem delNode_refuses (hnone : delCallbacks h.moudle = false) :
    (delNode key).run h = .ok (vhashInterfaceErr, h) := by
  unfold delCallbacks at hnone
  unfold delNode
  simp only [StateT.run_bind, StateT.run_get, pure_bind, hnone]
  rfl

theorem delNode_ends (hs : Sound h bs)
    (hin : delCallbacks h.moudle = true → h.moudle.Reaches key) : Ends h (delNode key) := by
  cases hcallbacks : delCallbacks h.moudle with
  | false => exact ⟨_, h, delNode_refuses hcallbacks, hs.refl⟩
  | true =>
      obtain ⟨hash, hcalc, hlt⟩ := hin hcallbacks
      obtain ⟨f, hserves⟩ | hmiss := hs.lookup hcalc hlt
      · cases hscan : scan (f.matching key h.pData) none (bs (f.bucket key)) with
        | hit a =>
            obtain ⟨_, left, right, hcut, _⟩ := scan_hit hscan
            obtain ⟨h', hrun, hchains, hmoudle, hfree, hlive, -, hlog, hheads⟩ :=
              delNode_hit hs.toChains hserves hs.free hscan hcut
            have heffect : NodeEffect h.moudle h.live (removal h.moudle a) h'.live := by
              rw [hlive]
              exact .deleted (live_of_scan hs.toLists hscan)
            refine ⟨_, h', hrun, hs.taken hchains hmoudle hfree hheads heffect ?_ ?_⟩
            · rw [hlog, removal, hserves.cleanEvents]
              simp
            · intro _
              exact hserves.addCallbacks
        | miss last => exact ⟨_, _, delNode_miss hs.toLists hserves hs.free hscan, hs.looked⟩
      · obtain ⟨hsome, hcompare⟩ := Bool.and_eq_true_iff.mp hcallbacks
        exact ⟨_, _, delNode_of_miss hs.free hsome hcompare hmiss, hs.looked⟩

theorem delNode_beyond (hs : Sound h bs) (hcallbacks : delCallbacks h.moudle = true)
    (hout : ¬ h.moudle.Reaches key) : (delNode key).run h = .error .badAddress := by
  obtain ⟨hsome, hcompare⟩ := Bool.and_eq_true_iff.mp hcallbacks
  obtain ⟨hash, hcalc⟩ := Option.isSome_iff_exists.mp hsome
  exact delNode_fault hs.free hsome hcompare
    (hs.lookup_beyond hcalc (fun hlt => hout ⟨hash, hcalc, hlt⟩))

end DelNode

section AddNode2

variable [Zero D]

theorem addNode2_refuses (hnone : addCallbacks h.moudle = false) (data : N)
    (ppNodeData : Option NodePtr) (want : Option Nat) :
    (addNode2 key data ppNodeData want).run h = .ok ((vhashInterfaceErr, ppNodeData), h) := by
  simp [addNode2, hnone]

theorem addNode2_served (hs : Sound h bs) {f : FullMoudle K N D} (hserves : Serves h.moudle f key)
    (data : N) (ppNodeData : Option NodePtr) (want : Option Nat) :
    Ends h (addNode2 key data ppNodeData want) := by
  have hl := hs.toLists
  have hcpy := hserves.cpy
  have hlen := hserves.len
  have hcallbacks := hserves.addCallbacks
  have hclean := hserves.cleanEvents
  cases hscan : scan (f.matching key h.pData) none (bs (f.bucket key)) with
  | hit a =>
      have ha := live_of_scan hl hscan
      by_cases hupdate : f.isUpdate (h.pData a) data = vhashOk
      · by_cases hcopied :
            (f.cpy (cleaned f.moudle (h.pData a)) data f.uiDataLen).1 = vhashOk
        · refine ⟨_, _, addNode2_updated hl hserves hs.free data ppNodeData want hscan hupdate
            hcopied, hs.wrote _ ?_⟩
          rw [← hclean]
          exact .updated ha
        · have hfails : h.moudle.CopyFails :=
            ⟨f.cpy, cleaned f.moudle (h.pData a), data, hcpy, by rwa [hlen]⟩
          exact ⟨_, _, addNode2_update_failed hl hserves hs.free data ppNodeData want hscan
            hupdate hcopied, hs.wrote _ (.notUpdated ha hfails)⟩
      · exact ⟨_, _, addNode2_refused hl hserves hs.free data ppNodeData want hscan hupdate,
          hs.looked⟩
  | miss last =>
      cases want with
      | none =>
          exact ⟨_, _, addNode2_no_memory hl hserves hs.free data ppNodeData hscan, hs.looked⟩
      | some want =>
          have hfresh := unused_not_mem h.live want
          by_cases hcopied : (f.cpy 0 data f.uiDataLen).1 = vhashOk
          · obtain ⟨h', hrun, hchains, hmoudle, hfree, hlive, -, hlog, hheads⟩ :=
              addNode2_inserted hs.toChains hserves hs.free data ppNodeData want hscan hcopied
            have heffect : NodeEffect h.moudle h.live
                [.malloc (unused h.live want), .cpy (unused h.live want)] h'.live := by
              rw [hlive]
              exact .inserted hfresh
            exact ⟨_, h', hrun, hs.taken hchains hmoudle hfree hheads heffect hlog
              (fun _ => hcallbacks)⟩
          · have hfailed : (f.cpy 0 data h.moudle.uiDataLen).1 ≠ vhashOk := by rwa [hlen]
            refine ⟨_, _, addNode2_copy_failed hs.free (lookup_locked_run hl hserves hscan)
              hcallbacks hcpy hfailed ppNodeData, hs.taken (hs.toChains.freed hfresh _ _) rfl rfl
                ?_ (.notInserted hfresh ⟨f.cpy, 0, data, hcpy, hfailed⟩) rfl hs.callbacks⟩
            intro b
            exact congrArg Option.isSome (update_node_listHead h.mem (unused h.live want) b none)

theorem addNode2_ends (hs : Sound h bs)
    (hin : addCallbacks h.moudle = true → h.moudle.Reaches key) (data : N)
    (ppNodeData : Option NodePtr) (want : Option Nat) :
    Ends h (addNode2 key data ppNodeData want) := by
  cases hcallbacks : addCallbacks h.moudle with
  | false => exact ⟨_, h, addNode2_refuses hcallbacks data ppNodeData want, hs.refl⟩
  | true =>
      obtain ⟨hash, hcalc, hlt⟩ := hin hcallbacks
      obtain ⟨_, compare, isUpdate, cpy, -, hcompare, hisUpdate, hcpy⟩ :=
        addCallbacks_iff.mp hcallbacks
      obtain ⟨f, hserves, -⟩ := exists_serves hcalc hlt hcompare hisUpdate hcpy
      exact addNode2_served hs hserves data ppNodeData want

theorem addNode2_beyond (hs : Sound h bs) (hcallbacks : addCallbacks h.moudle = true)
    (hout : ¬ h.moudle.Reaches key) (data : N) (ppNodeData : Option NodePtr)
    (want : Option Nat) :
    (addNode2 key data ppNodeData want).run h = .error .badAddress := by
  obtain ⟨hash, _, _, _, hcalc, -⟩ := addCallbacks_iff.mp hcallbacks
  exact addNode2_fault hs.free hcallbacks
    (hs.lookup_beyond hcalc (fun hlt => hout ⟨hash, hcalc, hlt⟩)) data ppNodeData want

end AddNode2

section NextNode

theorem getNextNode_refuses (hnone : h.moudle.pfnVHashCalc = none) (pKey : Option K)
    (pData : NodePtr) (ppNodeData : Option NodePtr) :
    (getNextNode pKey pData ppNodeData).run h = .ok ((vhashInterfaceErr, ppNodeData), h) := by
  simp [getNextNode, hnone]

/-- The second half of `VHash_Get_NextNode`, whatever bucket it begins with. -/
theorem nextBucket_returns (hl : Lists h bs) (i : UInt32) (ppNodeData : Option NodePtr) :
    ∃ out, (nextBucket i ppNodeData).run {h with locked := true, log := h.log ++ [.lock]} =
      .ok ((vhashOk, out), h.released []) := by
  have hl' : Lists {h with locked := true, log := h.log ++ [.lock]} bs := hl.congr rfl rfl rfl
  refine ⟨ppNodeData.map ((nodesFrom bs i.toNat (h.bucketCount - i.toNat)).head?.or ·), ?_⟩
  rw [nextBucket_run hl' rfl i ppNodeData]
  simp [VHashHead.released]
  rfl

/-- From a node that is there the call returns, on whichever list the node is
and wherever the hash of the key points. -/
theorem getNextNode_mapped (hl : Lists h bs) (hfree : h.locked = false)
    (hcalc : h.moudle.pfnVHashCalc = some hash) {a : Nat} (hmapped : (h.mem (.node a)).isSome)
    (ppNodeData : Option NodePtr) :
    ∃ out, (getNextNode (some key) (some a) ppNodeData).run h =
      .ok ((vhashOk, out), h.released []) := by
  obtain ⟨entry, hentry⟩ := Option.isSome_iff_exists.mp hmapped
  have hnext : nextOf h.mem (.node a) = some entry.next := by simp [nextOf, hentry]
  have hflink (st : VHashHead K N D) := onList_at (flink_run hnext) st
  by_cases hlast : entry.next = .listHead (hash key).toNat
  · obtain ⟨out, hrest⟩ := nextBucket_returns hl (hash key + 1) ppNodeData
    refine ⟨out, ?_⟩
    simp [getNextNode, hcalc, spinLockLock_run hfree, hflink, hlast, hrest]
  · obtain ⟨x, hrecord⟩ : ∃ x, (containingRecord entry.next).run
        {h with locked := true, log := h.log ++ [.lock]} =
          .ok (x, {h with locked := true, log := h.log ++ [.lock]}) := containingRecord_any _
    cases ppNodeData with
    | none =>
        obtain ⟨out, hrest⟩ := nextBucket_returns hl (hash key) none
        refine ⟨out, ?_⟩
        simp [getNextNode, hcalc, spinLockLock_run hfree, hflink, hlast, hrecord, hrest]
    | some out =>
        refine ⟨some (some x), ?_⟩
        simp [getNextNode, hcalc, spinLockLock_run hfree, hflink, hlast, hrecord,
          spinLockUnlock_run, VHashHead.released]

theorem getNextNode_unmapped (hs : Sound h bs) (hcalc : h.moudle.pfnVHashCalc = some hash)
    {a : Nat} (hnone : h.mem (.node a) = none) (ppNodeData : Option NodePtr) :
    (getNextNode (some key) (some a) ppNodeData).run h = .error .badAddress := by
  have hflink : (onList (flink (.node a))).run
      {h with locked := true, log := h.log ++ [.lock]} = .error .badAddress :=
    onList_fault rfl (flink_fault hnone)
  simp [getNextNode, hcalc, spinLockLock_run hs.free, hflink]

/-- A key without a node is refused before the mutex is taken. -/
theorem getNextNode_unpointed (hcalc : h.moudle.pfnVHashCalc = some hash)
    (ppNodeData : Option NodePtr) :
    (getNextNode (some key) none ppNodeData).run h = .ok ((vhashErr, ppNodeData), h) := by
  simp [getNextNode, hcalc]

theorem getNextNode_nowhere (hs : Sound h bs) (hcalc : h.moudle.pfnVHashCalc = some hash)
    (pData : NodePtr) (ppNodeData : Option NodePtr) :
    Ends h (getNextNode none pData ppNodeData) :=
  ⟨_, _, getNextNode_first hs.toLists hcalc hs.free pData ppNodeData, hs.looked⟩

theorem getNextNode_ends (hs : Sound h bs) {pKey : Option K} {pData : NodePtr}
    (hin : ∀ key a, pKey = some key → pData = some a → h.moudle.pfnVHashCalc.isSome →
      (h.mem (.node a)).isSome) (ppNodeData : Option NodePtr) :
    Ends h (getNextNode pKey pData ppNodeData) := by
  cases hcalc : h.moudle.pfnVHashCalc with
  | none => exact ⟨_, h, getNextNode_refuses hcalc pKey pData ppNodeData, hs.refl⟩
  | some hash =>
      cases pKey with
      | none => exact getNextNode_nowhere hs hcalc pData ppNodeData
      | some key =>
          cases pData with
          | none => exact ⟨_, h, getNextNode_unpointed hcalc ppNodeData, hs.refl⟩
          | some a =>
              have hmapped := hin key a rfl rfl (by rw [hcalc]; rfl)
              obtain ⟨out, hrun⟩ := getNextNode_mapped hs.toLists hs.free hcalc hmapped ppNodeData
              exact ⟨_, _, hrun, hs.looked⟩

theorem getNextNode_astray (hs : Sound h bs) {a : Nat} (hcalc : h.moudle.pfnVHashCalc.isSome)
    (hout : ¬ (h.mem (.node a)).isSome) (ppNodeData : Option NodePtr) :
    (getNextNode (some key) (some a) ppNodeData).run h = .error .badAddress := by
  obtain ⟨hash, hcalc⟩ := Option.isSome_iff_exists.mp hcalc
  exact getNextNode_unmapped hs hcalc (by simpa using hout) ppNodeData

/-- A node on a list is in memory. -/
theorem Lists.mapped (hl : Lists h bs) {a : Nat} (ha : a ∈ h.live) :
    (h.mem (.node a)).isSome := by
  obtain ⟨b, hb⟩ := (hl.live a).mp ha
  apply (hl.ring b (hl.lt_count hb)).mapped
  simp [hb]

end NextNode

section Moudle

theorem emptied_effect (hs : Sound h bs) :
    NodeEffect h.moudle h.live
      ((nodesFrom bs 0 h.bucketCount).flatMap (removal h.moudle)) ∅ :=
  .emptied (hs.nodup_nodesFrom 0 h.bucketCount) hs.mem_nodesFrom

theorem live_emptied {h' : VHashHead K N D} (hc : Chains h' (fun _ => [])) : h'.live = ∅ := by
  apply Finset.eq_empty_of_forall_notMem
  intro a ha
  obtain ⟨b, hb⟩ := (hc.live a).mp ha
  cases hb

theorem cleanMoudle_ends (hs : Sound h bs) : Ends h cleanMoudle := by
  obtain ⟨h', hrun, hchains, hmoudle, hfree, hlog, hheads⟩ :=
    cleanMoudle_run hs.toLists hs.free
  have hlive := live_emptied hchains
  refine ⟨_, h', hrun, hs.taken hchains hmoudle hfree hheads ?_ hlog ?_⟩
  · rw [hlive]
    exact emptied_effect hs
  · rw [hlive]
    simp

theorem destoryMoudle_kept (hs : Sound h bs) :
    ∃ h', destoryMoudle.run h = .ok (vhashOk, h') ∧ Kept h h' ∧ h'.live = ∅ := by
  obtain ⟨h', hrun, hchains, hmoudle, hfree, hlog, hheads⟩ :=
    destoryMoudle_run hs.toLists hs.free
  have hlive := live_emptied hchains
  refine ⟨h', hrun, hs.taken hchains hmoudle hfree hheads ?_ hlog ?_, hlive⟩
  · rw [hlive]
    exact emptied_effect hs
  · rw [hlive]
    simp

theorem nodeStat_ends (hs : Sound h bs) : Ends h nodeStat :=
  ⟨_, _, nodeStat_run hs.free, hs.looked⟩

theorem nodeTotal_ends (hs : Sound h bs) : Ends h nodeTotal :=
  ⟨_, _, nodeTotal_run, hs.refl⟩

end Moudle

end Bodies

end RedisTrace
