import RedisTrace.FailedInserts
import RedisTrace.Tables

/-!
A bucket in which `VHash_Add_Node` has overwritten the last node. The node is
linked to itself, so a walk over the bucket ends at a node that compares equal,
or it does not end.
-/

namespace RedisTrace

open CircularList Run

variable {K N D : Type}

/-- Following `Flink` leads along these entries. -/
def Leads (m : Mem Ptr) (path : List Ptr) : Prop :=
  List.IsChain (fun u v => nextOf m u = some v) path

/-- What a walk goes on to do behind the nodes it has passed. -/
def Walk.andThen (rest : Option Nat → VHashM K N D Walk) : Walk → VHashM K N D Walk
  | .hit a => return .hit a
  | .miss last => rest last

section Paths

theorem leads_of_ring {m : Mem Ptr} {p : Ptr} {xs : List Ptr} (hring : Ring m p xs) :
    Leads m (p :: xs ++ [p]) := List.IsChain.imp (fun _ _ hlinked => hlinked.1) hring.links

/-- Only where a path goes on do the links have to stay. -/
theorem Leads.congr {m m' : Mem Ptr} {path : List Ptr} {p : Ptr} (hleads : Leads m (path ++ [p]))
    (hsame : ∀ q ∈ path, nextOf m' q = nextOf m q) : Leads m' (path ++ [p]) := by
  obtain ⟨hpath, -, hlink⟩ := List.isChain_append.mp hleads
  refine List.isChain_append.mpr ⟨?_, List.isChain_singleton p, ?_⟩
  · apply hpath.imp_of_mem_imp
    intro u v hu _ huv
    rw [hsame u hu]
    exact huv
  · intro u hu v hv
    rw [hsame u (List.mem_of_getLast? hu)]
    exact hlink u hu v hv

variable {h : VHashHead K N D} {f : FullMoudle K N D} {key : K} {b : Nat}

/-- A walk along a path is a scan of its nodes, and then goes on from its end. -/
theorem walk_along (key : K) (b : Nat) (hcompare : h.moudle.pfnVHashCompare = some f.compare)
    (hlocked : h.locked = true) {p : Ptr} (as : List Nat) (hlive : ∀ a ∈ as, a ∈ h.live)
    (hleads : Leads h.mem (as.map Ptr.node ++ [p])) (fuel : Nat) (last : Option Nat) :
    (walk key (.listHead b) (as.length + fuel) ((as.map Ptr.node ++ [p]).head (by simp))
      last).run h =
    ((scan (f.matching key h.pData) last as).andThen (walk key (.listHead b) fuel p)).run h := by
  induction as generalizing last with
  | nil => simp [scan, Walk.andThen]
  | cons a as ih =>
      have ha : a ∈ h.live := hlive a (by simp)
      have hfuel : (a :: as).length + fuel = (as.length + fuel) + 1 := by
        simp only [List.length_cons]
        omega
      rw [hfuel]
      by_cases hmatch : f.compare key (h.pData a) = vhashOk
      · simp [walk, scan, Walk.andThen, containingRecord_run, hcompare, callback_run,
          readData_run hlocked ha, hmatch, FullMoudle.matching]
      · have hnext : nextOf h.mem (.node a) = some ((as.map Ptr.node ++ [p]).head (by simp)) := by
          cases as with
          | nil => exact hleads.rel_head? (by simp)
          | cons a' as => exact hleads.rel_head? (by simp)
        have hstep := onList_run hlocked (flink_run hnext)
        have htail := ih (fun x hx => hlive x (by simp [hx])) hleads.tail (some a)
        simp [walk, scan, containingRecord_run, hcompare, callback_run,
          readData_run hlocked ha, hmatch, FullMoudle.matching, hstep]
        exact htail

/-- From a node that is linked to itself no walk comes back. -/
theorem walk_endless (hcompare : h.moudle.pfnVHashCompare = some f.compare)
    (hlocked : h.locked = true) {a : Nat} (ha : a ∈ h.live)
    (hself : nextOf h.mem (.node a) = some (.node a)) (hother : f.matching key h.pData a = false)
    (fuel : Nat) (last : Option Nat) :
    (walk key (.listHead b) fuel (.node a) last).run h = .error .endless := by
  have hcmp : ¬ f.compare key (h.pData a) = vhashOk := of_decide_eq_false hother
  induction fuel generalizing last with
  | zero => rfl
  | succ fuel ih =>
      have hstep := onList_run hlocked (flink_run hself)
      simp [walk, containingRecord_run, hcompare, callback_run, readData_run hlocked ha, hcmp,
        hstep]
      exact ih (some a)

/-- A lookup in a bucket from which a path leads off. -/
theorem lookup_along (hs : Serves h.moudle f key) (hlocked : h.locked = true) {p : Ptr}
    (as : List Nat) (hlive : ∀ a ∈ as, a ∈ h.live) (hlength : as.length ≤ h.live.card)
    (hleads : Leads h.mem (.listHead (f.bucket key) :: as.map Ptr.node ++ [p])) :
    (lookup key).run h =
      (((scan (f.matching key h.pData) none as).andThen
        (walk key (.listHead (f.bucket key)) (h.live.card + 1 - as.length) p)).run h).map
          (Prod.map (Prod.mk (f.bucket key)) id) := by
  obtain ⟨hash, hcalc, hkey⟩ := hs.hashed
  have hnext : nextOf h.mem (.listHead (f.bucket key)) =
      some ((as.map Ptr.node ++ [p]).head (by simp)) := by
    cases as with
    | nil => exact hleads.rel_head? (by simp)
    | cons a as => exact hleads.rel_head? (by simp)
  have hfirst := onList_run hlocked (flink_run hnext)
  have hfuel : h.live.card + 1 = as.length + (h.live.card + 1 - as.length) := by omega
  have hwalk := walk_along key (f.bucket key) hs.compare hlocked as hlive
    hleads.tail (h.live.card + 1 - as.length) none
  rw [← hfuel] at hwalk
  unfold FullMoudle.bucket at *
  rw [← hwalk]
  cases hend : (walk key (.listHead (f.hash key).toNat) (h.live.card + 1)
      ((as.map Ptr.node ++ [p]).head (by simp)) none).run h with
  | error e => simp [lookup, hcalc, callback_run, hkey, hfirst, hend, Except.map]
  | ok result =>
      simp [lookup, hcalc, callback_run, hkey, hfirst, hend, Except.map]
      rfl

end Paths

/-- The node `a` has got the data `d` and is linked to itself. -/
structure Overwritten (h h' : VHashHead K N D) (a : Nat) (d : D) : Prop where
  moudle : h'.moudle = h.moudle
  live : h'.live = h.live
  data : h'.pData = Function.update h.pData a d
  self : nextOf h'.mem (.node a) = some (.node a)
  others : ∀ q, q ≠ .node a → nextOf h'.mem q = nextOf h.mem q

section Overwriting

variable {h : VHashHead K N D} {f : FullMoudle K N D} {key : K} {bs : Nat → List Nat}

/-- The forward links of the other entries stay. -/
theorem insertTailList_last_next {A : Type} [DecidableEq A] {m : Mem A} {p e : A} {xs : List A}
    (hring : Ring m p (xs ++ [e])) :
    ∃ m', (insertTailList p e).run m = some ((), m') ∧ nextOf m' e = some e ∧
      ∀ q, q ≠ e → nextOf m' q = nextOf m q := by
  have hlast : prevOf m p = some e := by simpa using hring.last
  have hmapped : (m e).isSome := hring.mapped (by simp)
  have hmapped₁ : (setNext m e p e).isSome := by simpa using hmapped
  have hmapped₂ : (setPrev (setNext m e p) e e e).isSome := by simpa using hmapped
  have hpmapped : (setNext (setPrev (setNext m e p) e e) e e p).isSome := by
    have hp : (m p).isSome := hring.mapped (by simp)
    simpa using hp
  refine ⟨setPrev (setNext (setPrev (setNext m e p) e e) e e) p e, ?_, ?_, ?_⟩
  · simp [insertTailList, blink_run hlast, setFlink_run p hmapped, setBlink_run e hmapped₁,
      setFlink_run e hmapped₂, setBlink_run e hpmapped]
  · rw [nextOf_setPrev]
    exact nextOf_setNext_self _ e hmapped₂
  · intro q hq
    rw [nextOf_setPrev, nextOf_setNext_ne _ _ hq, nextOf_setPrev, nextOf_setNext_ne _ _ hq]

variable [Zero D]

theorem addNode_overwritten (hl : Lists h bs) (hs : Serves h.moudle f key)
    (hfree : h.locked = false) (data : N) {front : List Nat} {a : Nat}
    (hcut : bs (f.bucket key) = front ++ [a])
    (hscan : scan (f.matching key h.pData) none (bs (f.bucket key)) = .miss (some a)) :
    ∃ h', (addNode key data).run h = .ok (vhashOk, h') ∧ h'.locked = false ∧
      Overwritten h h' a (f.cpy 0 data f.uiDataLen).2 := by
  have ha : a ∈ h.live := hl.live_of_mem (b := f.bucket key) (by simp [hcut])
  have hb : f.bucket key < h.bucketCount := hl.lt_count (a := a) (by simp [hcut])
  have hring : Ring h.mem (.listHead (f.bucket key)) (front.map .node ++ [.node a]) := by
    simpa [hcut] using hl.ring _ hb
  obtain ⟨m, hinsert, hself, hothers⟩ := insertTailList_last_next hring
  have hcpy := hs.cpy
  have hlen := hs.len
  have hlist (st : VHashHead K N D) := onList_at hinsert st
  let h' : VHashHead K N D := {h with
    uiTotal := h.uiTotal + 1
    locked := false
    ulDataNodeSum := Function.update h.ulDataNodeSum (f.bucket key)
      (h.ulDataNodeSum (f.bucket key) + 1)
    mem := m
    pData := Function.update h.pData a (f.cpy 0 data f.uiDataLen).2
    log := h.log ++ [.lock, .cpy a, .unlock]}
  refine ⟨h', ?_, rfl, rfl, rfl, rfl, hself, hothers⟩
  simp [addNode, hs.addCallbacks, spinLockLock_run hfree,
    lookup_locked_run hl hs hscan, writeData_run, ha, cpyData_run f.cpy, hcpy, hlen, hlist,
    countBucket_run, countTotal_run, spinLockUnlock_run, h']

end Overwriting

section Scans

variable {p q : Nat → Bool} {last : Option Nat} {as : List Nat} {a : Nat}

theorem scan_congr (hsame : ∀ x ∈ as, p x = q x) : scan p last as = scan q last as := by
  induction as generalizing last with
  | nil => rfl
  | cons x as ih =>
      rw [scan, scan, hsame x (by simp), ih (fun y hy => hsame y (by simp [hy]))]

theorem scan_only (ha : a ∈ as) (hp : p a = true) (honly : ∀ x ∈ as, p x = true → x = a) :
    scan p last as = .hit a := by
  cases hscan : scan p last as with
  | hit x =>
      obtain ⟨hx, left, right, rfl, -⟩ := scan_hit hscan
      rw [honly x (by simp) hx]
  | miss last' =>
      have hnone := (scan_miss hscan).2 a ha
      rw [hp] at hnone
      cases hnone

theorem scan_none (hnone : ∀ x ∈ as, p x = false) : ∃ last', scan p last as = .miss last' := by
  cases hscan : scan p last as with
  | miss last' => exact ⟨last', rfl⟩
  | hit x =>
      obtain ⟨hx, left, right, rfl, -⟩ := scan_hit hscan
      rw [hnone x (by simp)] at hx
      cases hx

end Scans

section Lookups

variable {f : FullMoudle K N D} {h h' : VHashHead K N D} {bs : Nat → List Nat} {a : Nat} {d : D}
variable {key : K} {b : Nat} {front : List Nat}

theorem Overwritten.matching (ho : Overwritten h h' a d) {x : Nat} (hx : x ≠ a) (key : K) :
    f.matching key h'.pData x = f.matching key h.pData x := by
  rw [FullMoudle.matching, FullMoudle.matching, ho.data, Function.update_of_ne hx]

theorem Overwritten.leads (ho : Overwritten h h' a d) {c : Nat} {as : List Nat} {p : Ptr}
    (hleads : Leads h.mem (.listHead c :: as.map Ptr.node ++ [p])) (hne : ∀ x ∈ as, x ≠ a) :
    Leads h'.mem (.listHead c :: as.map Ptr.node ++ [p]) := by
  apply hleads.congr
  intro q hq
  apply ho.others
  rintro rfl
  obtain ⟨x, hx, heq⟩ := List.mem_map.mp ((List.mem_cons.mp hq).resolve_left (by simp))
  exact hne x hx (by simpa using heq)

/-- In the other buckets nothing has changed. -/
theorem Overwritten.lookup_elsewhere (ho : Overwritten h h' a d) (hl : Lists h bs)
    (hs : Serves h.moudle f key) (hlocked : h'.locked = true) (ha : a ∈ bs b)
    (hb : f.bucket key ≠ b) :
    (lookup key).run h' =
      .ok ((f.bucket key, scan (f.matching key h.pData) none (bs (f.bucket key))), h') := by
  have hne : ∀ x ∈ bs (f.bucket key), x ≠ a := by
    rintro x hx rfl
    exact hb (hl.apart _ _ _ hx ha)
  have hleads : Leads h'.mem (.listHead (f.bucket key) :: (bs (f.bucket key)).map Ptr.node ++
      [.listHead (f.bucket key)]) := ho.leads (leads_of_ring (hl.ring _ hs.bucket_lt)) hne
  have hlength : (bs (f.bucket key)).length ≤ h'.live.card := by
    rw [ho.live]
    exact hl.length_le _
  have hlive : ∀ x ∈ bs (f.bucket key), x ∈ h'.live := by
    intro x hx
    rw [ho.live]
    exact hl.live_of_mem hx
  have hrun := lookup_along (ho.moudle ▸ hs) hlocked _ hlive hlength hleads
  rw [scan_congr (fun x hx => ho.matching (hne x hx) key)] at hrun
  rw [hrun]
  obtain ⟨fuel, hfuel⟩ : ∃ n, h'.live.card + 1 - (bs (f.bucket key)).length = n + 1 :=
    ⟨h'.live.card - (bs (f.bucket key)).length, by omega⟩
  cases scan (f.matching key h.pData) none (bs (f.bucket key)) with
  | hit x => rfl
  | miss last => simp [Walk.andThen, hfuel, walk, Except.map]

/-- In the bucket itself a lookup gets past the other nodes, and no further. -/
theorem Overwritten.lookup_here (ho : Overwritten h h' a d) (hl : Lists h bs)
    (hs : Serves h.moudle f key) (hlocked : h'.locked = true)
    (hcut : bs (f.bucket key) = front ++ [a]) :
    (lookup key).run h' =
      (((scan (f.matching key h.pData) none front).andThen
        (fun _ => if f.matching key h'.pData a then return .hit a else fault .endless)).run h').map
          (Prod.map (Prod.mk (f.bucket key)) id) := by
  have hs' : Serves h'.moudle f key := ho.moudle ▸ hs
  have hlive : ∀ x ∈ front ++ [a], x ∈ h'.live := by
    intro x hx
    rw [ho.live]
    exact hl.live_of_mem (b := f.bucket key) (hcut ▸ hx)
  have hne : ∀ x ∈ front, x ≠ a := by
    rintro x hx rfl
    have hnodup := hl.nodup (f.bucket key)
    rw [hcut] at hnodup
    exact (List.disjoint_of_nodup_append hnodup) hx (by simp)
  have hring := hl.ring _ hs.bucket_lt
  rw [hcut] at hring
  have hleads : Leads h'.mem (.listHead (f.bucket key) :: front.map Ptr.node ++ [.node a]) := by
    have hwhole : Leads h.mem ((.listHead (f.bucket key) :: front.map Ptr.node ++ [.node a]) ++
        [.listHead (f.bucket key)]) := by
      simpa using leads_of_ring hring
    have hfront : Leads h.mem (.listHead (f.bucket key) :: front.map Ptr.node ++ [.node a]) :=
      List.IsChain.left_of_append hwhole
    exact ho.leads hfront hne
  have hlength : front.length < h'.live.card := by
    have hall := hl.length_le (f.bucket key)
    rw [hcut, ← ho.live, List.length_append, List.length_singleton] at hall
    omega
  have hrun := lookup_along hs' hlocked front (fun x hx => hlive x (by simp [hx]))
    hlength.le hleads
  rw [scan_congr (fun x hx => ho.matching (hne x hx) key)] at hrun
  rw [hrun]
  cases scan (f.matching key h.pData) none front with
  | hit x => rfl
  | miss last =>
      obtain ⟨fuel, hfuel⟩ : ∃ n, h'.live.card + 1 - front.length = n + 1 :=
        ⟨h'.live.card - front.length, by omega⟩
      have ha : a ∈ h'.live := hlive a (by simp)
      cases hmatch : f.matching key h'.pData a with
      | true =>
          have hcmp : f.compare key (h'.pData a) = vhashOk := of_decide_eq_true hmatch
          have hcompare := hs'.compare
          simp [Walk.andThen, hfuel, walk, containingRecord_run, hcompare, callback_run,
            readData_run hlocked ha, hcmp]
      | false =>
          have hendless := walk_endless (b := f.bucket key) hs'.compare hlocked ha ho.self hmatch
            (fuel + 1) last
          simp only [Walk.andThen, hfuel, hendless]
          rfl

end Lookups

/-- The key a call looks for. -/
def TableCall.searches (f : KeyedMoudle K N D) : TableCall K N → Option K
  | .get key _ | .del key => some key
  | .add data _ _ => some (f.newKey data)
  | .create _ | .destory | .clean | .next _ _ | .stat _ | .total _ => none

/-- A key of the bucket that is neither the new one nor that of an entry before
the overwritten one. -/
def KeyedMoudle.Stranded (f : KeyedMoudle K N D) (front : List (Stored D)) (newKey key : K) :
    Prop := f.bucket key = f.bucket newKey ∧ key ≠ newKey ∧ ∀ e ∈ front, f.keyOf e ≠ key

section Tables

variable {f : KeyedMoudle K N D} {enMoudleId : UInt32} {w w' : VHashWorld K N D}
variable {h h' : VHashHead K N D} {bs : Nat → List Nat} {t : f.Table} {key : K} {a : Nat}

/-- A call that looks for a key gets as far as the lookup does. -/
theorem searches_fault [Zero D] (hid : enMoudleId < w.uiMaxVhashModules)
    (hhead : w.astVHashHead enMoudleId.toNat = some h) (hmoudle : h.moudle = f.moudle)
    (hfree : h.locked = false) {e : Fault}
    (hlook : (lookup key).run {h with locked := true, log := h.log ++ [.lock]} = .error e)
    {c : TableCall K N} (hc : c.searches f = some key) :
    (vhashCall (c.call f enMoudleId)).run w = .error e := by
  have hcallbacks : addCallbacks h.moudle = true ∧ h.moudle.pfnVHashCalc.isSome ∧
      h.moudle.pfnVHashCompare.isSome := by
    rw [hmoudle]
    exact ⟨rfl, rfl, rfl⟩
  obtain ⟨hadd, hcalc, hcompare⟩ := hcallbacks
  cases c with
  | create | destory | clean | next | stat | total => cases hc
  | get key' ppData =>
      cases hc
      exact map_fault _ (withMoudle_fault _ hid hhead (getNode_fault hfree hlook (some ppData)))
  | del key' =>
      cases hc
      exact map_fault _ (withMoudle_fault _ hid hhead
        (delNode_fault hfree hcalc hcompare hlook))
  | add data ppNodeData want =>
      cases hc
      exact map_fault _ (withMoudle_fault _ hid hhead
        (addNode2_fault hfree hadd hlook data ppNodeData want))

theorem find_of_hits (hid : enMoudleId < w.uiMaxVhashModules)
    (hhead : w.astVHashHead enMoudleId.toNat = some h) (hhits : Hits h key a) :
    find enMoudleId w key = .ok (some (h.pData a)) :=
  find_iff_hits.mpr ⟨hid, h, a, hhead, hhits, rfl⟩

theorem find_of_miss (hid : enMoudleId < w.uiMaxVhashModules)
    (hhead : w.astVHashHead enMoudleId.toNat = some h) (hfree : h.locked = false) {b : Nat}
    {last : Option Nat}
    (hlook : (lookup key).run {h with locked := true, log := h.log ++ [.lock]} =
      .ok ((b, .miss last), {h with locked := true, log := h.log ++ [.lock]})) :
    find enMoudleId w key = .ok none := by
  have hrun := withMoudle_run (vhashErr, some none) hid hhead
    (getNode_of_miss hfree hlook (some none))
  simp [find, vhashGetNode, hrun]

end Tables

section Stranded

variable [DecidableEq K] {f : KeyedMoudle K N D} {enMoudleId : UInt32} {w w' : VHashWorld K N D}
variable {h h' : VHashHead K N D} {bs : Nat → List Nat} {t : f.Table} {newKey key : K} {d : D}
variable {front : List (Stored D)} {e : Stored D}

omit [DecidableEq K] in
/-- The mutex is free in between, and taken at the beginning of the calls. -/
theorem Overwritten.locked {a : Nat} (ho : Overwritten h h' a d) :
    Overwritten h {h' with locked := true, log := h'.log ++ [.lock]} a d :=
  ⟨ho.moudle, ho.live, ho.data, ho.self, ho.others⟩

omit [DecidableEq K] in
theorem Keeps.cut (ht : Keeps f h bs t)
    (hbucket : t.inBucket f.bucket (f.bucket newKey) = front ++ [e]) :
    bs (f.bucket newKey) = front.map Prod.fst ++ [e.1] := by
  rw [ht.bucket_eq, hbucket, List.map_append]
  rfl

theorem lookup_front {e' : Stored D} (he' : e' ∈ front)
    (hbucket : t.inBucket f.bucket (f.bucket newKey) = front ++ [e]) :
    t.lookup (f.keyOf e') = some e' := by
  have hmem : e' ∈ t.inBucket f.bucket (f.bucket newKey) := by simp [hbucket, he']
  exact t.lookup_eq_some_iff.mpr ⟨(Keyed.mem_inBucket.mp hmem).1, rfl⟩

/-- A key that no entry before the last has is not found before the last. -/
theorem Keeps.scan_front (ht : Keeps f h bs t)
    (hbucket : t.inBucket f.bucket (f.bucket newKey) = front ++ [e])
    (hfront : ∀ e' ∈ front, f.keyOf e' ≠ key) :
    ∃ last, scan (f.matching key h.pData) none (front.map Prod.fst) = .miss last := by
  apply scan_none
  intro x hx
  obtain ⟨e', he', rfl⟩ := List.mem_map.mp hx
  rw [← Bool.not_eq_true, matching_iff, (ht.placed (lookup_front he' hbucket)).2]
  exact hfront e' he'

/-- The new key is found in the node that was overwritten. -/
theorem Overwritten.hits_new (ho : Overwritten h h' e.1 d) (hw : Formed f enMoudleId w h bs)
    (ht : Keeps f h bs t) (hfree : h'.locked = false)
    (hbucket : t.inBucket f.bucket (f.bucket newKey) = front ++ [e])
    (hnew : t.lookup newKey = none) (hd : f.storedKey d = newKey) :
    Hits h' newKey e.1 ∧ h'.pData e.1 = d := by
  have hl := hw.chains.toLists
  have hcut := ht.cut hbucket
  have hdata : h'.pData e.1 = d := by rw [ho.data, Function.update_self]
  have hfront : ∀ e' ∈ front, f.keyOf e' ≠ newKey := by
    rintro e' he' rfl
    rw [lookup_front he' hbucket] at hnew
    cases hnew
  obtain ⟨last, hscan⟩ := ht.scan_front hbucket hfront
  have hmatch : f.matching newKey h'.pData e.1 = true := by rw [matching_iff, hdata, hd]
  have hlook := ho.locked.lookup_here hl (.of_eq hw.moudle) rfl hcut
  have hlive : e.1 ∈ h'.live := by
    rw [ho.live]
    exact hl.live_of_mem (b := f.bucket newKey) (by simp [hcut])
  refine ⟨⟨hfree, hlive, f.bucket newKey, ?_⟩, hdata⟩
  rw [hlook, hscan]
  simp only [Walk.andThen, hmatch, if_true]
  rfl

/-- A walk for a stranded key does not end. -/
theorem Overwritten.lookup_stranded (ho : Overwritten h h' e.1 d)
    (hw : Formed f enMoudleId w h bs) (ht : Keeps f h bs t)
    (hbucket : t.inBucket f.bucket (f.bucket newKey) = front ++ [e])
    (hd : f.storedKey d = newKey) (hstranded : f.Stranded front newKey key) :
    (lookup key).run {h' with locked := true, log := h'.log ++ [.lock]} = .error .endless := by
  obtain ⟨hsame, hne, hfront⟩ := hstranded
  obtain ⟨last, hscan⟩ := ht.scan_front hbucket hfront
  have hcut : bs (f.bucket key) = front.map Prod.fst ++ [e.1] := by
    rw [hsame]
    exact ht.cut hbucket
  have hmatch : f.matching key h'.pData e.1 = false := by
    rw [← Bool.not_eq_true, matching_iff, ho.data, Function.update_self, hd]
    exact hne.symm
  rw [ho.locked.lookup_here hw.chains.toLists (.of_eq hw.moudle) rfl hcut, hscan]
  simp only [Walk.andThen, hmatch, Bool.false_eq_true, if_false]
  rfl

omit [DecidableEq K] in
theorem Overwritten.find_hit (ho : Overwritten h h' e.1 d) (hw : Formed f enMoudleId w h bs)
    (hfree : h'.locked = false) {x b c : Nat} (hplace : x ∈ bs c) (hx : x ≠ e.1)
    (hlook : (lookup key).run {h' with locked := true, log := h'.log ++ [.lock]} =
      .ok ((b, .hit x), {h' with locked := true, log := h'.log ++ [.lock]})) :
    find enMoudleId (w.withHead enMoudleId h') key = .ok (some (h.pData x)) := by
  have hlive : x ∈ h'.live := by
    rw [ho.live]
    exact hw.chains.live_of_mem hplace
  have hfind := find_of_hits (w := w.withHead enMoudleId h') hw.known (withHead_head w h')
    ⟨hfree, hlive, b, hlook⟩
  rwa [ho.data, Function.update_of_ne hx] at hfind

/-- All other keys are found as before. -/
theorem Overwritten.find_kept (ho : Overwritten h h' e.1 d) (hw : Formed f enMoudleId w h bs)
    (ht : Keeps f h bs t) (hfree : h'.locked = false)
    (hbucket : t.inBucket f.bucket (f.bucket newKey) = front ++ [e]) (hne : key ≠ newKey)
    (hkept : ¬ f.Stranded front newKey key) :
    find enMoudleId (w.withHead enMoudleId h') key = .ok ((t.lookup key).map Prod.snd) := by
  have hl := hw.chains.toLists
  have hcut := ht.cut hbucket
  have hhead : (w.withHead enMoudleId h').astVHashHead enMoudleId.toNat = some h' :=
    withHead_head w h'
  by_cases hsame : f.bucket key = f.bucket newKey
  · obtain ⟨e', he', rfl⟩ : ∃ e' ∈ front, f.keyOf e' = key := by
      by_contra hnone
      push Not at hnone
      exact hkept ⟨hsame, hne, hnone⟩
    have hstored := lookup_front he' hbucket
    obtain ⟨hplace, hdata⟩ := ht.placed hstored
    have hne' : e'.1 ≠ e.1 := by
      intro heq
      have hnodup := hl.nodup (f.bucket newKey)
      rw [hcut] at hnodup
      exact (List.disjoint_of_nodup_append hnodup) (List.mem_map_of_mem he') (by simp [heq])
    have hscan : scan (f.matching (f.keyOf e') h.pData) none (front.map Prod.fst) = .hit e'.1 := by
      apply scan_only (List.mem_map_of_mem he')
      · rw [matching_iff, hdata]
        rfl
      · intro x hx hmatch
        exact ht.only hstored (b := f.bucket newKey) (by simp [hcut, hx]) (matching_iff.mp hmatch)
    have hcut' : bs (f.bucket (f.keyOf e')) = front.map Prod.fst ++ [e.1] := by rw [hsame, hcut]
    have hlook := ho.locked.lookup_here hl (.of_eq hw.moudle) rfl hcut'
    rw [hscan] at hlook
    rw [hstored, ho.find_hit hw hfree hplace hne' hlook, hdata]
    rfl
  · have hlook := ho.locked.lookup_elsewhere hl (.of_eq hw.moudle (f := f.toFullMoudle)) rfl
      (by rw [hcut]; simp) hsame
    cases hstored : t.lookup key with
    | some e' =>
        obtain ⟨hplace, hdata⟩ := ht.placed hstored
        rw [ht.scan_hit hstored] at hlook
        have hne' : e'.1 ≠ e.1 := by
          intro heq
          exact hsame (hl.apart _ _ e.1 (heq ▸ hplace) (by rw [hcut]; simp))
        rw [ho.find_hit hw hfree hplace hne' hlook, hdata]
        rfl
    | none =>
        obtain ⟨last, hscan⟩ := ht.scan_miss hstored
        rw [hscan] at hlook
        exact find_of_miss hw.known hhead hfree hlook

end Stranded

section Runs

variable [Zero D] [DecidableEq K]

/-- `VHash_Add_Node` with a new key whose bucket is not empty answers
`__VHASH_OK`: the node that came last has the new data and is linked to itself.
In the table it leaves, only the new key and the entries before can be found of
that bucket: a call that looks for another key does not come back, and keeps
the mutex. -/
theorem addNode_strands (f : KeyedMoudle K N D) (uiMaxVhashModules enMoudleId : UInt32)
    (cs : List (TableCall K N)) {replies : List VHashReply} {t : f.Table} (data : N)
    (front : List (Stored D)) {e : Stored D}
    (hmap : (cs.mapM (f.slotStep (enMoudleId < uiMaxVhashModules))).run none =
      some (replies, some t))
    (hnew : t.lookup (f.newKey data) = none)
    (hbucket : t.inBucket f.bucket (f.bucket (f.newKey data)) = front ++ [e]) :
    ∃ w w', (cs.mapM (fun c => vhashCall (c.call f enMoudleId))).run
        (vhashInit uiMaxVhashModules) = .ok (replies, w) ∧
      (vhashAddNode enMoudleId (some (f.newKey data)) (some data)).run w = .ok (vhashOk, w') ∧
      (∃ h h', w.astVHashHead enMoudleId.toNat = some h ∧
        w'.astVHashHead enMoudleId.toNat = some h' ∧
        Overwritten h h' e.1 (f.cpy 0 data f.uiDataLen).2) ∧
      find enMoudleId w' (f.newKey data) = .ok (some (f.cpy 0 data f.uiDataLen).2) ∧
      (∀ key, key ≠ f.newKey data → ¬ f.Stranded front (f.newKey data) key →
        find enMoudleId w' key = .ok ((t.lookup key).map Prod.snd)) ∧
      ∀ (c : TableCall K N) key, c.searches f = some key →
        f.Stranded front (f.newKey data) key →
          (vhashCall (c.call f enMoudleId)).run w' = .error .endless := by
  obtain ⟨w, hrun, h, bs, hw, ht⟩ := tableCalls_run f uiMaxVhashModules enMoudleId cs hmap
  have hl := hw.chains.toLists
  have hcut := ht.cut hbucket
  have hd : f.storedKey (f.cpy 0 data f.uiDataLen).2 = f.newKey data := f.cpy_key _ _
  have hscan : scan (f.matching (f.newKey data) h.pData) none (bs (f.bucket (f.newKey data))) =
      .miss (some e.1) := by
    obtain ⟨last, hscan⟩ := ht.scan_miss hnew
    rw [hscan, (scan_miss hscan).1, hcut, List.getLast?_concat]
    rfl
  obtain ⟨h', hadd, hfree, ho⟩ :=
    addNode_overwritten hl (.of_eq hw.moudle) hw.free data hcut hscan
  have hhead : (w.withHead enMoudleId h').astVHashHead enMoudleId.toNat = some h' :=
    withHead_head w h'
  refine ⟨w, w.withHead enMoudleId h', hrun, hw.call _ hadd, ⟨h, h', hw.head, hhead, ho⟩,
    ?_, ?_, ?_⟩
  · obtain ⟨hhits, hdata⟩ := ho.hits_new hw ht hfree hbucket hnew hd
    rw [find_of_hits (w := w.withHead enMoudleId h') hw.known hhead hhits, hdata]
  · intro key hne hkept
    exact ho.find_kept hw ht hfree hbucket hne hkept
  · intro c key hc hstranded
    exact searches_fault (w := w.withHead enMoudleId h') hw.known hhead
      (ho.moudle.trans hw.moudle) hfree (ho.lookup_stranded hw ht hbucket hd hstranded) hc

set_option maxRecDepth 20000 in
/-- A connection is lost to the other direction, and asking for it hangs. -/
theorem addNode_strands_collision :
    ∃ w w', ([.create true, .add thereKey none (some 7)].mapM
        (fun c : TableCall PortItem PortItem => vhashCall (c.call portKeyed 0))).run
          (vhashInit 1) = .ok ([.code vhashOk, .node (vhashOk, none)], w) ∧
      (vhashAddNode 0 (some backKey) (some backKey)).run w = .ok (vhashOk, w') ∧
      (vhashCall ((TableCall.get thereKey none).call portKeyed 0)).run w' =
        .error .endless := by
  obtain ⟨w, w', hrun, hadd, -, -, -, hlost⟩ := addNode_strands portKeyed 1 0
    [.create true, .add thereKey none (some 7)] backKey [] rfl rfl rfl
  have hstranded : portKeyed.Stranded [] (portKeyed.newKey backKey) thereKey :=
    ⟨by decide +kernel, by decide, by simp⟩
  exact ⟨w, w', hrun, hadd, hlost (.get thereKey none) thereKey rfl hstranded⟩

end Runs

end RedisTrace
