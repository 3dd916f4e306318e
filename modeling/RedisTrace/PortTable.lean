import Mathlib.Data.Set.Card
import RedisTrace.PortVHash

/-!
The connection table as a finite map. A cell is one stored item: the address
`malloc` gave it and its `sec`, `u_sec` and `cmd`; the map takes a 4-tuple to
its cell. `PortTable w m` says that the table of `w` is well formed and holds
exactly the cells of `m`. Each function of `port_vhash.c` is then described by
what it does to the map.
-/

namespace RedisTrace

open CircularList Run

@[ext] structure Cell where
  ptr : Nat
  sec : UInt32
  uSec : UInt32
  cmd : CmdChars
  deriving DecidableEq, Repr

abbrev PortMap := PortItem → Option Cell

def Cell.item (c : Cell) (key : PortItem) : PortVHashItem :=
  ⟨c.sec, c.uSec, c.cmd, key⟩

/-- The item a new node starts with. -/
def Cell.zeroed (a : Nat) : Cell := ⟨a, 0, 0, Vector.replicate 32 0⟩

/-- No item of the map lives at this address. -/
def PortMap.Fresh (m : PortMap) (a : Nat) : Prop := ∀ key c, m key = some c → c.ptr ≠ a

def PortMap.empty : PortMap := fun _ => none

/-- The keys of the map as a set. -/
def PortMap.keys (m : PortMap) : Set PortItem := {key | (m key).isSome}

/-- The module behind the connection table: well-formed chains, every node in
the bucket of its own key, and the cells of `m` exactly the live nodes. -/
structure PortRep (h : PortHead) (bs : Nat → List Nat) (m : PortMap) : Prop where
  moudle : h.moudle = portMoudle
  free : h.locked = false
  chains : Chains h bs
  placed : ∀ b a, a ∈ bs b → portFull.bucket (h.pData a).stPortItem = b
  cells : ∀ key c, m key = some c ↔ c.ptr ∈ h.live ∧ h.pData c.ptr = c.item key

structure PortTable (w : PortWorld) (m : PortMap) : Prop where
  registered : enPort < w.uiMaxVhashModules
  table : ∃ h bs, w.astVHashHead enPort.toNat = some h ∧ PortRep h bs m

/-- The keys that fall into bucket `b`. -/
def inBucket (b : Nat) (keys : List PortItem) : List PortItem :=
  keys.filter (fun key => portFull.bucket key = b)

/-- The buckets hold the given keys, each its own in the given order. -/
def InOrder (h : PortHead) (bs : Nat → List Nat) (keys : List PortItem) : Prop :=
  ∀ b, (bs b).map (fun a => (h.pData a).stPortItem) = inBucket b keys

/-- A table of the map whose keys have come in the given order. -/
structure Arranged (w : PortWorld) (m : PortMap) (keys : List PortItem) : Prop where
  registered : enPort < w.uiMaxVhashModules
  table : ∃ h bs, w.astVHashHead enPort.toNat = some h ∧ PortRep h bs m ∧ InOrder h bs keys

section Rep

variable {h : PortHead} {bs : Nat → List Nat} {m : PortMap}

theorem PortRep.cell_of_live (hr : PortRep h bs m) {a : Nat} (ha : a ∈ h.live) :
    m (h.pData a).stPortItem =
      some ⟨a, (h.pData a).sec, (h.pData a).uSec, (h.pData a).cmd⟩ :=
  (hr.cells _ _).mpr ⟨ha, rfl⟩

theorem PortRep.live_of_cell (hr : PortRep h bs m) {key : PortItem} {c : Cell}
    (hc : m key = some c) : c.ptr ∈ h.live := ((hr.cells key c).mp hc).1

/-- Two keys never share a node. -/
theorem PortRep.ptr_inj (hr : PortRep h bs m) {key key' : PortItem} {c c' : Cell}
    (hc : m key = some c) (hc' : m key' = some c') (hptr : c.ptr = c'.ptr) :
    key = key' := by
  have h₁ := ((hr.cells key c).mp hc).2
  have h₂ := ((hr.cells key' c').mp hc').2
  rw [hptr, h₂] at h₁
  exact (congrArg PortVHashItem.stPortItem h₁).symm

theorem PortRep.scan_present (hr : PortRep h bs m) {key : PortItem} {c : Cell}
    (hc : m key = some c) :
    scan (portFull.matching key h.pData) none (bs (portFull.bucket key)) =
      .hit c.ptr := by
  obtain ⟨hlive, hdata⟩ := (hr.cells key c).mp hc
  have hmatch : portFull.matching key h.pData c.ptr = true := by
    have hkey := (portVHashCompare_ok_iff key (h.pData c.ptr)).mpr (by rw [hdata]; rfl)
    exact decide_eq_true hkey
  obtain ⟨b, hb⟩ := (hr.chains.live c.ptr).mp hlive
  have hbucket : b = portFull.bucket key := by
    rw [← hr.placed b c.ptr hb, hdata]
    rfl
  subst hbucket
  cases hscan : scan (portFull.matching key h.pData) none (bs (portFull.bucket key)) with
  | miss last =>
      have hnone := (scan_miss hscan).2 c.ptr hb
      rw [hmatch] at hnone
      cases hnone
  | hit a =>
      obtain ⟨ha, left, right, hcut, _⟩ := scan_hit hscan
      have hkey : (h.pData a).stPortItem = key :=
        (portVHashCompare_ok_iff key (h.pData a)).mp (of_decide_eq_true ha)
      have hcell := hr.cell_of_live (hr.chains.live_of_mem (b := portFull.bucket key)
        (by simp [hcut]) : a ∈ h.live)
      rw [hkey, hc] at hcell
      rw [Option.some.inj hcell]

theorem PortRep.scan_absent (hr : PortRep h bs m) {key : PortItem}
    (hnone : m key = none) :
    ∃ last, scan (portFull.matching key h.pData) none (bs (portFull.bucket key)) =
      .miss last := by
  cases hscan : scan (portFull.matching key h.pData) none (bs (portFull.bucket key)) with
  | miss last => exact ⟨last, rfl⟩
  | hit a =>
      obtain ⟨ha, left, right, hcut, _⟩ := scan_hit hscan
      have hkey : (h.pData a).stPortItem = key :=
        (portVHashCompare_ok_iff key (h.pData a)).mp (of_decide_eq_true ha)
      have hcell := hr.cell_of_live (hr.chains.live_of_mem (b := portFull.bucket key)
        (by simp [hcut]) : a ∈ h.live)
      rw [hkey, hnone] at hcell
      cases hcell

theorem PortRep.released (hr : PortRep h bs m) (events : List Event) :
    PortRep (h.released events) bs m := by
  exact ⟨hr.moudle, rfl, hr.chains.released events, hr.placed, hr.cells⟩

/-- Rewriting the non-key fields of a stored item. -/
theorem PortRep.write (hr : PortRep h bs m) {key : PortItem} {c c₁ : Cell}
    (hc : m key = some c) (hptr₁ : c₁.ptr = c.ptr) :
    PortRep {h with pData := Function.update h.pData c.ptr (c₁.item key)} bs
      (Function.update m key (some c₁)) := by
  obtain ⟨hlive, hdata⟩ := (hr.cells key c).mp hc
  refine ⟨hr.moudle, hr.free, hr.chains.rewritten _, ?_, ?_⟩
  · intro b a ha
    change portFull.bucket (Function.update h.pData c.ptr (c₁.item key) a).stPortItem = b
    have hplaced := hr.placed b a ha
    rcases eq_or_ne a c.ptr with rfl | hac
    · rw [hdata] at hplaced
      rw [Function.update_self]
      exact hplaced
    · rwa [Function.update_of_ne hac]
  · intro key' c'
    change Function.update m key (some c₁) key' = some c' ↔
      c'.ptr ∈ h.live ∧ Function.update h.pData c.ptr (c₁.item key) c'.ptr = c'.item key'
    rcases eq_or_ne c'.ptr c.ptr with hptr | hptr
    · rw [hptr, Function.update_self]
      rcases eq_or_ne key' key with rfl | hkey
      · rw [Function.update_self]
        constructor
        · intro heq
          rw [Option.some.inj heq]
          exact ⟨hlive, rfl⟩
        · rintro ⟨_, hitem⟩
          obtain ⟨hsec, huSec, hcmd, _⟩ := PortVHashItem.mk.inj hitem
          exact congrArg some (Cell.ext (hptr₁.trans hptr.symm) hsec huSec hcmd)
      · rw [Function.update_of_ne hkey]
        constructor
        · intro hcell
          exact absurd (hr.ptr_inj hcell hc hptr) hkey
        · rintro ⟨_, hitem⟩
          exact absurd (congrArg PortVHashItem.stPortItem hitem).symm hkey
    · rw [Function.update_of_ne hptr, ← hr.cells key' c']
      rcases eq_or_ne key' key with rfl | hkey
      · rw [Function.update_self, hc]
        constructor
        · intro heq
          exact absurd ((congrArg Cell.ptr (Option.some.inj heq)).symm.trans hptr₁) hptr
        · intro heq
          exact absurd (congrArg Cell.ptr (Option.some.inj heq)).symm hptr
      · rw [Function.update_of_ne hkey]

/-- A fresh node at the end of the bucket of a key that had none. -/
theorem PortRep.inserted (hr : PortRep h bs m) {h' : PortHead} {key : PortItem} {a : Nat}
    (hnone : m key = none) (hfresh : a ∉ h.live)
    (hchains : Chains h' (Function.update bs (portFull.bucket key)
      (bs (portFull.bucket key) ++ [a])))
    (hmoudle : h'.moudle = h.moudle) (hfree : h'.locked = false)
    (hlive : h'.live = insert a h.live)
    (hdata : h'.pData = Function.update h.pData a
      ((Cell.zeroed a).item key)) :
    PortRep h' (Function.update bs (portFull.bucket key) (bs (portFull.bucket key) ++ [a]))
      (Function.update m key (some (Cell.zeroed a))) := by
  have hold : ∀ b x, x ∈ bs b → x ≠ a := by
    rintro b x hx rfl
    exact hfresh (hr.chains.live_of_mem hx)
  refine ⟨hmoudle.trans hr.moudle, hfree, hchains, ?_, ?_⟩
  · intro b x hx
    rw [hdata]
    have hcases : (b = portFull.bucket key ∧ x = a) ∨ x ∈ bs b := by
      by_cases hb : b = portFull.bucket key
      · subst hb
        rw [Function.update_self] at hx
        rcases List.mem_append.mp hx with hx | hx
        · exact Or.inr hx
        · exact Or.inl ⟨rfl, List.mem_singleton.mp hx⟩
      · rw [Function.update_of_ne hb] at hx
        exact Or.inr hx
    rcases hcases with ⟨rfl, rfl⟩ | hx
    · rw [Function.update_self]
      rfl
    · rw [Function.update_of_ne (hold b x hx)]
      exact hr.placed b x hx
  · intro key' c'
    rw [hlive, hdata]
    rcases eq_or_ne c'.ptr a with hptr | hptr
    · rw [hptr, Function.update_self]
      rcases eq_or_ne key' key with rfl | hkey
      · rw [Function.update_self]
        constructor
        · intro heq
          rw [← Option.some.inj heq]
          exact ⟨Finset.mem_insert_self _ _, rfl⟩
        · rintro ⟨_, hitem⟩
          obtain ⟨hsec, huSec, hcmd, _⟩ := PortVHashItem.mk.inj hitem
          exact congrArg some (Cell.ext hptr.symm hsec huSec hcmd)
      · rw [Function.update_of_ne hkey]
        constructor
        · intro hcell
          exact absurd (hptr ▸ hr.live_of_cell hcell) hfresh
        · rintro ⟨_, hitem⟩
          exact absurd (congrArg PortVHashItem.stPortItem hitem).symm hkey
    · have hmem : c'.ptr ∈ insert a h.live ↔ c'.ptr ∈ h.live := by
        simp [hptr]
      rw [Function.update_of_ne hptr, hmem, ← hr.cells key' c']
      rcases eq_or_ne key' key with rfl | hkey
      · rw [Function.update_self, hnone]
        constructor
        · intro heq
          exact absurd (congrArg Cell.ptr (Option.some.inj heq)).symm hptr
        · intro heq
          cases heq
      · rw [Function.update_of_ne hkey]

/-- The node of a key taken out of its bucket. -/
theorem PortRep.erased (hr : PortRep h bs m) {h' : PortHead} {key : PortItem} {c : Cell}
    {left right : List Nat} (hc : m key = some c)
    (hcut : bs (portFull.bucket key) = left ++ c.ptr :: right)
    (hchains : Chains h' (Function.update bs (portFull.bucket key) (left ++ right)))
    (hmoudle : h'.moudle = h.moudle) (hfree : h'.locked = false)
    (hlive : h'.live = h.live.erase c.ptr) (hdata : h'.pData = h.pData) :
    PortRep h' (Function.update bs (portFull.bucket key) (left ++ right))
      (Function.update m key none) := by
  refine ⟨hmoudle.trans hr.moudle, hfree, hchains, ?_, ?_⟩
  · intro b x hx
    rw [hdata]
    apply hr.placed
    by_cases hb : b = portFull.bucket key
    · subst hb
      rw [Function.update_self] at hx
      rw [hcut]
      rcases List.mem_append.mp hx with hx | hx <;> simp [hx]
    · rwa [Function.update_of_ne hb] at hx
  · intro key' c'
    rw [hlive, hdata, Finset.mem_erase, and_assoc, ← hr.cells key' c']
    rcases eq_or_ne key' key with rfl | hkey
    · rw [Function.update_self, hc]
      constructor
      · intro heq
        cases heq
      · rintro ⟨hptr, heq⟩
        exact absurd (congrArg Cell.ptr (Option.some.inj heq)).symm hptr
    · rw [Function.update_of_ne hkey]
      constructor
      · intro hcell
        exact ⟨fun hptr => hkey (hr.ptr_inj hcell hc hptr), hcell⟩
      · rintro ⟨_, hcell⟩
        exact hcell

theorem PortRep.clear {h' : PortHead} (hchains : Chains h' (fun _ => []))
    (hmoudle : h'.moudle = portMoudle) (hfree : h'.locked = false) :
    PortRep h' (fun _ => []) PortMap.empty := by
  refine ⟨hmoudle, hfree, hchains, by simp, ?_⟩
  intro key c
  have hdead : c.ptr ∉ h'.live := by
    rw [hchains.live c.ptr]
    simp
  simp [PortMap.empty, hdead]

section Order

variable {h' : PortHead} {keys : List PortItem} {key : PortItem} {a : Nat}

/-- Of one bucket among others only its own part remains. -/
theorem flatMap_single {α : Type} (f : Nat → List α) (b : Nat) (is : List Nat)
    (hnodup : is.Nodup) :
    is.flatMap (fun c => if c = b then f c else []) = if b ∈ is then f b else [] := by
  induction is with
  | nil => rfl
  | cons i is ih =>
      obtain ⟨hi, hrest⟩ := List.nodup_cons.mp hnodup
      rw [List.flatMap_cons, ih hrest]
      rcases eq_or_ne i b with rfl | hib
      · simp [hi]
      · simp [hib, hib.symm]

/-- Some order: bucket by bucket. -/
theorem PortRep.inOrder (hr : PortRep h bs m) : ∃ keys, InOrder h bs keys := by
  refine ⟨(List.range h.bucketCount).flatMap
    (fun c => (bs c).map (fun a => (h.pData a).stPortItem)), ?_⟩
  intro b
  have hkept : ∀ c, inBucket b ((bs c).map (fun a => (h.pData a).stPortItem)) =
      if c = b then (bs c).map (fun a => (h.pData a).stPortItem) else [] := by
    intro c
    split
    · next hcb =>
        apply List.filter_eq_self.mpr
        intro key hkey
        obtain ⟨a, ha, rfl⟩ := List.mem_map.mp hkey
        rw [decide_eq_true_eq, ← hcb]
        exact hr.placed c a ha
    · next hcb =>
        apply List.filter_eq_nil_iff.mpr
        intro key hkey
        obtain ⟨a, ha, rfl⟩ := List.mem_map.mp hkey
        rw [decide_eq_true_eq, hr.placed c a ha]
        exact hcb
  rw [inBucket, List.filter_flatMap]
  simp only [inBucket] at hkept
  simp only [hkept]
  rw [flatMap_single _ b _ List.nodup_range]
  split
  · rfl
  · next hb =>
      rw [List.mem_range] at hb
      rw [hr.chains.empty b (by omega), List.map_nil]

/-- The order does not depend on anything but the keys. -/
theorem InOrder.congr (ho : InOrder h bs keys)
    (hsame : ∀ b a, a ∈ bs b → (h'.pData a).stPortItem = (h.pData a).stPortItem) :
    InOrder h' bs keys := by
  intro b
  rw [← ho b]
  exact List.map_congr_left (fun a ha => hsame b a ha)

theorem inBucket_append (b : Nat) (keys keys' : List PortItem) :
    inBucket b (keys ++ keys') = inBucket b keys ++ inBucket b keys' := List.filter_append ..

/-- A new node at the end of its bucket comes last. -/
theorem InOrder.inserted (ho : InOrder h bs keys) (hr : PortRep h bs m) (hfresh : a ∉ h.live)
    (hdata : h'.pData = Function.update h.pData a ((Cell.zeroed a).item key)) :
    InOrder h' (Function.update bs (portFull.bucket key) (bs (portFull.bucket key) ++ [a]))
      (keys ++ [key]) := by
  have hold : ∀ b, (bs b).map (fun x => (h'.pData x).stPortItem) = inBucket b keys := by
    intro b
    rw [← ho b]
    apply List.map_congr_left
    intro x hx
    have hxa : x ≠ a := by
      rintro rfl
      exact hfresh (hr.chains.live_of_mem hx)
    rw [hdata, Function.update_of_ne hxa]
  have hnew : (h'.pData a).stPortItem = key := by
    rw [hdata, Function.update_self]
    rfl
  intro b
  rw [inBucket_append]
  rcases eq_or_ne b (portFull.bucket key) with rfl | hb
  · rw [Function.update_self, List.map_append, hold, List.map_singleton, hnew]
    simp [inBucket]
  · rw [Function.update_of_ne hb, hold]
    simp [inBucket, hb.symm]

/-- Taking a key's node out leaves the others in their order. -/
theorem InOrder.erased (ho : InOrder h bs keys) (hr : PortRep h bs m) {c : Cell}
    {left right : List Nat} (hc : m key = some c)
    (hcut : bs (portFull.bucket key) = left ++ c.ptr :: right) (hdata : h'.pData = h.pData) :
    InOrder h' (Function.update bs (portFull.bucket key) (left ++ right))
      (keys.filter (· ≠ key)) := by
  have hkey : (h.pData c.ptr).stPortItem = key := by
    rw [((hr.cells key c).mp hc).2]
    rfl
  have hnodup := hr.chains.nodup (portFull.bucket key)
  rw [hcut] at hnodup
  have hothers : ∀ x ∈ left ++ right, (h.pData x).stPortItem ≠ key := by
    intro x hx heq
    have hlive : x ∈ h.live := by
      apply hr.chains.live_of_mem (b := portFull.bucket key)
      rw [hcut]
      rcases List.mem_append.mp hx with hx | hx <;> simp [hx]
    have hcell := hr.cell_of_live hlive
    rw [heq, hc] at hcell
    have hptr : c.ptr = x := congrArg Cell.ptr (Option.some.inj hcell)
    exact (List.nodup_middle.mp hnodup).notMem (hptr ▸ hx)
  intro b
  have hfilter : inBucket b (keys.filter (· ≠ key)) =
      (inBucket b keys).filter (· ≠ key) := by
    rw [inBucket, inBucket, List.filter_filter, List.filter_filter]
    congr 1
    funext x
    exact Bool.and_comm _ _
  rw [hfilter, ← ho b, hdata]
  rcases eq_or_ne b (portFull.bucket key) with rfl | hb
  · have hall : ((left ++ right).map (fun x => (h.pData x).stPortItem)).filter (· ≠ key) =
        (left ++ right).map (fun x => (h.pData x).stPortItem) := by
      apply List.filter_eq_self.mpr
      intro k hk
      obtain ⟨x, hx, rfl⟩ := List.mem_map.mp hk
      exact decide_eq_true (hothers x hx)
    rw [Function.update_self, hcut, ← hall]
    simp [hkey]
  · rw [Function.update_of_ne hb]
    symm
    apply List.filter_eq_self.mpr
    intro k hk
    obtain ⟨x, hx, rfl⟩ := List.mem_map.mp hk
    rw [decide_eq_true_eq]
    intro heq
    exact hb (by rw [← heq, hr.placed b x hx])

end Order

end Rep

section Calls

variable {w : PortWorld} {m : PortMap} {keys : List PortItem} {key : PortItem} {c : Cell}

/-- A table represents one map only. -/
theorem PortTable.unique {m' : PortMap} (ht : PortTable w m) (ht' : PortTable w m') :
    m = m' := by
  obtain ⟨_, h, bs, hhead, hr⟩ := ht
  obtain ⟨_, h', bs', hhead', hr'⟩ := ht'
  rw [hhead] at hhead'
  cases hhead'
  funext key
  apply Option.ext
  intro c
  rw [hr.cells key c, hr'.cells key c]

theorem Arranged.toTable (ha : Arranged w m keys) : PortTable w m := by
  obtain ⟨hid, h, bs, hhead, hr, _⟩ := ha
  exact ⟨hid, h, bs, hhead, hr⟩

theorem PortTable.arranged (ht : PortTable w m) : ∃ keys, Arranged w m keys := by
  obtain ⟨hid, h, bs, hhead, hr⟩ := ht
  obtain ⟨keys, ho⟩ := hr.inOrder
  exact ⟨keys, hid, h, bs, hhead, hr, ho⟩

theorem Arranged.of_head (hid : enPort < w.uiMaxVhashModules) {h : PortHead}
    {bs : Nat → List Nat} (hr : PortRep h bs m) (ho : InOrder h bs keys) :
    Arranged {w with
      astVHashHead := Function.update w.astVHashHead enPort.toNat (some h)} m keys :=
  ⟨hid, h, bs, by simp, hr, ho⟩

/-- A call on the table that succeeds on its module and leaves a
representation of `m'`, with the keys in the order of `keys'`. -/
theorem Arranged.call (ha : Arranged w m keys) {α : Type} {error answer : α}
    {op : VHashM PortItem PortItem PortVHashItem α} {m' : PortMap} {keys' : List PortItem}
    (hop : ∀ h bs, PortRep h bs m → InOrder h bs keys →
      ∃ h' bs', op.run h = .ok (answer, h') ∧ PortRep h' bs' m' ∧ InOrder h' bs' keys') :
    ∃ w', (withMoudle enPort error op).run w = .ok (answer, w') ∧ Arranged w' m' keys' := by
  obtain ⟨hid, h, bs, hhead, hr, ho⟩ := ha
  obtain ⟨h', bs', hrun, hr', ho'⟩ := hop h bs hr ho
  exact ⟨_, withMoudle_run error hid hhead hrun, Arranged.of_head hid hr' ho'⟩

theorem portVHashFindStruct_present (ha : Arranged w m keys) (hc : m key = some c)
    (pp : NodePtr) :
    ∃ w', (portVHashFindStruct key (some pp)).run w =
      .ok ((vhashOk, some (some c.ptr)), w') ∧ Arranged w' m keys := by
  apply ha.call
  intro h bs hr ho
  exact ⟨_, bs, getNode_hit (f := portFull) hr.chains.toLists (.of_eq hr.moudle) hr.free (some pp)
    (hr.scan_present hc), hr.released [], ho⟩

theorem portVHashFindStruct_absent (ha : Arranged w m keys) (hnone : m key = none)
    (pp : NodePtr) :
    ∃ w', (portVHashFindStruct key (some pp)).run w =
      .ok ((vhashNotFound, some pp), w') ∧ Arranged w' m keys := by
  apply ha.call
  intro h bs hr ho
  obtain ⟨last, hscan⟩ := hr.scan_absent hnone
  have hrun := getNode_miss (f := portFull) hr.chains.toLists (.of_eq hr.moudle) hr.free
    (some pp) hscan
  exact ⟨_, bs, hrun, hr.released [], ho⟩

/-- The three ways `VHash_Add_Node2` can end on the connection table. -/
private theorem addNode2_present (ha : Arranged w m keys) (hc : m key = some c)
    (want : Option Nat) :
    ∃ w', (vhashAddNode2 enPort (some key) (some key) (some none) want).run w =
      .ok ((vhashUpdateOk, some (some c.ptr)), w') ∧ Arranged w' m keys := by
  apply ha.call
  intro h bs hr ho
  have hsame : Function.update h.pData c.ptr (portFull.cpy (cleaned portFull.moudle
      (h.pData c.ptr)) key portFull.uiDataLen).2 = h.pData := by
    have hdata := ((hr.cells key c).mp hc).2
    have hcopy : (portFull.cpy (cleaned portFull.moudle (h.pData c.ptr)) key
        portFull.uiDataLen).2 = h.pData c.ptr := by
      rw [hdata]
      rfl
    rw [hcopy, Function.update_eq_self]
  have hrun := addNode2_updated (f := portFull) hr.chains.toLists (.of_eq hr.moudle) hr.free key
    (some none) want (hr.scan_present hc) rfl rfl
  rw [hsame] at hrun
  exact ⟨_, bs, hrun, hr.released _, ho⟩

private theorem addNode2_absent_none (ha : Arranged w m keys) (hnone : m key = none) :
    ∃ w', (vhashAddNode2 enPort (some key) (some key) (some none) none).run w =
      .ok ((vhashNotInnif, some none), w') ∧ Arranged w' m keys := by
  apply ha.call
  intro h bs hr ho
  obtain ⟨last, hscan⟩ := hr.scan_absent hnone
  have hrun := addNode2_no_memory (f := portFull) hr.chains.toLists (.of_eq hr.moudle) hr.free
    key (some none) hscan
  exact ⟨_, bs, hrun, hr.released [], ho⟩

private theorem addNode2_absent_some (ha : Arranged w m keys) (hnone : m key = none)
    (want : Nat) :
    ∃ w' a, (vhashAddNode2 enPort (some key) (some key) (some none) (some want)).run w =
        .ok ((vhashOk, some (some a)), w') ∧
      m.Fresh a ∧
      Arranged w' (Function.update m key (some (Cell.zeroed a))) (keys ++ [key]) := by
  obtain ⟨hid, h, bs, hhead, hr, ho⟩ := ha
  obtain ⟨last, hscan⟩ := hr.scan_absent hnone
  have hfresh := unused_not_mem h.live want
  obtain ⟨h', hrun, hchains, hmoudle, hfree, hlive, hdata, _⟩ :=
    addNode2_inserted (f := portFull) hr.chains (.of_eq hr.moudle) hr.free key (some none) want
      hscan rfl
  refine ⟨_, unused h.live want, withMoudle_run _ hid hhead hrun, ?_,
    Arranged.of_head hid (hr.inserted hnone hfresh hchains hmoudle hfree hlive hdata)
      (ho.inserted hr hfresh hdata)⟩
  rintro key' c' hc' heq
  exact hfresh (heq ▸ hr.live_of_cell hc')

theorem portVHashAdd_present (ha : Arranged w m keys) (hc : m key = some c)
    (pp : Option NodePtr) (want : Option Nat) :
    ∃ w', (portVHashAdd key pp want).run w =
      .ok ((vhashUpdateOk, pp.map (fun _ => some c.ptr)), w') ∧ Arranged w' m keys := by
  obtain ⟨w', hrun, ha'⟩ := addNode2_present ha hc want
  cases pp with
  | none => exact ⟨w', by simp [portVHashAdd, hrun], ha'⟩
  | some out => exact ⟨w', by simp [portVHashAdd, hrun], ha'⟩

theorem portVHashAdd_failed (ha : Arranged w m keys) (hnone : m key = none)
    (pp : Option NodePtr) :
    ∃ w', (portVHashAdd key pp none).run w =
      .ok ((vhashNotInnif, pp), w') ∧ Arranged w' m keys := by
  obtain ⟨w', hrun, ha'⟩ := addNode2_absent_none ha hnone
  exact ⟨w', by simp [portVHashAdd, hrun], ha'⟩

theorem portVHashAdd_inserted (ha : Arranged w m keys) (hnone : m key = none)
    (pp : Option NodePtr) (want : Nat) :
    ∃ w' a, (portVHashAdd key pp (some want)).run w =
        .ok ((vhashOk, pp.map (fun _ => some a)), w') ∧
      m.Fresh a ∧
      Arranged w' (Function.update m key (some (Cell.zeroed a))) (keys ++ [key]) := by
  obtain ⟨w', a, hrun, hfresh, ha'⟩ := addNode2_absent_some ha hnone want
  cases pp with
  | none => exact ⟨w', a, by simp [portVHashAdd, hrun], hfresh, ha'⟩
  | some out => exact ⟨w', a, by simp [portVHashAdd, hrun], hfresh, ha'⟩

theorem portVHashUpdate_present (ha : Arranged w m keys) (hc : m key = some c)
    (pp : Option NodePtr) (want : Option Nat) :
    ∃ w', (portVHashUpdate key pp want).run w =
      .ok ((vhashUpdateOk, pp.map (fun _ => some c.ptr)), w') ∧ Arranged w' m keys := by
  obtain ⟨w', hrun, ha'⟩ := addNode2_present ha hc want
  cases pp with
  | none => exact ⟨w', by simp [portVHashUpdate, hrun], ha'⟩
  | some out => exact ⟨w', by simp [portVHashUpdate, hrun], ha'⟩

theorem portVHashUpdate_failed (ha : Arranged w m keys) (hnone : m key = none)
    (pp : Option NodePtr) :
    ∃ w', (portVHashUpdate key pp none).run w =
      .ok ((vhashNotInnif, pp), w') ∧ Arranged w' m keys := by
  obtain ⟨w', hrun, ha'⟩ := addNode2_absent_none ha hnone
  exact ⟨w', by simp [portVHashUpdate, hrun], ha'⟩

/-- Unlike `PORT_VHash_Add`, `PORT_VHash_Update` does not hand out the item it
has just inserted. -/
theorem portVHashUpdate_inserted (ha : Arranged w m keys) (hnone : m key = none)
    (pp : Option NodePtr) (want : Nat) :
    ∃ w' a, (portVHashUpdate key pp (some want)).run w =
        .ok ((vhashOk, pp), w') ∧
      m.Fresh a ∧
      Arranged w' (Function.update m key (some (Cell.zeroed a))) (keys ++ [key]) := by
  obtain ⟨w', a, hrun, hfresh, ha'⟩ := addNode2_absent_some ha hnone want
  have hcode : vhashOk ≠ vhashUpdateOk := by decide
  exact ⟨w', a, by simp [portVHashUpdate, hrun, hcode], hfresh, ha'⟩

theorem portVHashDel_present (ha : Arranged w m keys) (hc : m key = some c) :
    ∃ w', (portVHashDel key).run w = .ok (vhashOk, w') ∧
      Arranged w' (Function.update m key none) (keys.filter (· ≠ key)) := by
  apply ha.call
  intro h bs hr ho
  have hscan := hr.scan_present hc
  obtain ⟨_, left, right, hcut, _⟩ := scan_hit hscan
  obtain ⟨h', hrun, hchains, hmoudle, hfree, hlive, hdata, _⟩ :=
    delNode_hit (f := portFull) hr.chains (.of_eq hr.moudle) hr.free hscan hcut
  have hsame : h'.pData = h.pData := hdata.trans (Function.update_eq_self c.ptr h.pData)
  exact ⟨h', _, hrun, hr.erased hc hcut hchains hmoudle hfree hlive hsame,
    ho.erased hr hc hcut hsame⟩

theorem portVHashDel_absent (ha : Arranged w m keys) (hnone : m key = none) :
    ∃ w', (portVHashDel key).run w = .ok (vhashNotFound, w') ∧ Arranged w' m keys := by
  apply ha.call
  intro h bs hr ho
  obtain ⟨last, hscan⟩ := hr.scan_absent hnone
  exact ⟨_, bs, delNode_miss (f := portFull) hr.chains.toLists (.of_eq hr.moudle) hr.free hscan,
    hr.released [], ho⟩

theorem portVHashCleanAll_run (ha : Arranged w m keys) :
    ∃ w', portVHashCleanAll.run w = .ok ((), w') ∧ Arranged w' PortMap.empty [] := by
  have hclean : ∃ w', (vhashCleanMoudle enPort).run w = .ok (vhashOk, w') ∧
      Arranged w' PortMap.empty [] := by
    apply ha.call
    intro h bs hr _
    obtain ⟨h', hrun, hchains, hmoudle, hfree, _⟩ := cleanMoudle_run hr.chains.toLists hr.free
    exact ⟨h', _, hrun, PortRep.clear hchains (hmoudle.trans hr.moudle) hfree, fun _ => rfl⟩
  obtain ⟨w', hrun, ha'⟩ := hclean
  exact ⟨w', by simp [portVHashCleanAll, hrun], ha'⟩

/-- The counter of the table is the number of keys, as far as 32 bits go. -/
theorem PortRep.uiTotal_eq {h : PortHead} {bs : Nat → List Nat} (hr : PortRep h bs m) :
    h.uiTotal = UInt32.ofNat (Set.ncard m.keys) := by
  have hkeys : m.keys = (h.live.image (fun a => (h.pData a).stPortItem) : Set PortItem) := by
    ext key
    simp only [PortMap.keys, Set.mem_ofPred_eq, Option.isSome_iff_exists, Finset.coe_image,
      Set.mem_image, Finset.mem_coe]
    constructor
    · rintro ⟨c, hc⟩
      obtain ⟨hlive, hdata⟩ := (hr.cells key c).mp hc
      exact ⟨c.ptr, hlive, by rw [hdata]; rfl⟩
    · rintro ⟨a, ha, rfl⟩
      exact ⟨_, hr.cell_of_live ha⟩
  have hinj : Set.InjOn (fun a => (h.pData a).stPortItem) h.live := by
    intro a ha b hb heq
    have hcell := hr.cell_of_live (a := a) ha
    have hkey : (h.pData a).stPortItem = (h.pData b).stPortItem := heq
    rw [hkey, hr.cell_of_live (a := b) hb] at hcell
    exact (congrArg Cell.ptr (Option.some.inj hcell)).symm
  rw [hkeys, Set.ncard_coe_finset, Finset.card_image_of_injOn hinj, hr.chains.card_live]
  exact hr.chains.total

theorem portVHashGetCount_run (ha : Arranged w m keys) (count : UInt32) :
    ∃ w', (portVHashGetCount (some count)).run w =
      .ok ((vhashOk, some (UInt32.ofNat (Set.ncard m.keys))), w') ∧ Arranged w' m keys := by
  apply ha.call
  intro h bs hr ho
  refine ⟨h, bs, ?_, hr, ho⟩
  rw [nodeTotal_run, hr.uiTotal_eq]

theorem readItem_run (ht : PortTable w m) (hc : m key = some c) :
    (readItem c.ptr).run w = .ok (c.item key, w) := by
  obtain ⟨hid, h, bs, hhead, hr⟩ := ht
  obtain ⟨hlive, hdata⟩ := (hr.cells key c).mp hc
  have hhead₀ : w.astVHashHead 0 = some h := hhead
  simp [readItem, StateT.run, hhead₀, hlive, hdata]

/-- A store to the non-key fields through the pointer of a stored item. -/
theorem writeItem_run (ha : Arranged w m keys) (hc : m key = some c)
    (change : PortVHashItem → PortVHashItem) (c' : Cell) (hptr : c'.ptr = c.ptr)
    (hchange : change (c.item key) = c'.item key) :
    ∃ w', (writeItem c.ptr change).run w = .ok ((), w') ∧
      Arranged w' (Function.update m key (some c')) keys := by
  obtain ⟨hid, h, bs, hhead, hr, ho⟩ := ha
  obtain ⟨hlive, hdata⟩ := (hr.cells key c).mp hc
  have hwrite := hr.write hc hptr
  have ho' : InOrder {h with pData := Function.update h.pData c.ptr (c'.item key)} bs keys := by
    apply ho.congr
    intro b a _
    rcases eq_or_ne a c.ptr with rfl | hac
    · change (Function.update h.pData c.ptr (c'.item key) c.ptr).stPortItem = _
      rw [Function.update_self, hdata]
      rfl
    · exact congrArg PortVHashItem.stPortItem (Function.update_of_ne hac _ _)
  rw [← hchange, ← hdata] at hwrite ho'
  have hhead₀ : w.astVHashHead 0 = some h := hhead
  refine ⟨{w with astVHashHead := Function.update w.astVHashHead enPort.toNat (some
    {h with pData := Function.update h.pData c.ptr (change (h.pData c.ptr))})},
    ?_, Arranged.of_head hid hwrite ho'⟩
  simp [writeItem, StateT.run, hhead₀, hlive]

theorem portVHashInit_arranged :
    ∃ w, (portVHashInit true).run (vhashInit enVHashMoudleMax) = .ok ((), w) ∧
      Arranged w PortMap.empty [] := by
  obtain ⟨h, hrun, hchains, hmoudle, hfree, _⟩ :=
    vhashCreateMoudle_run (w := vhashInit enVHashMoudleMax) enPort_known rfl portMoudle
  have hr := PortRep.clear hchains hmoudle hfree
  refine ⟨_, ?_,
    Arranged.of_head (w := vhashInit enVHashMoudleMax) enPort_known hr (fun _ => rfl)⟩
  unfold portVHashInit
  rw [StateT.run_bind, hrun]
  rfl

theorem portVHashInit_run :
    ∃ w, (portVHashInit true).run (vhashInit enVHashMoudleMax) = .ok ((), w) ∧
      PortTable w PortMap.empty := by
  obtain ⟨w, hrun, ha⟩ := portVHashInit_arranged
  exact ⟨w, hrun, ha.toTable⟩

end Calls

end RedisTrace
