import Mathlib.Algebra.BigOperators.Group.Finset.Basic
import Mathlib.Data.UInt
import RedisTrace.VHash.Operations

/-!
The representation of a module: every bucket heads a ring of nodes, and
`bs b` is the sequence of node addresses in bucket `b`. The first half is
about the lists alone, the second adds the two levels of counters. For each
function of `vhash.c` one lemma says what it does to these sequences, for
arbitrary callbacks.
-/

namespace RedisTrace

open CircularList Run

variable {K N D : Type}

/-- The number of buckets as an index bound. -/
def VHashHead.bucketCount (h : VHashHead K N D) : Nat :=
  h.moudle.uiBucketCount.toNat

/-- The lists of a module: the nodes of `bs b` are exactly what following
`Flink` from the head of bucket `b` meets, no node is on two lists, and the
nodes on the lists are the live ones. -/
structure Lists (h : VHashHead K N D) (bs : Nat → List Nat) : Prop where
  ring : ∀ b, b < h.bucketCount → Ring h.mem (.listHead b) ((bs b).map .node)
  empty : ∀ b, h.bucketCount ≤ b → bs b = []
  apart : ∀ b c a, a ∈ bs b → a ∈ bs c → b = c
  live : ∀ a, a ∈ h.live ↔ ∃ b, a ∈ bs b

/-- The lists together with the counters over them. -/
structure Chains (h : VHashHead K N D) (bs : Nat → List Nat) : Prop
    extends Lists h bs where
  sums : ∀ b, b < h.bucketCount → h.ulDataNodeSum b = UInt32.ofNat (bs b).length
  total : h.uiTotal =
    UInt32.ofNat (∑ b ∈ Finset.range h.bucketCount, (bs b).length)

section Lists

variable {h h' : VHashHead K N D} {bs : Nat → List Nat}

theorem Lists.congr (hl : Lists h bs) (hcount : h'.bucketCount = h.bucketCount)
    (hmem : h'.mem = h.mem) (hlive : h'.live = h.live) : Lists h' bs := by
  refine ⟨?_, ?_, hl.apart, ?_⟩
  · intro b hb
    rw [hmem]
    exact hl.ring b (hcount ▸ hb)
  · intro b hb
    exact hl.empty b (hcount ▸ hb)
  · intro a
    rw [hlive]
    exact hl.live a

theorem Chains.congr (hc : Chains h bs) (hcount : h'.bucketCount = h.bucketCount)
    (hmem : h'.mem = h.mem) (hlive : h'.live = h.live)
    (hsums : h'.ulDataNodeSum = h.ulDataNodeSum) (htotal : h'.uiTotal = h.uiTotal) :
    Chains h' bs := by
  refine ⟨hc.toLists.congr hcount hmem hlive, ?_, ?_⟩
  · intro b hb
    rw [hsums]
    exact hc.sums b (hcount ▸ hb)
  · rw [htotal, hcount]
    exact hc.total

theorem Lists.lt_count (hl : Lists h bs) {a b : Nat} (ha : a ∈ bs b) :
    b < h.bucketCount := by
  by_contra hb
  have hnil := hl.empty b (by omega)
  simp [hnil] at ha

theorem Lists.nodup (hl : Lists h bs) (b : Nat) : (bs b).Nodup := by
  by_cases hb : b < h.bucketCount
  · exact List.Nodup.of_map _ (hl.ring b hb).members_nodup
  · simp [hl.empty b (by omega)]

theorem Lists.live_of_mem (hl : Lists h bs) {a b : Nat} (ha : a ∈ bs b) :
    a ∈ h.live := (hl.live a).mpr ⟨b, ha⟩

theorem Lists.length_le (hl : Lists h bs) (b : Nat) :
    (bs b).length ≤ h.live.card := by
  rw [← List.toFinset_card_of_nodup (hl.nodup b)]
  apply Finset.card_le_card
  intro a ha
  exact hl.live_of_mem (by simpa using ha)

/-- Every live node is counted in exactly one bucket. -/
theorem Lists.card_live (hl : Lists h bs) :
    h.live.card = ∑ b ∈ Finset.range h.bucketCount, (bs b).length := by
  have hcover : h.live =
      (Finset.range h.bucketCount).biUnion (fun b => (bs b).toFinset) := by
    ext a
    simp only [Finset.mem_biUnion, Finset.mem_range, List.mem_toFinset]
    rw [hl.live a]
    constructor
    · rintro ⟨b, ha⟩
      exact ⟨b, hl.lt_count ha, ha⟩
    · rintro ⟨b, _, ha⟩
      exact ⟨b, ha⟩
  rw [hcover, Finset.card_biUnion]
  · apply Finset.sum_congr rfl
    intro b _
    exact List.toFinset_card_of_nodup (hl.nodup b)
  · intro b _ c _ hbc
    apply Finset.disjoint_left.mpr
    intro a hb hc
    exact hbc (hl.apart b c a (by simpa using hb) (by simpa using hc))

/-- Writing cells outside the rings, and outside one list, keeps the others. -/
private theorem ring_outside (hl : Lists h bs) {m : Mem Ptr} {b c : Nat}
    (hc : c < h.bucketCount) (hbc : c ≠ b)
    (hsame : ∀ q, q ≠ .listHead b → (∀ a ∈ bs b, q ≠ .node a) →
      (∀ a, q = .node a → a ∈ h.live) → m q = h.mem q) :
    Ring m (.listHead c) ((bs c).map .node) := by
  apply (hl.ring c hc).congr
  intro q hq
  rcases List.mem_cons.mp hq with hhead | hnode
  · subst hhead
    exact hsame _ (by simpa using hbc) (by simp) (by simp)
  · obtain ⟨a, ha, rfl⟩ := List.mem_map.mp hnode
    apply hsame _ (by simp)
    · intro x hx heq
      have hxa : a = x := by simpa using heq
      exact hbc (hl.apart c b a ha (hxa ▸ hx))
    · intro x hx
      have hxa : a = x := by simpa using hx
      exact hxa ▸ hl.live_of_mem ha

/-- A fresh node spliced in at the end of bucket `b`. -/
theorem Lists.insert (hl : Lists h bs) {a b : Nat} (hb : b < h.bucketCount)
    (ha : a ∉ h.live) (hcount : h'.bucketCount = h.bucketCount)
    (hring : Ring h'.mem (.listHead b) ((bs b ++ [a]).map .node))
    (hsame : ∀ q, q ≠ .listHead b → q ≠ .node a → (∀ x ∈ bs b, q ≠ .node x) →
      h'.mem q = h.mem q)
    (hlive : h'.live = insert a h.live) :
    Lists h' (Function.update bs b (bs b ++ [a])) := by
  have hnew : ∀ c, a ∉ bs c := fun c hmem => ha (hl.live_of_mem hmem)
  refine ⟨?_, ?_, ?_, ?_⟩
  · intro c hc
    rcases eq_or_ne c b with rfl | hcb
    · rw [Function.update_self]
      exact hring
    · rw [Function.update_of_ne hcb]
      apply ring_outside hl (hcount ▸ hc) hcb
      intro q hhead hmem hq
      apply hsame q hhead _ hmem
      intro heq
      exact ha (hq a heq)
  · intro c hc
    have hcb : c ≠ b := by omega
    rw [Function.update_of_ne hcb]
    exact hl.empty c (hcount ▸ hc)
  · intro c d x hxc hxd
    by_cases hcb : c = b <;> by_cases hdb : d = b
    · rw [hcb, hdb]
    · subst hcb
      rw [Function.update_self] at hxc
      rw [Function.update_of_ne hdb] at hxd
      rcases List.mem_append.mp hxc with hx | hx
      · exact hl.apart c d x hx hxd
      · exact absurd (List.mem_singleton.mp hx ▸ hxd) (hnew d)
    · subst hdb
      rw [Function.update_self] at hxd
      rw [Function.update_of_ne hcb] at hxc
      rcases List.mem_append.mp hxd with hx | hx
      · exact hl.apart c d x hxc hx
      · exact absurd (List.mem_singleton.mp hx ▸ hxc) (hnew c)
    · rw [Function.update_of_ne hcb] at hxc
      rw [Function.update_of_ne hdb] at hxd
      exact hl.apart c d x hxc hxd
  · intro x
    rw [hlive, Finset.mem_insert, hl.live x]
    constructor
    · rintro (rfl | ⟨c, hc⟩)
      · exact ⟨b, by simp⟩
      · refine ⟨c, ?_⟩
        rcases eq_or_ne c b with rfl | hcb
        · simp [hc]
        · rwa [Function.update_of_ne hcb]
    · rintro ⟨c, hc⟩
      rcases eq_or_ne c b with rfl | hcb
      · rw [Function.update_self] at hc
        rcases List.mem_append.mp hc with hx | hx
        · exact Or.inr ⟨c, hx⟩
        · exact Or.inl (List.mem_singleton.mp hx)
      · rw [Function.update_of_ne hcb] at hc
        exact Or.inr ⟨c, hc⟩

/-- A node spliced out of bucket `b` and freed. -/
theorem Lists.erase (hl : Lists h bs) {a b : Nat} {left right : List Nat}
    (hcut : bs b = left ++ a :: right) (hcount : h'.bucketCount = h.bucketCount)
    (hring : Ring h'.mem (.listHead b) ((left ++ right).map .node))
    (hsame : ∀ q, q ≠ .listHead b → (∀ x ∈ bs b, q ≠ .node x) → h'.mem q = h.mem q)
    (hlive : h'.live = h.live.erase a) :
    Lists h' (Function.update bs b (left ++ right)) := by
  have hab : a ∈ bs b := by simp [hcut]
  have hb := hl.lt_count hab
  have hsub : ∀ x, x ∈ left ++ right → x ∈ bs b := by
    intro x hx
    rw [hcut]
    rcases List.mem_append.mp hx with hx | hx <;> simp [hx]
  have hgone : a ∉ left ++ right := by
    have hnodup := hl.nodup b
    rw [hcut] at hnodup
    exact (List.nodup_middle.mp hnodup).notMem
  have hback : ∀ c x, x ∈ Function.update bs b (left ++ right) c → x ∈ bs c := by
    intro c x hx
    rcases eq_or_ne c b with rfl | hcb
    · rw [Function.update_self] at hx
      exact hsub x hx
    · rwa [Function.update_of_ne hcb] at hx
  refine ⟨?_, ?_, ?_, ?_⟩
  · intro c hc
    rcases eq_or_ne c b with rfl | hcb
    · rw [Function.update_self]
      exact hring
    · rw [Function.update_of_ne hcb]
      apply ring_outside hl (hcount ▸ hc) hcb
      intro q hhead hmem _
      exact hsame q hhead hmem
  · intro c hc
    have hcb : c ≠ b := by omega
    rw [Function.update_of_ne hcb]
    exact hl.empty c (hcount ▸ hc)
  · intro c d x hxc hxd
    exact hl.apart c d x (hback c x hxc) (hback d x hxd)
  · intro x
    rw [hlive, Finset.mem_erase, hl.live x]
    constructor
    · rintro ⟨hne, c, hc⟩
      refine ⟨c, ?_⟩
      rcases eq_or_ne c b with rfl | hcb
      · rw [Function.update_self]
        rw [hcut] at hc
        simp only [List.mem_append, List.mem_cons] at hc ⊢
        tauto
      · rwa [Function.update_of_ne hcb]
    · rintro ⟨c, hc⟩
      refine ⟨?_, c, hback c x hc⟩
      rintro rfl
      have hcb : c = b := hl.apart c b x (hback c x hc) hab
      subst hcb
      rw [Function.update_self] at hc
      exact hgone hc

end Lists

section Counters

/-- Replacing one sequence changes the number of nodes by the difference of
the two lengths. -/
theorem sum_length_update (bs : Nat → List Nat) {b n : Nat} (hb : b < n)
    (l : List Nat) :
    (∑ c ∈ Finset.range n, (Function.update bs b l c).length) + (bs b).length =
      (∑ c ∈ Finset.range n, (bs c).length) + l.length := by
  have hmem : b ∈ Finset.range n := Finset.mem_range.mpr hb
  rw [← Finset.add_sum_erase _ _ hmem, ← Finset.add_sum_erase _ (fun c => (bs c).length) hmem]
  have hrest : ∑ c ∈ (Finset.range n).erase b, (Function.update bs b l c).length =
      ∑ c ∈ (Finset.range n).erase b, (bs c).length := by
    apply Finset.sum_congr rfl
    intro c hc
    rw [Function.update_of_ne (Finset.ne_of_mem_erase hc)]
  rw [hrest, Function.update_self]
  omega

theorem ofNat_succ (n : Nat) : UInt32.ofNat n + 1 = UInt32.ofNat (n + 1) := by
  simp [UInt32.ofNat_add]

theorem ofNat_pred (n : Nat) : UInt32.ofNat (n + 1) - 1 = UInt32.ofNat n := by
  simp [UInt32.ofNat_add]

theorem ofNat_sum (f : Nat → Nat) (n : Nat) :
    UInt32.ofNat (∑ b ∈ Finset.range n, f b) =
      ∑ b ∈ Finset.range n, UInt32.ofNat (f b) := by
  induction n with
  | zero => rfl
  | succ n ih => rw [Finset.sum_range_succ, Finset.sum_range_succ, UInt32.ofNat_add, ih]

theorem sum_map_range (f : Nat → UInt32) (n : Nat) :
    ((List.range n).map f).sum = ∑ b ∈ Finset.range n, f b := by
  induction n with
  | zero => rfl
  | succ n ih => simp [List.range_succ, Finset.sum_range_succ, ih]

variable {h h' : VHashHead K N D} {bs : Nat → List Nat}

/-- The module's counter is the sum of the buckets' counters. -/
theorem Chains.total_eq_sum (hc : Chains h bs) :
    h.uiTotal = ∑ b ∈ Finset.range h.bucketCount, h.ulDataNodeSum b := by
  rw [hc.total, ofNat_sum]
  apply Finset.sum_congr rfl
  intro b hb
  exact (hc.sums b (Finset.mem_range.mp hb)).symm

theorem Chains.insert (hc : Chains h bs) {a b : Nat}
    (hl : Lists h' (Function.update bs b (bs b ++ [a])))
    (hb : b < h.bucketCount) (hcount : h'.bucketCount = h.bucketCount)
    (hsums : h'.ulDataNodeSum =
      Function.update h.ulDataNodeSum b (h.ulDataNodeSum b + 1))
    (htotal : h'.uiTotal = h.uiTotal + 1) :
    Chains h' (Function.update bs b (bs b ++ [a])) := by
  refine ⟨hl, ?_, ?_⟩
  · intro c hcb
    rw [hsums]
    rcases eq_or_ne c b with rfl | heq
    · rw [Function.update_self, Function.update_self, hc.sums c hb, ofNat_succ]
      simp
    · rw [Function.update_of_ne heq, Function.update_of_ne heq]
      exact hc.sums c (hcount ▸ hcb)
  · rw [htotal, hc.total, hcount, ofNat_succ]
    have hsum := sum_length_update bs hb (bs b ++ [a])
    simp only [List.length_append, List.length_singleton] at hsum
    congr 1
    omega

theorem Chains.erase (hc : Chains h bs) {a b : Nat} {left right : List Nat}
    (hcut : bs b = left ++ a :: right)
    (hl : Lists h' (Function.update bs b (left ++ right)))
    (hcount : h'.bucketCount = h.bucketCount)
    (hsums : h'.ulDataNodeSum =
      Function.update h.ulDataNodeSum b (h.ulDataNodeSum b - 1))
    (htotal : h'.uiTotal = h.uiTotal - 1) :
    Chains h' (Function.update bs b (left ++ right)) := by
  have hb : b < h.bucketCount := hc.lt_count (a := a) (by simp [hcut])
  have hlength : (bs b).length = (left ++ right).length + 1 := by
    simp [hcut]
    omega
  refine ⟨hl, ?_, ?_⟩
  · intro c hcb
    rw [hsums]
    rcases eq_or_ne c b with rfl | heq
    · rw [Function.update_self, Function.update_self, hc.sums c hb, hlength, ofNat_pred]
    · rw [Function.update_of_ne heq, Function.update_of_ne heq]
      exact hc.sums c (hcount ▸ hcb)
  · have hsum := sum_length_update bs hb (left ++ right)
    have hone : (∑ c ∈ Finset.range h.bucketCount, (bs c).length) =
        (∑ c ∈ Finset.range h.bucketCount,
          (Function.update bs b (left ++ right) c).length) + 1 := by
      omega
    rw [htotal, hc.total, hcount, hone, ofNat_pred]

end Counters

/-- A module with all the callbacks `VHash_Add_Node2` asks for (`clean` may be
NULL) and whose hash stays below the number of buckets. -/
structure FullMoudle (K N D : Type) where
  uiBucketCount : UInt32
  uiDataLen : UInt32
  hash : K → UInt32
  compare : K → D → UInt32
  isUpdate : D → N → UInt32
  clean : Option (D → UInt32 × D)
  cpy : D → N → UInt32 → UInt32 × D
  hash_lt : ∀ key, hash key < uiBucketCount

namespace FullMoudle

def moudle (f : FullMoudle K N D) : VHashMoudle K N D where
  uiBucketCount := f.uiBucketCount
  uiDataLen := f.uiDataLen
  pfnVHashCalc := some f.hash
  pfnVHashCompare := some f.compare
  pfnVHashIsUpdate := some f.isUpdate
  pfnVHashClean := f.clean
  pfnVHashCpy := some f.cpy

def bucket (f : FullMoudle K N D) (key : K) : Nat := (f.hash key).toNat

/-- The node at `a` compares equal to the key. -/
def matching (f : FullMoudle K N D) (key : K) (data : Nat → D) (a : Nat) : Bool :=
  f.compare key (data a) = vhashOk

theorem bucket_lt (f : FullMoudle K N D) (key : K) :
    f.bucket key < f.uiBucketCount.toNat :=
  UInt32.lt_iff_toNat_lt.mp (f.hash_lt key)

end FullMoudle

/-- A module that treats this one key as the full one does. Other keys it may
send beyond its buckets. -/
structure Serves (m : VHashMoudle K N D) (f : FullMoudle K N D) (key : K) : Prop where
  count : m.uiBucketCount = f.uiBucketCount
  len : m.uiDataLen = f.uiDataLen
  hashed : ∃ hash, m.pfnVHashCalc = some hash ∧ hash key = f.hash key
  compare : m.pfnVHashCompare = some f.compare
  isUpdate : m.pfnVHashIsUpdate = some f.isUpdate
  clean : m.pfnVHashClean = f.clean
  cpy : m.pfnVHashCpy = some f.cpy

section Serves

variable {m : VHashMoudle K N D} {f : FullMoudle K N D} {key : K}

theorem Serves.of_eq (hm : m = f.moudle) : Serves m f key := by
  subst hm
  exact ⟨rfl, rfl, ⟨_, rfl, rfl⟩, rfl, rfl, rfl, rfl⟩

/-- With all four callbacks there, a key whose bucket exists is served. -/
theorem exists_serves {hash : K → UInt32} (hcalc : m.pfnVHashCalc = some hash)
    (hlt : hash key < m.uiBucketCount) {compare : K → D → UInt32}
    (hcompare : m.pfnVHashCompare = some compare) {isUpdate : D → N → UInt32}
    (hisUpdate : m.pfnVHashIsUpdate = some isUpdate) {cpy : D → N → UInt32 → UInt32 × D}
    (hcpy : m.pfnVHashCpy = some cpy) :
    ∃ f : FullMoudle K N D, Serves m f key ∧ f.hash key = hash key := by
  let f : FullMoudle K N D := {
    uiBucketCount := m.uiBucketCount
    uiDataLen := m.uiDataLen
    hash := fun k => if hash k < m.uiBucketCount then hash k else hash key
    compare := compare
    isUpdate := isUpdate
    clean := m.pfnVHashClean
    cpy := cpy
    hash_lt := by
      intro k
      split
      · assumption
      · exact hlt }
  have hkey : f.hash key = hash key := by simp [f]
  exact ⟨f, ⟨rfl, rfl, ⟨hash, hcalc, hkey.symm⟩, hcompare, hisUpdate, rfl, hcpy⟩, hkey⟩

theorem Serves.cleaned (hs : Serves m f key) (d : D) : cleaned m d = cleaned f.moudle d := by
  have hclean : f.moudle.pfnVHashClean = f.clean := rfl
  rw [RedisTrace.cleaned, RedisTrace.cleaned, hs.clean, hclean]

theorem Serves.cleanEvents (hs : Serves m f key) (a : Nat) :
    cleanEvents m a = cleanEvents f.moudle a := by
  have hclean : f.moudle.pfnVHashClean = f.clean := rfl
  rw [RedisTrace.cleanEvents, RedisTrace.cleanEvents, hs.clean, hclean]

theorem Serves.bucket_lt (hs : Serves m f key) : f.bucket key < m.uiBucketCount.toNat := by
  rw [hs.count]
  exact f.bucket_lt key

end Serves

/-- The collision walk over a sequence of nodes. -/
def scan (p : Nat → Bool) : Option Nat → List Nat → Walk
  | last, [] => .miss last
  | _, a :: as => if p a then .hit a else scan p (some a) as

theorem scan_hit {p : Nat → Bool} {last : Option Nat} {as : List Nat} {a : Nat}
    (hscan : scan p last as = .hit a) :
    p a = true ∧ ∃ left right, as = left ++ a :: right ∧ ∀ x ∈ left, p x = false := by
  induction as generalizing last with
  | nil => simp [scan] at hscan
  | cons x rest ih =>
      by_cases hx : p x = true
      · have hxa : x = a := by simpa [scan, hx] using hscan
        subst hxa
        exact ⟨hx, [], rest, rfl, by simp⟩
      · have hrest : scan p (some x) rest = .hit a := by simpa [scan, hx] using hscan
        obtain ⟨ha, left, right, hcut, hleft⟩ := ih hrest
        refine ⟨ha, x :: left, right, by simp [hcut], ?_⟩
        intro y hy
        rcases List.mem_cons.mp hy with rfl | hy
        · simpa using hx
        · exact hleft y hy

theorem scan_miss {p : Nat → Bool} {last last' : Option Nat} {as : List Nat}
    (hscan : scan p last as = .miss last') :
    last' = as.getLast?.or last ∧ ∀ x ∈ as, p x = false := by
  induction as generalizing last with
  | nil =>
      have : last = last' := by simpa [scan] using hscan
      simp [this]
  | cons x rest ih =>
      by_cases hx : p x = true
      · simp [scan, hx] at hscan
      · have hrest : scan p (some x) rest = .miss last' := by
          simpa [scan, hx] using hscan
        obtain ⟨hlast, hnone⟩ := ih hrest
        refine ⟨?_, ?_⟩
        · rw [hlast, List.getLast?_cons]
          cases rest.getLast? <;> simp
        · intro y hy
          rcases List.mem_cons.mp hy with rfl | hy
          · simpa using hx
          · exact hnone y hy

section Lookup

variable {h : VHashHead K N D} {bs : Nat → List Nat} {f : FullMoudle K N D}

/-- From any point of its list the walk does what `scan` does on the rest of
the sequence, and leaves the module as it was. -/
theorem walk_run (hl : Lists h bs)
    (hcompare : h.moudle.pfnVHashCompare = some f.compare) (hlocked : h.locked = true)
    (key : K) {b : Nat} (hb : b < h.bucketCount)
    (left right : List Nat) (hcut : bs b = left ++ right)
    (fuel : Nat) (hfuel : right.length < fuel) (last : Option Nat) :
    (walk key (.listHead b) fuel
      ((right.map Ptr.node ++ [Ptr.listHead b]).head (by simp)) last).run h =
      .ok (scan (f.matching key h.pData) last right, h) := by
  induction right generalizing left fuel last with
  | nil =>
      obtain ⟨fuel, rfl⟩ : ∃ n, fuel = n + 1 := ⟨fuel - 1, by simp at hfuel; omega⟩
      simp [walk, scan]
  | cons a rest ih =>
      obtain ⟨fuel, rfl⟩ : ∃ n, fuel = n + 1 := ⟨fuel - 1, by simp at hfuel; omega⟩
      have ha : a ∈ h.live := hl.live_of_mem (b := b) (by simp [hcut])
      by_cases hmatch : f.compare key (h.pData a) = vhashOk
      · simp [walk, scan, containingRecord_run, hcompare, callback_run,
          readData_run hlocked ha, hmatch, FullMoudle.matching]
      · have hring : Ring h.mem (.listHead b)
            (left.map Ptr.node ++ Ptr.node a :: rest.map Ptr.node) := by
          simpa [hcut] using hl.ring b hb
        have hnext := onList_run hlocked (flink_run hring.neighbours.2.1)
        have htail := ih (left ++ [a]) (by simp [hcut]) fuel
          (by simp at hfuel; omega) (some a)
        simp [walk, scan, containingRecord_run, hcompare, callback_run,
          readData_run hlocked ha, hmatch, FullMoudle.matching, hnext]
        exact htail

theorem lookup_run (hl : Lists h bs) {key : K} (hs : Serves h.moudle f key)
    (hlocked : h.locked = true) :
    (lookup key).run h =
      .ok ((f.bucket key, scan (f.matching key h.pData) none (bs (f.bucket key))), h) := by
  have hb : f.bucket key < h.bucketCount := hs.bucket_lt
  obtain ⟨hash, hcalc, hkey⟩ := hs.hashed
  have hfirst := onList_run hlocked (flink_run (hl.ring _ hb).first)
  have hwalk := walk_run hl hs.compare hlocked key hb [] (bs (f.bucket key)) rfl
    (h.live.card + 1) (by have := hl.length_le (f.bucket key); omega) none
  unfold FullMoudle.bucket at *
  simp [lookup, hcalc, callback_run, hkey, hfirst, hwalk]

end Lookup

end RedisTrace
