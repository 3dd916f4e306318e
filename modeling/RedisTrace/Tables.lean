import RedisTrace.AddNode
import RedisTrace.Library.Keyed
import RedisTrace.VHash.Calls

/-!
`vhash.c` as what it is for: an array of finite maps, one for each module
number, that remember in which order their keys have come. The map of a module
holds its nodes, each with its address and its data. A caller keeps to the
interface when it adds data under their own key and asks for the next node from
a node that is stored. Calls that do so, on whatever modules and in whatever
order, are answered as the maps answer.
-/

namespace RedisTrace

open CircularList Run

variable {K N D : Type}

/-- A stored node: its address and its data. -/
abbrev Stored (D : Type) := Nat × D

/-- The calls of a caller that keeps to the interface, and the values its
out-parameters hold. -/
inductive TableCall (K N : Type) where
  | create (mallocOk : Bool)
  | destory
  | clean
  | get (key : K) (ppData : NodePtr)
  | add (data : N) (ppNodeData : Option NodePtr) (want : Option Nat)
  | next (prev : Option (K × Nat)) (ppNodeData : NodePtr)
  | del (key : K)
  | stat (puiNodeStat : List UInt32)
  | total (puiTotal : UInt32)

/-- The answer where there is no module. -/
def TableCall.refused : TableCall K N → VHashReply
  | .create _ | .destory | .clean | .del _ => .code vhashErr
  | .get _ ppData => .node (vhashErr, some ppData)
  | .add _ ppNodeData _ => .node (vhashErr, ppNodeData)
  | .next _ ppNodeData => .node (vhashErr, some ppNodeData)
  | .stat puiNodeStat => .stat (vhashErr, some puiNodeStat)
  | .total puiTotal => .total (vhashErr, some puiTotal)

/-- What stands behind an address in a list of addresses. -/
def behind (a : Nat) (as : List Nat) : Option Nat := (as.dropWhile (· ≠ a)).tail.head?

namespace KeyedMoudle

def keyOf (f : KeyedMoudle K N D) (e : Stored D) : K := f.storedKey e.2

/-- The map of a module. -/
abbrev Table (f : KeyedMoudle K N D) := Keyed f.keyOf

/-- What an update makes of stored data. -/
def updated (f : KeyedMoudle K N D) (d : D) (data : N) : D :=
  (f.cpy (cleaned f.moudle d) data f.uiDataLen).2

theorem keyOf_updated (f : KeyedMoudle K N D) (data : N) (e : Stored D) :
    f.keyOf (e.1, f.updated e.2 data) = f.newKey data := f.cpy_key _ _

variable {f : KeyedMoudle K N D}

def Table.addresses (t : f.Table) : Finset Nat := (t.entries.map Prod.fst).toFinset

/-- The addresses in the order in which `VHash_Get_NextNode` comes to them. -/
def Table.enumeration (t : f.Table) : List Nat :=
  (t.byBucket f.bucket f.uiBucketCount.toNat).map Prod.fst

variable [DecidableEq K]

def Table.get (t : f.Table) (key : K) (ppData : NodePtr) : VHashReply :=
  match t.lookup key with
  | some e => .node (vhashOk, some (some e.1))
  | none => .node (vhashNotFound, some ppData)

def Table.add [Zero D] (t : f.Table) (data : N) (ppNodeData : Option NodePtr)
    (want : Option Nat) : VHashReply × f.Table :=
  match t.lookup (f.newKey data) with
  | some e =>
      if f.isUpdate e.2 data = vhashOk then
        (.node (vhashUpdateOk, ppNodeData.map (fun _ => some e.1)),
          t.rewrite (f.newKey data) (fun e => (e.1, f.updated e.2 data)) (f.keyOf_updated data))
      else (.node (vhashExist, ppNodeData), t)
  | none =>
      match want with
      | none => (.node (vhashNotInnif, ppNodeData), t)
      | some want =>
          (.node (vhashOk, ppNodeData.map (fun _ => some (unused t.addresses want))),
            t.push (unused t.addresses want, (f.cpy 0 data f.uiDataLen).2))

def Table.del (t : f.Table) (key : K) : VHashReply × f.Table :=
  match t.lookup key with
  | some _ => (.code vhashOk, t.remove key)
  | none => (.code vhashNotFound, t)

/-- From a node that is not the one stored under the key nothing is promised. -/
def Table.next (t : f.Table) (prev : Option (K × Nat)) (ppNodeData : NodePtr) :
    Option VHashReply :=
  match prev with
  | none => some (.node (vhashOk, some (t.enumeration.head?.or ppNodeData)))
  | some (key, a) =>
      if (t.lookup key).map Prod.fst = some a then
        some (.node (vhashOk, some ((behind a t.enumeration).or ppNodeData)))
      else none

def Table.stat (t : f.Table) : List UInt32 :=
  (List.range f.uiBucketCount.toNat).map
    (fun b => UInt32.ofNat (t.inBucket f.bucket b).length)

/-- One call on a module that is there, and what it leaves of it. -/
def Table.step [Zero D] (t : f.Table) : TableCall K N → Option (VHashReply × Option f.Table)
  | .create _ => some (.code vhashOk, some t)
  | .destory => some (.code vhashOk, none)
  | .clean => some (.code vhashOk, some .empty)
  | .get key ppData => some (t.get key ppData, some t)
  | .add data ppNodeData want =>
      some ((t.add data ppNodeData want).1, some (t.add data ppNodeData want).2)
  | .next prev ppNodeData => (t.next prev ppNodeData).map (·, some t)
  | .del key => some ((t.del key).1, some (t.del key).2)
  | .stat _ => some (.stat (vhashOk, some t.stat), some t)
  | .total _ => some (.total (vhashOk, some (UInt32.ofNat t.entries.length)), some t)

variable (f) in
/-- One call on a module number; `known` tells whether there is such a number. -/
def slotStep [Zero D] (known : Bool) (c : TableCall K N) :
    StateT (Option f.Table) Option VHashReply
  | some t => t.step c
  | none =>
      match c with
      | .create mallocOk =>
          if known then
            if mallocOk then some (.code vhashOk, some .empty)
            else some (.code vhashNotInnif, none)
          else some (c.refused, none)
      | c => some (c.refused, none)

end KeyedMoudle

/-- The call as it is made. -/
def TableCall.call (f : KeyedMoudle K N D) (enMoudleId : UInt32) :
    TableCall K N → VHashCall K N D
  | .create mallocOk => .createMoudle enMoudleId (some f.moudle) mallocOk
  | .destory => .destoryMoudle enMoudleId
  | .clean => .cleanMoudle enMoudleId
  | .get key ppData => .getNode enMoudleId (some key) (some ppData)
  | .add data ppNodeData want =>
      .addNode2 enMoudleId (some (f.newKey data)) (some data) ppNodeData want
  | .next none ppNodeData => .getNextNode enMoudleId none none (some ppNodeData)
  | .next (some (key, a)) ppNodeData =>
      .getNextNode enMoudleId (some key) (some a) (some ppNodeData)
  | .del key => .delNode enMoudleId (some key)
  | .stat puiNodeStat => .nodeStat enMoudleId (some puiNodeStat)
  | .total puiTotal => .nodeTotal enMoudleId (some puiTotal)

/-- The buckets hold the entries of the map, each bucket its own in order. -/
def Keeps (f : KeyedMoudle K N D) (h : VHashHead K N D) (bs : Nat → List Nat) (t : f.Table) :
    Prop := ∀ b, (bs b).map (fun a => (a, h.pData a)) = t.inBucket f.bucket b

/-- The module of this number is what the map says. -/
def Backs (f : KeyedMoudle K N D) (enMoudleId : UInt32) (w : VHashWorld K N D) :
    Option f.Table → Prop
  | none => w.astVHashHead enMoudleId.toNat = none
  | some t => ∃ h bs, Formed f enMoudleId w h bs ∧ Keeps f h bs t

section Entries

variable {f : KeyedMoudle K N D} {enMoudleId : UInt32} {w : VHashWorld K N D}
variable {h h' : VHashHead K N D} {bs : Nat → List Nat} {t : f.Table}

/-- The entries of the map are the live nodes with their data. -/
theorem Keeps.mem_iff (ht : Keeps f h bs t) (hl : Lists h bs) {e : Stored D} :
    e ∈ t.entries ↔ e.1 ∈ h.live ∧ h.pData e.1 = e.2 := by
  have hbucket : e ∈ t.entries ↔ ∃ b, e ∈ t.inBucket f.bucket b := by
    simp [Keyed.mem_inBucket]
  have hnode : ∀ b, e ∈ t.inBucket f.bucket b ↔ e.1 ∈ bs b ∧ h.pData e.1 = e.2 := by
    intro b
    rw [← ht b, List.mem_map]
    constructor
    · rintro ⟨a, ha, rfl⟩
      exact ⟨ha, rfl⟩
    · rintro ⟨ha, hdata⟩
      exact ⟨e.1, ha, Prod.ext rfl hdata⟩
  rw [hbucket, hl.live]
  simp only [hnode, exists_and_right]

theorem Keeps.addresses_eq (ht : Keeps f h bs t) (hl : Lists h bs) : t.addresses = h.live := by
  ext a
  rw [KeyedMoudle.Table.addresses, List.mem_toFinset, List.mem_map]
  constructor
  · rintro ⟨e, he, rfl⟩
    exact ((ht.mem_iff hl).mp he).1
  · intro ha
    exact ⟨(a, h.pData a), (ht.mem_iff hl).mpr ⟨ha, rfl⟩, rfl⟩

/-- The addresses of bucket `b`. -/
theorem Keeps.bucket_eq (ht : Keeps f h bs t) (b : Nat) :
    bs b = (t.inBucket f.bucket b).map Prod.fst := by
  rw [← ht b, List.map_map]
  exact (List.map_id _).symm

theorem Keeps.enumeration_eq (ht : Keeps f h bs t) (hmoudle : h.moudle = f.moudle) :
    t.enumeration = nodesFrom bs 0 h.bucketCount := by
  have hcount : f.uiBucketCount.toNat = h.bucketCount := by
    rw [VHashHead.bucketCount, hmoudle]
    rfl
  rw [KeyedMoudle.Table.enumeration, Keyed.byBucket, hcount, nodesFrom, List.map_flatMap,
    List.range_eq_range']
  simp only [← ht.bucket_eq]

theorem Keeps.length_eq (ht : Keeps f h bs t) (hl : Lists h bs) :
    t.entries.length = h.live.card := by
  have hnodup : (t.entries.map Prod.fst).Nodup := by
    apply List.Nodup.map_on _ (List.Nodup.of_map _ t.distinct)
    intro e he e' he' heq
    have hdata := ((ht.mem_iff hl).mp he).2
    rw [heq, ((ht.mem_iff hl).mp he').2] at hdata
    exact Prod.ext heq hdata.symm
  rw [← ht.addresses_eq hl, KeyedMoudle.Table.addresses, List.toFinset_card_of_nodup hnodup,
    List.length_map]

variable [DecidableEq K] {key : K} {e : Stored D}

/-- In the bucket of a stored key the node of its entry is where that entry is. -/
theorem Keeps.placed (ht : Keeps f h bs t) (hlook : t.lookup key = some e) :
    e.1 ∈ bs (f.bucket key) ∧ h.pData e.1 = e.2 := by
  obtain ⟨he, rfl⟩ := (t.lookup_eq_some_iff).mp hlook
  have hmem : e ∈ t.inBucket f.bucket (f.bucket (f.keyOf e)) := Keyed.mem_inBucket.mpr ⟨he, rfl⟩
  rw [← ht, List.mem_map] at hmem
  obtain ⟨a, ha, rfl⟩ := hmem
  exact ⟨ha, rfl⟩

/-- And no other node of any bucket has that key. -/
theorem Keeps.only (ht : Keeps f h bs t) (hlook : t.lookup key = some e) {a b : Nat}
    (ha : a ∈ bs b) (hkey : f.storedKey (h.pData a) = key) : a = e.1 := by
  obtain ⟨he, hkeyOf⟩ := (t.lookup_eq_some_iff).mp hlook
  have hmem : (a, h.pData a) ∈ t.inBucket f.bucket b := by
    rw [← ht]
    exact List.mem_map_of_mem ha
  exact congrArg Prod.fst (t.eq_of_key (Keyed.mem_inBucket.mp hmem).1 he (hkey.trans hkeyOf.symm))

theorem Keeps.scan_hit (ht : Keeps f h bs t) (hlook : t.lookup key = some e) :
    scan (f.matching key h.pData) none (bs (f.bucket key)) = .hit e.1 := by
  obtain ⟨ha, hdata⟩ := ht.placed hlook
  have hkey : f.storedKey (h.pData e.1) = key := by
    rw [hdata]
    exact ((t.lookup_eq_some_iff).mp hlook).2
  cases hscan : scan (f.matching key h.pData) none (bs (f.bucket key)) with
  | hit a =>
      obtain ⟨hmatch, left, right, hcut, _⟩ := RedisTrace.scan_hit hscan
      rw [ht.only hlook (a := a) (b := f.bucket key) (by simp [hcut]) (matching_iff.mp hmatch)]
  | miss last =>
      have hnone := (scan_miss hscan).2 e.1 ha
      rw [matching_iff.mpr hkey] at hnone
      cases hnone

theorem Keeps.scan_miss (ht : Keeps f h bs t) (hlook : t.lookup key = none) :
    ∃ last, scan (f.matching key h.pData) none (bs (f.bucket key)) = .miss last := by
  cases hscan : scan (f.matching key h.pData) none (bs (f.bucket key)) with
  | miss last => exact ⟨last, rfl⟩
  | hit a =>
      obtain ⟨hmatch, left, right, hcut, _⟩ := RedisTrace.scan_hit hscan
      have hmem : (a, h.pData a) ∈ t.inBucket f.bucket (f.bucket key) := by
        rw [← ht]
        exact List.mem_map_of_mem (by simp [hcut])
      exact absurd (matching_iff.mp hmatch)
        ((t.lookup_eq_none_iff).mp hlook _ (Keyed.mem_inBucket.mp hmem).1)

end Entries

section Changes

variable [DecidableEq K] {f : KeyedMoudle K N D} {h h' : VHashHead K N D} {bs : Nat → List Nat}
variable {t : f.Table} {key : K} {e : Stored D}

/-- New data under the old key, in the node the key has. -/
theorem Keeps.rewritten (ht : Keeps f h bs t) (hlook : t.lookup key = some e)
    {g : Stored D → Stored D} (hg : ∀ e, f.keyOf (g e) = key) {d : D} (hd : g e = (e.1, d))
    (hdata : h'.pData = Function.update h.pData e.1 d) :
    Keeps f h' bs (t.rewrite key g hg) := by
  obtain ⟨-, hkeyOf⟩ := (t.lookup_eq_some_iff).mp hlook
  have hentry : (e.1, h.pData e.1) = e := Prod.ext rfl (ht.placed hlook).2
  intro b
  rw [Keyed.inBucket_rewrite, ← ht b, List.map_map, hdata]
  apply List.map_congr_left
  intro a ha
  rcases eq_or_ne a e.1 with rfl | hne
  · simp [hentry, hkeyOf, hd]
  · have hkey : f.keyOf (a, h.pData a) ≠ key := fun hkey => hne (ht.only hlook ha hkey)
    simp [hne, hkey]

/-- A new node at the end of the bucket of its key. -/
theorem Keeps.pushed (ht : Keeps f h bs t) (hl : Lists h bs) {a : Nat} {d : D}
    (hnew : t.lookup (f.keyOf (a, d)) = none) (hfresh : a ∉ h.live)
    (hdata : h'.pData = Function.update h.pData a d) :
    Keeps f h' (Function.update bs (f.bucket (f.keyOf (a, d)))
      (bs (f.bucket (f.keyOf (a, d))) ++ [a])) (t.push (a, d)) := by
  have hold : ∀ b, (bs b).map (fun x => (x, h'.pData x)) = t.inBucket f.bucket b := by
    intro b
    rw [← ht b]
    apply List.map_congr_left
    intro x hx
    have hxa : x ≠ a := by
      rintro rfl
      exact hfresh (hl.live_of_mem hx)
    rw [hdata, Function.update_of_ne hxa]
  intro b
  rw [Keyed.inBucket_push hnew, ← hold b]
  rcases eq_or_ne b (f.bucket (f.keyOf (a, d))) with rfl | hb
  · simp [hdata]
  · simp [hb, hb.symm]

/-- The node of a key taken out of its bucket. -/
theorem Keeps.removed (ht : Keeps f h bs t) (hl : Lists h bs) (hlook : t.lookup key = some e)
    {left right : List Nat} (hcut : bs (f.bucket key) = left ++ e.1 :: right)
    (hdata : ∀ x, x ≠ e.1 → h'.pData x = h.pData x) :
    Keeps f h' (Function.update bs (f.bucket key) (left ++ right)) (t.remove key) := by
  have hkeyOf : f.keyOf (e.1, h.pData e.1) = key := by
    rw [(ht.placed hlook).2]
    exact ((t.lookup_eq_some_iff).mp hlook).2
  have hkept : ∀ (b : Nat) (as : List Nat), (∀ x ∈ as, x ∈ bs b ∧ x ≠ e.1) →
      (as.map (fun a => (a, h.pData a))).filter (fun x => f.keyOf x ≠ key) =
        as.map (fun a => (a, h'.pData a)) := by
    intro b as has
    rw [List.filter_eq_self.mpr]
    · apply List.map_congr_left
      intro x hx
      rw [hdata x (has x hx).2]
    · intro x hx
      obtain ⟨a, ha, rfl⟩ := List.mem_map.mp hx
      rw [decide_eq_true_eq]
      exact fun hkey => (has a ha).2 (ht.only hlook (has a ha).1 hkey)
  intro b
  rw [Keyed.inBucket_remove, ← ht b]
  rcases eq_or_ne b (f.bucket key) with rfl | hb
  · have hnodup := hl.nodup (f.bucket key)
    rw [hcut, List.nodup_middle, List.nodup_cons] at hnodup
    have hsides : ∀ x ∈ left ++ right, x ∈ bs (f.bucket key) ∧ x ≠ e.1 := by
      intro x hx
      refine ⟨?_, fun heq => hnodup.1 (heq ▸ hx)⟩
      rw [hcut]
      rcases List.mem_append.mp hx with hx | hx <;> simp [hx]
    rw [Function.update_self, hcut, ← hkept _ _ hsides]
    simp [hkeyOf]
  · rw [Function.update_of_ne hb]
    refine (hkept b _ ?_).symm
    intro x hx
    refine ⟨hx, ?_⟩
    rintro rfl
    exact hb (hl.apart _ _ _ hx (ht.placed hlook).1)

end Changes

/-- The call comes to an end with this answer and leaves the module as the map
says. -/
def Answers (f : KeyedMoudle K N D) (enMoudleId : UInt32) (w : VHashWorld K N D)
    (call : VHashW K N D VHashReply) (reply : VHashReply) (s : Option f.Table) : Prop :=
  ∃ w', call.run w = .ok (reply, w') ∧ w'.uiMaxVhashModules = w.uiMaxVhashModules ∧
    Backs f enMoudleId w' s

section Steps

variable {f : KeyedMoudle K N D} {enMoudleId : UInt32} {w : VHashWorld K N D}
variable {h h' : VHashHead K N D} {bs bs' : Nat → List Nat} {t t' : f.Table}

theorem Formed.answers {α : Type} (hw : Formed f enMoudleId w h bs) {op : VHashM K N D α}
    {answer : α} (hrun : op.run h = .ok (answer, h')) (error : α) (wrap : α → VHashReply)
    (hmoudle : h'.moudle = h.moudle) (hfree : h'.locked = false) (hchains : Chains h' bs')
    (ht : Keeps f h' bs' t') :
    Answers f enMoudleId w (wrap <$> withMoudle enMoudleId error op) (wrap answer) (some t') :=
  ⟨_, map_run wrap (hw.call error hrun), rfl, h', bs', hw.withHead hmoudle hfree hchains, ht⟩

/-- A call that only looks. -/
theorem Formed.answers_looked {α : Type} (hw : Formed f enMoudleId w h bs) (ht : Keeps f h bs t)
    {op : VHashM K N D α} {answer : α} (hrun : op.run h = .ok (answer, h.released []))
    (error : α) (wrap : α → VHashReply) :
    Answers f enMoudleId w (wrap <$> withMoudle enMoudleId error op) (wrap answer) (some t) :=
  hw.answers hrun error wrap rfl rfl (hw.chains.released []) ht

/-- Behind an address in a list without repetitions stands what it stands before. -/
theorem behind_eq {a : Nat} {before after : List Nat} (hnodup : (before ++ a :: after).Nodup) :
    behind a (before ++ a :: after) = after.head? := by
  have hbefore : a ∉ before := fun ha => (List.disjoint_of_nodup_append hnodup) ha (by simp)
  have hdrop : (before ++ a :: after).dropWhile (· ≠ a) = a :: after := by
    rw [List.dropWhile_append_of_pos]
    · simp
    · intro x hx
      rw [decide_eq_true_eq]
      rintro rfl
      exact hbefore hx
  rw [behind, hdrop, List.tail_cons]

theorem clean_answers (hw : Formed f enMoudleId w h bs) :
    Answers f enMoudleId w (.code <$> vhashCleanMoudle enMoudleId) (.code vhashOk)
      (some (.empty : f.Table)) := by
  obtain ⟨h', hrun, hchains, hmoudle, hfree, -⟩ := cleanMoudle_run hw.chains.toLists hw.free
  exact hw.answers hrun _ _ hmoudle hfree hchains (fun _ => rfl)

theorem stat_answers (hw : Formed f enMoudleId w h bs) (ht : Keeps f h bs t)
    (puiNodeStat : List UInt32) :
    Answers f enMoudleId w (.stat <$> vhashNodeStat enMoudleId (some puiNodeStat))
      (.stat (vhashOk, some t.stat)) (some t) := by
  have hstat : (List.range h.bucketCount).map h.ulDataNodeSum = t.stat := by
    have hcount : h.bucketCount = f.uiBucketCount.toNat := by
      rw [VHashHead.bucketCount, hw.moudle]
      rfl
    rw [KeyedMoudle.Table.stat, ← hcount]
    apply List.map_congr_left
    intro b hb
    rw [hw.chains.sums b (List.mem_range.mp hb), ht.bucket_eq b, List.length_map]
  have hrun := nodeStat_run hw.free
  rw [hstat] at hrun
  exact hw.answers_looked ht hrun _ _

theorem total_answers (hw : Formed f enMoudleId w h bs) (ht : Keeps f h bs t)
    (puiTotal : UInt32) :
    Answers f enMoudleId w (.total <$> vhashNodeTotal enMoudleId (some puiTotal))
      (.total (vhashOk, some (UInt32.ofNat t.entries.length))) (some t) := by
  have htotal : h.uiTotal = UInt32.ofNat t.entries.length := by
    rw [hw.chains.total, ht.length_eq hw.chains.toLists, hw.chains.card_live]
  rw [← htotal]
  exact hw.answers nodeTotal_run _ _ rfl hw.free hw.chains ht

/-- Where there is no module, a call that does not create it changes nothing. -/
theorem call_absent [Zero D] (hnone : w.astVHashHead enMoudleId.toNat = none)
    {c : TableCall K N} (hcreate : ∀ mallocOk, c ≠ .create mallocOk) :
    (vhashCall (c.call f enMoudleId)).run w = .ok (c.refused, w) := by
  cases c with
  | create mallocOk => exact absurd rfl (hcreate mallocOk)
  | destory => exact map_run _ (vhashDestoryMoudle_none hnone)
  | next prev ppNodeData =>
      cases prev with
      | none => exact map_run _ (withMoudle_none _ _ hnone)
      | some prev => exact map_run _ (withMoudle_none _ _ hnone)
  | clean | get | add | del | stat | total => exact map_run _ (withMoudle_none _ _ hnone)

variable [DecidableEq K]

theorem get_answers (hw : Formed f enMoudleId w h bs) (ht : Keeps f h bs t) (key : K)
    (ppData : NodePtr) :
    Answers f enMoudleId w (.node <$> vhashGetNode enMoudleId (some key) (some ppData))
      (t.get key ppData) (some t) := by
  unfold KeyedMoudle.Table.get
  cases hlook : t.lookup key with
  | some e =>
      exact hw.answers_looked ht (getNode_hit hw.chains.toLists (.of_eq hw.moudle) hw.free
        (some ppData) (ht.scan_hit hlook)) _ _
  | none =>
      obtain ⟨last, hscan⟩ := ht.scan_miss hlook
      exact hw.answers_looked ht (getNode_miss hw.chains.toLists (.of_eq hw.moudle) hw.free
        (some ppData) hscan) _ _

theorem del_answers (hw : Formed f enMoudleId w h bs) (ht : Keeps f h bs t) (key : K) :
    Answers f enMoudleId w (.code <$> vhashDelNode enMoudleId (some key)) (t.del key).1
      (some (t.del key).2) := by
  unfold KeyedMoudle.Table.del
  cases hlook : t.lookup key with
  | some e =>
      obtain ⟨left, right, hcut⟩ := List.append_of_mem (ht.placed hlook).1
      obtain ⟨h', hrun, hchains, hmoudle, hfree, -, hdata, -⟩ := delNode_hit hw.chains
        (.of_eq hw.moudle) hw.free (ht.scan_hit hlook) hcut
      refine hw.answers hrun _ _ hmoudle hfree hchains (ht.removed hw.chains.toLists hlook hcut ?_)
      intro x hx
      rw [hdata, Function.update_of_ne hx]
  | none =>
      obtain ⟨last, hscan⟩ := ht.scan_miss hlook
      exact hw.answers_looked ht (delNode_miss hw.chains.toLists (.of_eq hw.moudle) hw.free
        hscan) _ _

theorem next_answers [Zero D] (hw : Formed f enMoudleId w h bs) (ht : Keeps f h bs t)
    {prev : Option (K × Nat)} {ppNodeData : NodePtr} {reply : VHashReply}
    (hnext : t.next prev ppNodeData = some reply) :
    Answers f enMoudleId w (vhashCall ((TableCall.next prev ppNodeData).call f enMoudleId)) reply
      (some t) := by
  have hcalc : h.moudle.pfnVHashCalc = some f.hash := by
    rw [hw.moudle]
    rfl
  have horder := ht.enumeration_eq hw.moudle
  cases prev with
  | none =>
      cases hnext
      have hrun := getNextNode_first hw.chains.toLists hcalc hw.free none (some ppNodeData)
      rw [← horder] at hrun
      exact hw.answers_looked ht hrun _ _
  | some prev =>
      obtain ⟨key, a⟩ := prev
      obtain ⟨hstored, hreply⟩ : (t.lookup key).map Prod.fst = some a ∧
          VHashReply.node (vhashOk, some ((behind a t.enumeration).or ppNodeData)) = reply := by
        simpa [KeyedMoudle.Table.next] using hnext
      obtain ⟨e, hlook, rfl⟩ := Option.map_eq_some_iff.mp hstored
      have hplaced : e.1 ∈ bs (f.hash key).toNat := (ht.placed hlook).1
      have hmem : e.1 ∈ nodesFrom bs 0 h.bucketCount :=
        (hw.chains.mem_nodesFrom _).mpr (hw.chains.live_of_mem hplaced)
      obtain ⟨before, after, hcut⟩ := List.append_of_mem hmem
      have hnodup := hw.chains.nodup_nodesFrom 0 h.bucketCount
      rw [hcut] at hnodup
      rw [horder, hcut, behind_eq hnodup] at hreply
      rw [← hreply]
      exact hw.answers_looked ht (getNextNode_next hw.chains.toLists hcalc hw.free key hplaced
        hcut ppNodeData) (vhashErr, some ppNodeData) .node

theorem add_answers [Zero D] (hw : Formed f enMoudleId w h bs) (ht : Keeps f h bs t) (data : N)
    (ppNodeData : Option NodePtr) (want : Option Nat) :
    Answers f enMoudleId w
      (.node <$> vhashAddNode2 enMoudleId (some (f.newKey data)) (some data) ppNodeData want)
      (t.add data ppNodeData want).1 (some (t.add data ppNodeData want).2) := by
  have hl := hw.chains.toLists
  have hs : Serves h.moudle f.toFullMoudle (f.newKey data) := .of_eq hw.moudle
  unfold KeyedMoudle.Table.add
  cases hlook : t.lookup (f.newKey data) with
  | some e =>
      have hscan := ht.scan_hit hlook
      have hdata := (ht.placed hlook).2
      by_cases hupdate : f.isUpdate e.2 data = vhashOk
      · have hrun := addNode2_updated hl hs hw.free data ppNodeData want hscan
          (by rw [hdata]; exact hupdate) (f.cpy_ok _ _)
        simp only [if_pos hupdate]
        refine hw.answers hrun _ _ rfl rfl ((hw.chains.rewritten _).released _)
          (ht.rewritten hlook _ rfl ?_)
        rw [KeyedMoudle.updated, ← hdata]
        rfl
      · have hrun := addNode2_refused hl hs hw.free data ppNodeData want hscan
          (by rw [hdata]; exact hupdate)
        simp only [if_neg hupdate]
        exact hw.answers_looked ht hrun _ _
  | none =>
      obtain ⟨last, hscan⟩ := ht.scan_miss hlook
      cases want with
      | none =>
          exact hw.answers_looked ht (addNode2_no_memory hl hs hw.free data ppNodeData hscan) _ _
      | some want =>
          obtain ⟨h', hrun, hchains, hmoudle, hfree, -, hdata, -⟩ := addNode2_inserted hw.chains
            hs hw.free data ppNodeData want hscan (f.cpy_ok _ _)
          have hkey : f.keyOf (unused h.live want, (f.cpy 0 data f.uiDataLen).2) =
              f.newKey data := f.cpy_key _ _
          have hpushed := ht.pushed hl (by rw [hkey]; exact hlook) (unused_not_mem h.live want)
            hdata
          rw [hkey] at hpushed
          simp only [ht.addresses_eq hl]
          exact hw.answers hrun _ _ hmoudle hfree hchains hpushed

theorem create_answers [Zero D] (hnone : w.astVHashHead enMoudleId.toNat = none)
    (mallocOk : Bool) {reply : VHashReply} {s : Option f.Table}
    (hstep : f.slotStep (N := N) (enMoudleId < w.uiMaxVhashModules) (.create mallocOk) none =
      some (reply, s)) :
    Answers f enMoudleId w (.code <$> vhashCreateMoudle enMoudleId (some f.moudle) mallocOk)
      reply s := by
  by_cases hid : enMoudleId < w.uiMaxVhashModules
  · cases mallocOk with
    | true =>
        obtain ⟨rfl, rfl⟩ : VHashReply.code vhashOk = reply ∧ some .empty = s := by
          simpa [KeyedMoudle.slotStep, hid] using hstep
        obtain ⟨h, hrun, hchains, hmoudle, hfree, -⟩ := vhashCreateMoudle_run hid hnone f.moudle
        exact ⟨_, map_run _ hrun, rfl, h, _,
          ⟨hid, withHead_head w h, hmoudle, hfree, hchains⟩, fun _ => rfl⟩
    | false =>
        obtain ⟨rfl, rfl⟩ : VHashReply.code vhashNotInnif = reply ∧ none = s := by
          simpa [KeyedMoudle.slotStep, hid] using hstep
        exact ⟨w, map_run _ (vhashCreateMoudle_failed hid hnone f.moudle), rfl, hnone⟩
  · obtain ⟨rfl, rfl⟩ : VHashReply.code vhashErr = reply ∧ none = s := by
      simpa [KeyedMoudle.slotStep, hid, TableCall.refused] using hstep
    have hid' : w.uiMaxVhashModules ≤ enMoudleId := UInt32.not_lt.mp hid
    refine ⟨w, map_run _ ?_, rfl, hnone⟩
    simp [vhashCreateMoudle, StateT.run, hid']

/-- Every call that keeps to the interface is answered as the map answers. -/
theorem slotStep_answers [Zero D] {s s' : Option f.Table} (hb : Backs f enMoudleId w s)
    {c : TableCall K N} {reply : VHashReply}
    (hstep : f.slotStep (enMoudleId < w.uiMaxVhashModules) c s = some (reply, s')) :
    Answers f enMoudleId w (vhashCall (c.call f enMoudleId)) reply s' := by
  cases s with
  | none =>
      by_cases hcreate : ∃ mallocOk, c = .create mallocOk
      · obtain ⟨mallocOk, rfl⟩ := hcreate
        exact create_answers hb mallocOk hstep
      · have hother : ∀ mallocOk, c ≠ .create mallocOk := by simpa using hcreate
        have hend : c.refused = reply ∧ none = s' := by
          cases c with
          | create mallocOk => exact absurd rfl (hother mallocOk)
          | destory | clean | get | add | next | del | stat | total =>
              simpa [KeyedMoudle.slotStep] using hstep
        obtain ⟨rfl, rfl⟩ := hend
        exact ⟨w, call_absent hb hother, rfl, hb⟩
  | some t =>
      have hsome : t.step c = some (reply, s') := hstep
      obtain ⟨h, bs, hw, ht⟩ := hb
      cases c with
      | create mallocOk =>
          cases hsome
          exact ⟨w, map_run _ (vhashCreateMoudle_present hw.known hw.head f.moudle mallocOk), rfl,
            h, bs, hw, ht⟩
      | destory =>
          cases hsome
          obtain ⟨h', hrun, -⟩ := destoryMoudle_run hw.chains.toLists hw.free
          exact ⟨_, map_run _ (vhashDestoryMoudle_run hw.known hw.head hrun), rfl,
            withoutHead_head w⟩
      | clean =>
          cases hsome
          exact clean_answers hw
      | get key ppData =>
          cases hsome
          exact get_answers hw ht key ppData
      | add data ppNodeData want =>
          cases hsome
          exact add_answers hw ht data ppNodeData want
      | next prev ppNodeData =>
          obtain ⟨answer, hnext, hend⟩ := Option.map_eq_some_iff.mp hsome
          cases hend
          exact next_answers hw ht hnext
      | del key =>
          cases hsome
          exact del_answers hw ht key
      | stat puiNodeStat =>
          cases hsome
          exact stat_answers hw ht puiNodeStat
      | total puiTotal =>
          cases hsome
          exact total_answers hw ht puiTotal

/-- Calls on one module from the beginning on. -/
theorem tableCalls_run [Zero D] (f : KeyedMoudle K N D) (uiMaxVhashModules enMoudleId : UInt32)
    (cs : List (TableCall K N)) {replies : List VHashReply} {s : Option f.Table}
    (hmap : (cs.mapM (f.slotStep (enMoudleId < uiMaxVhashModules))).run none = some (replies, s)) :
    ∃ w, (cs.mapM (fun c => vhashCall (c.call f enMoudleId))).run
        (vhashInit uiMaxVhashModules) = .ok (replies, w) ∧ Backs f enMoudleId w s := by
  let rel : VHashWorld K N D → Option f.Table → Prop := fun w s =>
    w.uiMaxVhashModules = uiMaxVhashModules ∧ Backs f enMoudleId w s
  have hfollows : ∀ c ∈ cs, ∀ w s reply s', rel w s →
      (f.slotStep (enMoudleId < uiMaxVhashModules) c).run s = some (reply, s') →
      ∃ w', (vhashCall (c.call f enMoudleId)).run w = .ok (reply, w') ∧ rel w' s' := by
    rintro c - w s reply s' ⟨hcount, hb⟩ hstep
    rw [← hcount] at hstep
    obtain ⟨w', hrun, hcount', hb'⟩ := slotStep_answers hb hstep
    exact ⟨w', hrun, hcount'.trans hcount, hb'⟩
  have hstart : rel (vhashInit uiMaxVhashModules) none := ⟨rfl, rfl⟩
  obtain ⟨w, hrun, -, hb⟩ := mapM_follows rel cs hfollows hstart hmap
  exact ⟨w, hrun, hb⟩

/-- What a lookup finds is what the map has. -/
theorem Backs.find (hb : Backs f enMoudleId w (some t)) (key : K) :
    RedisTrace.find enMoudleId w key = .ok ((t.lookup key).map Prod.snd) := by
  obtain ⟨h, bs, hw, ht⟩ := hb
  cases hlook : t.lookup key with
  | some e =>
      rw [hw.find_hit (ht.scan_hit hlook), (ht.placed hlook).2]
      rfl
  | none =>
      obtain ⟨last, hscan⟩ := ht.scan_miss hlook
      exact hw.find_miss hscan

end Steps

end RedisTrace
