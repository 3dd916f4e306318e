import RedisTrace.PortRuns

/-!
Walking over the connection table with `PORT_VHash_Get_NextNode`. A call is
given the key and the pointer of the item before and keeps nothing of its own;
yet call after call goes through the buckets in turn, and through each bucket
in the order of insertion.
-/

namespace RedisTrace

open CircularList Run

/-- A call, and a look at the item it hands out. -/
def nextItem (pstItem : Option PortItem) (prev out : NodePtr) : PortW PortReply := do
  let (ret, pp) ← portVHashGetNextNode pstItem prev (some out)
  if ret = vhashOk then observe ret pp.join
  else return .item ret pp.join none

/-- Calls one after another, each with the key and the pointer of the item just
returned. `outs` is what the caller's pointer variable holds before each call;
a call that hands out nothing is the last. -/
def enumerate (pstItem : Option PortItem) (prev : NodePtr) :
    List NodePtr → PortW (List PortReply)
  | [] => return []
  | out :: outs => do
      let reply ← nextItem pstItem prev out
      match reply with
      | .item _ (some a) (some seen) =>
          let replies ← enumerate (some seen.stPortItem) (some a) outs
          return reply :: replies
      | _ => return [reply]

/-- Keys bucket by bucket, and in each bucket the oldest first. -/
def walkOrder (keys : List PortItem) : List PortItem :=
  (List.range portVHashNumHashsize.toNat).flatMap (fun b => inBucket b keys)

/-- The call succeeds and hands out the item of this key. -/
def HandsOut (m : PortMap) (key : PortItem) (reply : PortReply) : Prop :=
  ∃ c, m key = some c ∧ reply = .item vhashOk (some c.ptr) (some (c.item key))

section Order

variable {h : PortHead} {bs : Nat → List Nat} {w : PortWorld} {m : PortMap}
  {keys : List PortItem}

/-- The nodes in the order of the walk carry the keys in theirs. -/
theorem PortRep.map_nodesFrom (hr : PortRep h bs m) (ho : InOrder h bs keys) :
    (nodesFrom bs 0 h.bucketCount).map (fun a => (h.pData a).stPortItem) = walkOrder keys := by
  have hcount : h.bucketCount = portVHashNumHashsize.toNat := by
    rw [VHashHead.bucketCount, hr.moudle]
    rfl
  rw [nodesFrom, List.map_flatMap, hcount, walkOrder, List.range_eq_range']
  congr 1
  funext b
  exact ho b

theorem Arranged.nodup_walkOrder (ha : Arranged w m keys) : (walkOrder keys).Nodup := by
  obtain ⟨_, h, bs, _, hr, ho⟩ := ha
  have hlists := hr.chains.toLists
  rw [← hr.map_nodesFrom ho]
  apply (hlists.nodup_nodesFrom 0 h.bucketCount).map_on
  intro a hmem a' hmem' heq
  have hcell := hr.cell_of_live ((hlists.mem_nodesFrom a).mp hmem)
  rw [heq, hr.cell_of_live ((hlists.mem_nodesFrom a').mp hmem')] at hcell
  exact (congrArg Cell.ptr (Option.some.inj hcell)).symm

theorem Arranged.mem_walkOrder (ha : Arranged w m keys) (key : PortItem) :
    key ∈ walkOrder keys ↔ (m key).isSome := by
  obtain ⟨_, h, bs, _, hr, ho⟩ := ha
  have hlists := hr.chains.toLists
  rw [← hr.map_nodesFrom ho, List.mem_map, Option.isSome_iff_exists]
  constructor
  · rintro ⟨a, hmem, rfl⟩
    exact ⟨_, hr.cell_of_live ((hlists.mem_nodesFrom a).mp hmem)⟩
  · rintro ⟨c, hc⟩
    obtain ⟨hlive, hdata⟩ := (hr.cells key c).mp hc
    exact ⟨c.ptr, (hlists.mem_nodesFrom c.ptr).mpr hlive, by rw [hdata]; rfl⟩

theorem Arranged.length_walkOrder (ha : Arranged w m keys) :
    (walkOrder keys).length = Set.ncard m.keys := by
  have hkeys : m.keys = ((walkOrder keys).toFinset : Set PortItem) := by
    ext key
    simp [PortMap.keys, ha.mem_walkOrder]
  rw [hkeys, Set.ncard_coe_finset, List.toFinset_card_of_nodup ha.nodup_walkOrder]

end Order

section Walk

variable {w : PortWorld} {m : PortMap} {keys : List PortItem}

/-- The keys still to come, by the arguments of the next call. -/
inductive Ahead (m : PortMap) (keys : List PortItem) :
    Option PortItem → NodePtr → List PortItem → Prop where
  | first (prev : NodePtr) : Ahead m keys none prev (walkOrder keys)
  | behind {before after : List PortItem} {key : PortItem} {c : Cell} (present : m key = some c)
      (cut : walkOrder keys = before ++ key :: after) :
      Ahead m keys (some key) (some c.ptr) after

/-- A call hands out the first item ahead. Where there is none it leaves the
pointer variable alone, under the same return code. -/
theorem portVHashGetNextNode_run (ha : Arranged w m keys) {pstItem : Option PortItem}
    {prev : NodePtr} {after : List PortItem} (hahead : Ahead m keys pstItem prev after)
    (out : NodePtr) :
    ∃ w', (portVHashGetNextNode pstItem prev (some out)).run w =
        .ok ((vhashOk, some (((after.head?.bind m).map Cell.ptr).or out)), w') ∧
      Arranged w' m keys := by
  apply ha.call
  intro h bs hr ho
  have hlists := hr.chains.toLists
  have hcalc : h.moudle.pfnVHashCalc = some portVHashCalc := by
    rw [hr.moudle]
    rfl
  have hptr : ∀ nodes : List Nat, (∀ a ∈ nodes, a ∈ h.live) →
      ((nodes.map (fun a => (h.pData a).stPortItem)).head?.bind m).map Cell.ptr =
        nodes.head? := by
    intro nodes hlive
    cases nodes with
    | nil => rfl
    | cons a nodes => simp [hr.cell_of_live (hlive a (by simp))]
  have hall : ∀ a ∈ nodesFrom bs 0 h.bucketCount, a ∈ h.live :=
    fun a hmem => (hlists.mem_nodesFrom a).mp hmem
  refine ⟨h.released [], bs, ?_, hr.released [], ho⟩
  cases hahead with
  | first prev =>
      rw [getNextNode_first hlists hcalc hr.free, ← hr.map_nodesFrom ho, hptr _ hall]
      rfl
  | behind present cut =>
      next before key c =>
        rw [← hr.map_nodesFrom ho] at cut
        obtain ⟨left, rest, horder, hleft, hrest⟩ := List.map_eq_append_iff.mp cut
        obtain ⟨a, right, rfl, hkey, hright⟩ := List.map_eq_cons_iff.mp hrest
        rw [horder] at hall
        have hcell := hr.cell_of_live (hall a (by simp))
        rw [hkey, present] at hcell
        have hac : c.ptr = a := congrArg Cell.ptr (Option.some.inj hcell)
        obtain ⟨b, hb⟩ := (hr.chains.live a).mp (hall a (by simp))
        have hbucket : (portVHashCalc key).toNat = b := by
          rw [← hkey]
          exact hr.placed b a hb
        rw [← hbucket] at hb
        rw [hac, getNextNode_next hlists hcalc hr.free key hb horder out, ← hright,
          hptr _ (fun x hx => hall x (by simp [hx]))]

theorem nextItem_run (ha : Arranged w m keys) {pstItem : Option PortItem} {prev : NodePtr}
    {key : PortItem} {after : List PortItem} {c : Cell}
    (hahead : Ahead m keys pstItem prev (key :: after)) (hc : m key = some c) (out : NodePtr) :
    ∃ w', (nextItem pstItem prev out).run w =
        .ok (.item vhashOk (some c.ptr) (some (c.item key)), w') ∧ Arranged w' m keys := by
  obtain ⟨w', hrun, ha'⟩ := portVHashGetNextNode_run ha hahead out
  have hseen := observe_run ha'.toTable hc vhashOk
  refine ⟨w', ?_, ha'⟩
  simp [nextItem, hrun, hc, hseen]

/-- Behind the item a call has handed out lies the rest. -/
theorem Ahead.next {pstItem : Option PortItem} {prev : NodePtr} {key : PortItem}
    {after : List PortItem} {c : Cell} (hahead : Ahead m keys pstItem prev (key :: after))
    (hc : m key = some c) : Ahead m keys (some key) (some c.ptr) after := by
  generalize hall : key :: after = rest at hahead
  cases hahead with
  | first prev =>
      have hcut : walkOrder keys = [] ++ key :: after := hall.symm
      exact .behind hc hcut
  | behind present cut =>
      next before old d =>
        subst hall
        have hcut : walkOrder keys = (before ++ [old]) ++ key :: after := by
          rw [cut, List.append_assoc]
          rfl
        exact .behind hc hcut

/-- As many calls as there are items ahead hand them out one by one. -/
theorem enumerate_run (ha : Arranged w m keys) {pstItem : Option PortItem} {prev : NodePtr}
    {after : List PortItem} (hahead : Ahead m keys pstItem prev after)
    (hall : ∀ key ∈ after, (m key).isSome) (outs : List NodePtr)
    (hlen : outs.length = after.length) :
    ∃ seen w', (enumerate pstItem prev outs).run w = .ok (seen, w') ∧ Arranged w' m keys ∧
      List.Forall₂ (HandsOut m) after seen := by
  induction after generalizing w pstItem prev outs with
  | nil =>
      rw [List.length_eq_zero_iff.mp hlen]
      exact ⟨[], w, rfl, ha, .nil⟩
  | cons key after ih =>
      obtain ⟨c, hc⟩ := Option.isSome_iff_exists.mp (hall key (by simp))
      obtain ⟨out, outs, rfl⟩ := List.exists_cons_of_length_eq_add_one hlen
      obtain ⟨w₁, hnext, ha₁⟩ := nextItem_run ha hahead hc out
      obtain ⟨seen, w', hrest, ha', hseen⟩ := ih ha₁ (hahead.next hc)
        (fun key' hkey' => hall key' (by simp [hkey'])) outs (by simpa using hlen)
      have hkey : (c.item key).stPortItem = key := rfl
      refine ⟨_, w', ?_, ha', .cons ⟨c, hc, rfl⟩ hseen⟩
      simp [enumerate, hnext, hkey, hrest]

/-- From every table a run can reach, as many calls of
`PORT_VHash_Get_NextNode` as there are items succeed and hand out every item,
none twice: bucket by bucket, and within a bucket as the keys have come. -/
theorem portRun_enumerates (ops : List PortOp) :
    ∃ replies w m, (portRun true ops).run (vhashInit enVHashMoudleMax) =
        .ok (replies, w) ∧
      Steps MapStep PortMap.empty ops replies m ∧ PortTable w m ∧
      (walkOrder (arrivals ops replies)).Nodup ∧
      (∀ key, key ∈ walkOrder (arrivals ops replies) ↔ (m key).isSome) ∧
      ∀ (prev : NodePtr) (outs : List NodePtr), outs.length = Set.ncard m.keys →
        ∃ seen w', (enumerate none prev outs).run w = .ok (seen, w') ∧ PortTable w' m ∧
          List.Forall₂ (HandsOut m) (walkOrder (arrivals ops replies)) seen := by
  obtain ⟨replies, w, m, hrun, hsteps, ha⟩ := portRun_arranged ops
  refine ⟨replies, w, m, hrun, hsteps, ha.toTable, ha.nodup_walkOrder, ha.mem_walkOrder, ?_⟩
  intro prev outs hlen
  obtain ⟨seen, w', henum, ha', hseen⟩ := enumerate_run ha (.first prev)
    (fun key hkey => (ha.mem_walkOrder key).mp hkey) outs (hlen.trans ha.length_walkOrder.symm)
  exact ⟨seen, w', henum, ha'.toTable, hseen⟩

end Walk

end RedisTrace
