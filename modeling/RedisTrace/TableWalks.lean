import RedisTrace.Tables

/-!
Walks over a module that is in use. A caller asks `VHash_Get_NextNode` again and
again for the node behind the one handed out last, and in between data is added,
updated and deleted. What is stored when the walk begins and deleted at no time
during it is handed out once, in the order of the buckets.
-/

namespace RedisTrace

open Run Keyed

variable {K N D : Type}

/-- The key and the address of the node handed out last. -/
abbrev Cursor (K : Type) := Option (K × Nat)

inductive WalkStep (K N : Type) where
  | call (c : TableCall K N)
  | advance

inductive WalkReply (K : Type) where
  | call (reply : VHashReply)
  | node (key : Option K)

def WalkReply.handedOut : WalkReply K → List K
  | .call _ => []
  | .node key => key.toList

def TableCall.deletes [DecidableEq K] : TableCall K N → K → Bool
  | .destory, _ | .clean, _ => true
  | .del key, k => key = k
  | .create _, _ | .get _ _, _ | .add _ _ _, _ | .next _ _, _ | .stat _, _ | .total _, _ => false

def WalkStep.deletes [DecidableEq K] : WalkStep K N → K → Bool
  | .call c, k => c.deletes k
  | .advance, _ => false

/-- The key behind an address that was handed out. -/
def readKey (f : KeyedMoudle K N D) (enMoudleId : UInt32) (a : Nat) : VHashW K N D K := fun w =>
  match w.astVHashHead enMoudleId.toNat with
  | none => .error .badAddress
  | some h => if a ∈ h.live then .ok (f.storedKey (h.pData a), w) else .error .badAddress

/-- One step of a walk. The caller's pointer is NULL before the call that is to
set it, since the return code does not tell whether there was a next node. -/
def walkCall [Zero D] (f : KeyedMoudle K N D) (enMoudleId : UInt32) :
    WalkStep K N → StateT (VHashWorld K N D × Cursor K) (Except Fault) (WalkReply K)
  | .call c, (w, cursor) => do
      let (reply, w) ← (vhashCall (c.call f enMoudleId)).run w
      return (.call reply, (w, cursor))
  | .advance, (w, cursor) => do
      let (reply, w) ← (vhashCall ((TableCall.next cursor none).call f enMoudleId)).run w
      match reply with
      | .node (_, some (some a)) =>
          let (key, w) ← (readKey f enMoudleId a).run w
          return (.node (some key), (w, some (key, a)))
      | _ => return (.node none, (w, cursor))

namespace KeyedMoudle

variable {f : KeyedMoudle K N D}

/-- The keys in the order in which `VHash_Get_NextNode` comes to them. -/
def Table.keys (t : f.Table) : List K := t.order f.bucket f.uiBucketCount.toNat

variable [DecidableEq K]

variable (f) in
/-- One step of a walk over the map. The node a walk stands on is not deleted. -/
def walkStep [Zero D] : WalkStep K N → StateT (f.Table × Cursor K) Option (WalkReply K)
  | .call c, (t, cursor) =>
      if cursor.any (fun node => c.deletes node.1) then none
      else
        match t.step c with
        | some (reply, some t) => some (.call reply, (t, cursor))
        | _ => none
  | .advance, (t, cursor) =>
      match (after (cursor.map Prod.fst) t.keys).head? with
      | none => some (.node none, (t, cursor))
      | some key => some (.node (some key), (t, (t.lookup key).map (fun e => (key, e.1))))

/-- The node the walk stands on is stored. -/
def Table.Stands (t : f.Table) (cursor : Cursor K) : Prop :=
  ∀ key a, cursor = some (key, a) → (t.lookup key).map Prod.fst = some a

end KeyedMoudle

section Keys

variable {f : KeyedMoudle K N D} {t t' : f.Table} [DecidableEq K] {key : K}

theorem mem_keys : key ∈ t.keys ↔ (t.lookup key).isSome := Keyed.mem_order (f.bucket_lt key)

omit [DecidableEq K] in
theorem nodup_keys : t.keys.Nodup := Keyed.nodup_order

theorem mem_keys_of_address {a : Nat} (hstored : (t.lookup key).map Prod.fst = some a) :
    key ∈ t.keys := by
  obtain ⟨e, hlook, -⟩ := Option.map_eq_some_iff.mp hstored
  rw [mem_keys, hlook]
  rfl

variable [Zero D] {c : TableCall K N} {reply : VHashReply}

/-- What a call on a module that is there leaves of the map, if it leaves one. -/
theorem step_cases (hstep : t.step c = some (reply, some t')) :
    t' = t ∨ (t' = .empty ∧ ∀ k, c.deletes k = true) ∨
      (∃ e, t.lookup (f.keyOf e) = none ∧ t' = t.push e) ∨
      (∃ data, t' = t.rewrite (f.newKey data) (fun e => (e.1, f.updated e.2 data))
        (f.keyOf_updated data)) ∨
      ∃ k, c.deletes k = true ∧ t' = t.remove k := by
  cases c with
  | create mallocOk | get key ppData | stat puiNodeStat | total puiTotal =>
      cases hstep
      exact .inl rfl
  | next prev ppNodeData =>
      obtain ⟨answer, -, hend⟩ := Option.map_eq_some_iff.mp hstep
      cases hend
      exact .inl rfl
  | destory => cases hstep
  | clean =>
      cases hstep
      exact .inr (.inl ⟨rfl, fun _ => rfl⟩)
  | add data ppNodeData want =>
      cases hstep
      unfold KeyedMoudle.Table.add
      cases hold : t.lookup (f.newKey data) with
      | none =>
          cases want with
          | none => exact .inl rfl
          | some want =>
              have hkey : ∀ a, f.keyOf (a, (f.cpy 0 data f.uiDataLen).2) = f.newKey data :=
                fun _ => f.cpy_key _ _
              refine .inr (.inr (.inl ⟨_, ?_, rfl⟩))
              rw [hkey]
              exact hold
      | some e =>
          by_cases hupdate : f.isUpdate e.2 data = vhashOk
          · simp only [if_pos hupdate]
            exact .inr (.inr (.inr (.inl ⟨data, rfl⟩)))
          · left
            simp only [if_neg hupdate]
  | del key =>
      cases hstep
      unfold KeyedMoudle.Table.del
      cases t.lookup key with
      | none => exact .inl rfl
      | some e => exact .inr (.inr (.inr (.inr ⟨key, by simp [TableCall.deletes], rfl⟩)))

/-- A call leaves the nodes it does not delete where they are. -/
theorem step_lookup (hstep : t.step c = some (reply, some t')) {a : Nat}
    (hstored : (t.lookup key).map Prod.fst = some a) (hkept : c.deletes key = false) :
    (t'.lookup key).map Prod.fst = some a := by
  obtain ⟨e, hlook, rfl⟩ := Option.map_eq_some_iff.mp hstored
  rcases step_cases hstep with rfl | ⟨-, hall⟩ | ⟨e', -, rfl⟩ | ⟨data, rfl⟩ | ⟨k, hk, rfl⟩
  · exact hstored
  · rw [hall] at hkept
    cases hkept
  · rw [Keyed.lookup_push _ hlook]
    rfl
  · rw [Keyed.lookup_rewrite _ _ hlook, Option.map_some]
    by_cases hkey : f.keyOf e = f.newKey data
    · rw [if_pos hkey]
    · rw [if_neg hkey]
  · have hne : key ≠ k := by
      rintro rfl
      rw [hk] at hkept
      cases hkept
    rw [Keyed.lookup_remove hne hlook]
    rfl

/-- And in their order. -/
theorem step_keys (hstep : t.step c = some (reply, some t')) {q : K → Bool}
    (hq : ∀ k, q k = true → k ∈ t.keys ∧ c.deletes k = false) :
    t'.keys.filter q = t.keys.filter q := by
  have hdeleted : ∀ k, c.deletes k = true → q k = false := by
    intro k hk
    cases hqk : q k with
    | false => rfl
    | true =>
        have hkept := (hq k hqk).2
        rw [hk] at hkept
        cases hkept
  rcases step_cases hstep with rfl | ⟨-, hall⟩ | ⟨e, hnew, rfl⟩ | ⟨data, rfl⟩ | ⟨k, hk, rfl⟩
  · rfl
  · have hnone : q = fun _ => false := funext fun k => hdeleted k (hall k)
    rw [hnone, List.filter_false, List.filter_false]
  · apply Keyed.filter_order_push hnew
    cases hqe : q (f.keyOf e) with
    | false => rfl
    | true =>
        have hstored := mem_keys.mp (hq _ hqe).1
        rw [hnew] at hstored
        cases hstored
  · exact congrArg (List.filter q) (Keyed.order_rewrite _ _)
  · exact Keyed.filter_order_remove (hdeleted k hk)

end Keys

section Steps

variable {f : KeyedMoudle K N D} {t t' : f.Table} [Zero D] [DecidableEq K]
variable {cursor cursor' : Cursor K} {reply : WalkReply K}

/-- Another call, the end of the keys, or the next of them. -/
theorem walkStep_cases {s : WalkStep K N}
    (hstep : (f.walkStep s).run (t, cursor) = some (reply, (t', cursor'))) :
    (∃ c answer, s = .call c ∧ (∀ key a, cursor = some (key, a) → c.deletes key = false) ∧
      t.step c = some (answer, some t') ∧ reply = .call answer ∧ cursor' = cursor) ∨
    (s = .advance ∧ t' = t ∧ after (cursor.map Prod.fst) t.keys = [] ∧ reply = .node none ∧
      cursor' = cursor) ∨
    ∃ key rest e, s = .advance ∧ t' = t ∧ after (cursor.map Prod.fst) t.keys = key :: rest ∧
      t.lookup key = some e ∧ reply = .node (some key) ∧ cursor' = some (key, e.1) := by
  cases s with
  | call c =>
      left
      have hcall : (if cursor.any (fun node => c.deletes node.1) then none
          else match t.step c with
            | some (reply, some t) => some (WalkReply.call reply, (t, cursor))
            | _ => none) = some (reply, (t', cursor')) := hstep
      by_cases hdeletes : cursor.any (fun node => c.deletes node.1) = true
      · rw [if_pos hdeletes] at hcall
        cases hcall
      · rw [if_neg hdeletes] at hcall
        refine ⟨c, ?_⟩
        split at hcall
        · next answer t₁ hend =>
            cases hcall
            refine ⟨answer, rfl, ?_, hend, rfl, rfl⟩
            rintro key a rfl
            simpa using hdeletes
        · cases hcall
  | advance =>
      right
      have hadvance : (match (after (cursor.map Prod.fst) t.keys).head? with
          | none => some (WalkReply.node none, (t, cursor))
          | some key => some (.node (some key), (t, (t.lookup key).map (fun e => (key, e.1))))) =
            some (reply, (t', cursor')) := hstep
      cases hafter : after (cursor.map Prod.fst) t.keys with
      | nil =>
          left
          rw [hafter] at hadvance
          cases hadvance
          exact ⟨rfl, rfl, rfl, rfl, rfl⟩
      | cons key rest =>
          right
          rw [hafter] at hadvance
          have hkey : key ∈ t.keys := (after_suffix _ _).subset (by rw [hafter]; simp)
          obtain ⟨e, hlook⟩ := Option.isSome_iff_exists.mp (mem_keys.mp hkey)
          simp only [List.head?_cons, hlook, Option.map_some] at hadvance
          cases hadvance
          exact ⟨key, rest, e, rfl, rfl, rfl, hlook, rfl, rfl⟩

theorem walkStep_stands {s : WalkStep K N} (hcursor : t.Stands cursor)
    (hstep : (f.walkStep s).run (t, cursor) = some (reply, (t', cursor'))) :
    t'.Stands cursor' := by
  rcases walkStep_cases hstep with ⟨c, answer, rfl, hkept, hcall, rfl, rfl⟩ |
    ⟨rfl, rfl, -, rfl, rfl⟩ | ⟨key, rest, e, rfl, rfl, -, hlook, rfl, rfl⟩
  · intro key a hnode
    exact step_lookup hcall (hcursor key a hnode) (hkept key a hnode)
  · exact hcursor
  · rintro key' a ⟨rfl, rfl⟩
    rw [hlook]
    rfl

/-- Of keys that are stored and not deleted, those ahead of the walk are handed
out now or are still ahead. -/
theorem walkStep_ahead {s : WalkStep K N} (hcursor : t.Stands cursor) {q : K → Bool}
    (hq : ∀ k, q k = true → k ∈ t.keys ∧ s.deletes k = false)
    (hstep : (f.walkStep s).run (t, cursor) = some (reply, (t', cursor'))) :
    (after (cursor.map Prod.fst) t.keys).filter q =
      reply.handedOut.filter q ++ (after (cursor'.map Prod.fst) t'.keys).filter q := by
  rcases walkStep_cases hstep with ⟨c, answer, rfl, hkept, hcall, rfl, rfl⟩ |
    ⟨rfl, rfl, -, rfl, rfl⟩ | ⟨key, rest, e, rfl, rfl, hafter, hlook, rfl, rfl⟩
  · -- The node the walk stands on may be deleted later; it counts now.
    let p : K → Bool := fun k => q k || (cursor'.map Prod.fst = some k)
    have hp : ∀ k, p k = true → k ∈ t.keys ∧ c.deletes k = false := by
      intro k hk
      rcases Bool.or_eq_true_iff.mp hk with hk | hk
      · exact hq k hk
      · obtain ⟨⟨key, a⟩, hnode, rfl⟩ := Option.map_eq_some_iff.mp (of_decide_eq_true hk)
        exact ⟨mem_keys_of_address (hcursor key a hnode), hkept key a hnode⟩
    have hprev : ∀ k, cursor'.map Prod.fst = some k → k ∈ t'.keys ∧ p k = true := by
      intro k hk
      obtain ⟨⟨key, a⟩, hnode, rfl⟩ := Option.map_eq_some_iff.mp hk
      exact ⟨mem_keys_of_address (step_lookup hcall (hcursor key a hnode) (hkept key a hnode)),
        by simp [p, hk]⟩
    have hagree := after_agree (step_keys hcall hp) hprev
    have hless : ∀ l : List K, l.filter q = (l.filter p).filter q := by
      intro l
      rw [List.filter_filter]
      apply List.filter_congr
      intro k _
      cases hk : q k <;> simp [p, hk]
    rw [hless, hless (after _ t'.keys), hagree]
    rfl
  · rfl
  · have hnext : after (some key) t'.keys = rest := after_next nodup_keys hafter
    rw [hafter]
    simp only [Option.map_some, hnext]
    exact List.filter_append [key] rest

theorem walkStep_mem_keys {s : WalkStep K N} {key : K}
    (hstep : (f.walkStep s).run (t, cursor) = some (reply, (t', cursor')))
    (hstored : key ∈ t.keys) (hkept : s.deletes key = false) : key ∈ t'.keys := by
  rcases walkStep_cases hstep with ⟨c, answer, rfl, -, hcall, rfl, rfl⟩ |
    ⟨rfl, rfl, -, rfl, rfl⟩ | ⟨next, rest, e, rfl, rfl, -, -, rfl, rfl⟩
  · obtain ⟨e, hlook⟩ := Option.isSome_iff_exists.mp (mem_keys.mp hstored)
    exact mem_keys_of_address (step_lookup hcall (a := e.1) (by rw [hlook]; rfl) hkept)
  · exact hstored
  · exact hstored

/-- A whole walk. -/
theorem walk_ahead (steps : List (WalkStep K N)) {walked : List (WalkReply K)}
    (hcursor : t.Stands cursor) {q : K → Bool}
    (hq : ∀ k, q k = true → k ∈ t.keys ∧ ∀ s ∈ steps, s.deletes k = false)
    (hwalk : (steps.mapM f.walkStep).run (t, cursor) = some (walked, (t', cursor'))) :
    (after (cursor.map Prod.fst) t.keys).filter q =
      (walked.flatMap WalkReply.handedOut).filter q ++
        (after (cursor'.map Prod.fst) t'.keys).filter q := by
  induction steps generalizing t cursor walked with
  | nil =>
      cases hwalk
      rfl
  | cons s steps ih =>
      obtain ⟨⟨reply, t₁, cursor₁⟩, hstep, hrest⟩ := Option.bind_eq_some_iff.mp (by
        rw [List.mapM_cons] at hwalk
        exact hwalk)
      obtain ⟨⟨rest, t₂, cursor₂⟩, hrest, hend⟩ := Option.bind_eq_some_iff.mp hrest
      cases hend
      have hone := walkStep_ahead hcursor
        (fun k hk => ⟨(hq k hk).1, (hq k hk).2 s (by simp)⟩) hstep
      have hkept : ∀ k, q k = true → k ∈ t₁.keys ∧ ∀ s ∈ steps, s.deletes k = false := by
        intro k hk
        obtain ⟨hstored, hall⟩ := hq k hk
        exact ⟨walkStep_mem_keys hstep hstored (hall s (by simp)),
          fun s hs => hall s (List.mem_cons_of_mem _ hs)⟩
      rw [hone, ih (walkStep_stands hcursor hstep) hkept hrest]
      simp

/-- A walk that was told of no next node has nothing ahead. -/
theorem walk_end (steps : List (WalkStep K N)) {walked : List (WalkReply K)}
    (hwalk : (steps.mapM f.walkStep).run (t, cursor) = some (walked, (t', cursor')))
    (hlast : walked.getLast? = some (.node none)) :
    after (cursor'.map Prod.fst) t'.keys = [] := by
  rcases List.eq_nil_or_concat steps with rfl | ⟨first, s, rfl⟩
  · cases hwalk
    cases hlast
  · obtain ⟨⟨before, t₁, cursor₁⟩, -, hrest⟩ := Option.bind_eq_some_iff.mp (by
      rw [List.concat_eq_append, List.mapM_append] at hwalk
      exact hwalk)
    obtain ⟨⟨ends, t₂, cursor₂⟩, hsingle, hend⟩ := Option.bind_eq_some_iff.mp hrest
    obtain ⟨⟨reply, t₃, cursor₃⟩, hstep, hpure⟩ := Option.bind_eq_some_iff.mp (by
      rw [List.mapM_cons] at hsingle
      exact hsingle)
    cases hpure
    cases hend
    obtain rfl : reply = .node none := by simpa using hlast
    rcases walkStep_cases hstep with ⟨c, answer, -, -, -, hreply, -⟩ |
      ⟨-, rfl, hafter, -, rfl⟩ | ⟨key, rest, e, -, -, -, -, hreply, -⟩
    · cases hreply
    · exact hafter
    · cases hreply

end Steps

section Calls

variable {f : KeyedMoudle K N D} {enMoudleId : UInt32} {w : VHashWorld K N D} {t : f.Table}
variable [DecidableEq K] {cursor : Cursor K} {key : K} {e : Stored D}

theorem Backs.readKey (hb : Backs f enMoudleId w (some t)) (hlook : t.lookup key = some e) :
    (RedisTrace.readKey f enMoudleId e.1).run w = .ok (key, w) := by
  obtain ⟨h, bs, hw, ht⟩ := hb
  obtain ⟨he, rfl⟩ := t.lookup_eq_some_iff.mp hlook
  obtain ⟨hlive, hdata⟩ := (ht.mem_iff hw.chains.toLists).mp he
  simp [RedisTrace.readKey, StateT.run, hw.head, hlive, hdata, KeyedMoudle.keyOf]

/-- The first of some entries of the map, by its key and by its address. -/
theorem head_address {es : List (Stored D)} (hes : ∀ e ∈ es, e ∈ t.entries) :
    (es.map Prod.fst).head? =
      ((es.map f.keyOf).head?.bind (fun key => t.lookup key)).map Prod.fst := by
  cases es with
  | nil => rfl
  | cons e es =>
      have hlook : t.lookup (f.keyOf e) = some e :=
        t.lookup_eq_some_iff.mpr ⟨hes e (by simp), rfl⟩
      simp [hlook]

/-- The next node is the one of the next key. -/
theorem Backs.next_eq (hb : Backs f enMoudleId w (some t)) (hcursor : t.Stands cursor) :
    t.next cursor none = some (.node (vhashOk,
      some (((after (cursor.map Prod.fst) t.keys).head?.bind
        (fun key => t.lookup key)).map Prod.fst))) := by
  obtain ⟨h, bs, hw, ht⟩ := hb
  have hentries : ∀ e ∈ t.byBucket f.bucket f.uiBucketCount.toNat, e ∈ t.entries := by
    intro e he
    obtain ⟨b, -, he⟩ := List.mem_flatMap.mp he
    exact (Keyed.mem_inBucket.mp he).1
  cases cursor with
  | none =>
      simp only [KeyedMoudle.Table.next, Option.or_none]
      rw [KeyedMoudle.Table.enumeration, head_address hentries]
      rfl
  | some node =>
      obtain ⟨key, a⟩ := node
      obtain ⟨e, hlook, rfl⟩ := Option.map_eq_some_iff.mp (hcursor key a rfl)
      obtain ⟨he, rfl⟩ := t.lookup_eq_some_iff.mp hlook
      have hmem : e ∈ t.byBucket f.bucket f.uiBucketCount.toNat :=
        List.mem_flatMap.mpr ⟨f.bucket (f.keyOf e), List.mem_range.mpr (f.bucket_lt _),
          Keyed.mem_inBucket.mpr ⟨he, rfl⟩⟩
      obtain ⟨left, right, hcut⟩ := List.append_of_mem hmem
      have haddress : t.enumeration = left.map Prod.fst ++ e.1 :: right.map Prod.fst := by
        rw [KeyedMoudle.Table.enumeration, hcut, List.map_append, List.map_cons]
      have hkeys : t.keys = left.map f.keyOf ++ f.keyOf e :: right.map f.keyOf := by
        rw [KeyedMoudle.Table.keys, Keyed.order, hcut, List.map_append, List.map_cons]
      have hnodup : (left.map Prod.fst ++ e.1 :: right.map Prod.fst).Nodup := by
        rw [← haddress, ht.enumeration_eq hw.moudle]
        exact hw.chains.toLists.nodup_nodesFrom 0 h.bucketCount
      have hleft : f.keyOf e ∉ left.map f.keyOf := by
        intro hin
        have hdistinct : t.keys.Nodup := nodup_keys
        rw [hkeys] at hdistinct
        exact (List.disjoint_of_nodup_append hdistinct) hin (by simp)
      have hnext : (behind e.1 t.enumeration).or none = (right.map Prod.fst).head? := by
        rw [haddress, behind_eq hnodup, Option.or_none]
      have hahead : after (some (f.keyOf e)) t.keys = right.map f.keyOf := by
        rw [hkeys, after_cut hleft]
      simp only [KeyedMoudle.Table.next, hlook, Option.map_some, if_true, hnext, hahead]
      rw [head_address (fun e' he' => hentries e' (by simp [hcut, he']))]

variable [Zero D] {s : WalkStep K N} {reply : WalkReply K} {t' : f.Table} {cursor' : Cursor K}

omit [DecidableEq K] in
theorem walkCall_call {c : TableCall K N} {w' : VHashWorld K N D} {answer : VHashReply}
    (hrun : (vhashCall (c.call f enMoudleId)).run w = .ok (answer, w')) :
    (walkCall f enMoudleId (.call c)).run (w, cursor) = .ok (.call answer, (w', cursor)) := by
  unfold walkCall StateT.run at *
  simp [hrun]

omit [DecidableEq K] in
theorem walkCall_last {w' : VHashWorld K N D} {ret : UInt32}
    (hrun : (vhashCall ((TableCall.next cursor none).call f enMoudleId)).run w =
      .ok (.node (ret, some none), w')) :
    (walkCall f enMoudleId .advance).run (w, cursor) = .ok (.node none, (w', cursor)) := by
  unfold walkCall StateT.run at *
  simp [hrun]

omit [DecidableEq K] in
theorem walkCall_next {w' : VHashWorld K N D} {ret : UInt32} {a : Nat}
    (hrun : (vhashCall ((TableCall.next cursor none).call f enMoudleId)).run w =
      .ok (.node (ret, some (some a)), w'))
    (hread : (readKey f enMoudleId a).run w' = .ok (key, w')) :
    (walkCall f enMoudleId .advance).run (w, cursor) =
      .ok (.node (some key), (w', some (key, a))) := by
  unfold walkCall StateT.run at *
  simp [hrun, hread]

/-- A step of the walk over the module goes as the one over the map. -/
theorem walkCall_run (hb : Backs f enMoudleId w (some t)) (hcursor : t.Stands cursor)
    (hstep : (f.walkStep s).run (t, cursor) = some (reply, (t', cursor'))) :
    ∃ w', (walkCall f enMoudleId s).run (w, cursor) = .ok (reply, (w', cursor')) ∧
      Backs f enMoudleId w' (some t') := by
  have hnext := hb.next_eq hcursor
  rcases walkStep_cases hstep with ⟨c, answer, rfl, hkept, hcall, rfl, rfl⟩ |
    ⟨rfl, rfl, hafter, rfl, rfl⟩ | ⟨key, rest, e, rfl, rfl, hafter, hlook, rfl, rfl⟩
  · obtain ⟨w', hrun, -, hb'⟩ := slotStep_answers (s := some t) hb hcall
    exact ⟨w', walkCall_call hrun, hb'⟩
  · rw [hafter] at hnext
    obtain ⟨w', hrun, -, hb'⟩ := slotStep_answers (s := some t') (c := .next cursor' none) hb
      (congrArg (Option.map (·, some t')) hnext)
    exact ⟨w', walkCall_last hrun, hb'⟩
  · rw [hafter] at hnext
    simp only [List.head?_cons, Option.bind_some, hlook, Option.map_some] at hnext
    obtain ⟨w', hrun, -, hb'⟩ := slotStep_answers (s := some t') (c := .next cursor none) hb
      (congrArg (Option.map (·, some t')) hnext)
    exact ⟨w', walkCall_next hrun (hb'.readKey hlook), hb'⟩

end Calls

section Walks

variable [Zero D] [DecidableEq K]

/-- Stored at the beginning, and deleted by none of the steps. -/
def KeyedMoudle.Table.survives {f : KeyedMoudle K N D} (t : f.Table)
    (steps : List (WalkStep K N)) (key : K) : Bool :=
  (t.lookup key).isSome && steps.all (fun s => !s.deletes key)

/-- A walk over a module that is in use comes to its end. Whatever is added,
updated and deleted meanwhile, of the keys that survive it the walk hands out
each once, in the order of the buckets; when it is told of no next node it has
handed out all of them. -/
theorem walk_survivors (f : KeyedMoudle K N D) (uiMaxVhashModules enMoudleId : UInt32)
    (cs : List (TableCall K N)) {replies : List VHashReply} {t t' : f.Table}
    (steps : List (WalkStep K N)) {walked : List (WalkReply K)} {cursor : Cursor K}
    (hmap : (cs.mapM (f.slotStep (enMoudleId < uiMaxVhashModules))).run none =
      some (replies, some t))
    (hwalk : (steps.mapM f.walkStep).run (t, none) = some (walked, (t', cursor))) :
    ∃ w w', (cs.mapM (fun c => vhashCall (c.call f enMoudleId))).run
        (vhashInit uiMaxVhashModules) = .ok (replies, w) ∧
      (steps.mapM (walkCall f enMoudleId)).run (w, none) = .ok (walked, (w', cursor)) ∧
      ∃ rest, t.keys.filter (t.survives steps) =
          (walked.flatMap WalkReply.handedOut).filter (t.survives steps) ++ rest ∧
        (walked.getLast? = some (.node none) → rest = []) := by
  obtain ⟨w, hrun, hb⟩ := tableCalls_run f uiMaxVhashModules enMoudleId cs hmap
  let during : VHashWorld K N D × Cursor K → f.Table × Cursor K → Prop := fun w t =>
    w.2 = t.2 ∧ Backs f enMoudleId w.1 (some t.1) ∧ t.1.Stands t.2
  have hsteps : ∀ s ∈ steps, ∀ w t reply t', during w t →
      (f.walkStep s).run t = some (reply, t') →
      ∃ w', (walkCall f enMoudleId s).run w = .ok (reply, w') ∧ during w' t' := by
    rintro s - ⟨w, cursor⟩ ⟨t, -⟩ reply ⟨t', cursor'⟩ ⟨rfl, hb, hcursor⟩ hstep
    obtain ⟨w', hrun, hb'⟩ := walkCall_run hb hcursor hstep
    exact ⟨(w', cursor'), hrun, rfl, hb', walkStep_stands hcursor hstep⟩
  have hfirst : t.Stands none := by
    intro key a hnode
    cases hnode
  obtain ⟨⟨w', cursor'⟩, hwalked, rfl, -⟩ :=
    mapM_follows during steps hsteps (s := (w, none)) ⟨rfl, hb, hfirst⟩ hwalk
  have hsurvives : ∀ key, t.survives steps key = true →
      key ∈ t.keys ∧ ∀ s ∈ steps, s.deletes key = false := by
    intro key hkey
    simpa [KeyedMoudle.Table.survives, mem_keys] using hkey
  refine ⟨w, w', hrun, hwalked, _, walk_ahead steps hfirst hsurvives hwalk, ?_⟩
  intro hlast
  rw [walk_end steps hwalk hlast]
  rfl

/-- Another connection, in the bucket behind. -/
def laterKey : PortItem := ⟨6635, 40000, 0x0a0a0066, 0x0a0a0067⟩

def threeItems : List (TableCall PortItem PortItem) :=
  [.create true, .add thereKey none (some 7), .add backKey none (some 8),
    .add laterKey none (some 9)]

/-- The first connection is deleted once the walk is past it, and comes again
behind the second, where the walk meets it once more. -/
def busyWalk : List (WalkStep PortItem PortItem) :=
  [.advance, .advance, .call (.del thereKey), .call (.add thereKey none (some 7)), .advance,
    .advance, .advance]

set_option maxRecDepth 20000 in
theorem walk_survivors_busy :
    ∃ w w', (threeItems.mapM (fun c => vhashCall (c.call portKeyed 0))).run (vhashInit 1) =
        .ok ([.code vhashOk, .node (vhashOk, none), .node (vhashOk, none),
          .node (vhashOk, none)], w) ∧
      (busyWalk.mapM (walkCall portKeyed 0)).run (w, none) =
        .ok ([.node (some thereKey), .node (some backKey), .call (.code vhashOk),
          .call (.node (vhashOk, none)), .node (some thereKey), .node (some laterKey),
          .node none], (w', some (laterKey, 9))) := by
  obtain ⟨w, w', hrun, hwalk, -⟩ := walk_survivors portKeyed 1 0 threeItems busyWalk rfl rfl
  exact ⟨w, w', hrun, hwalk⟩

end Walks

end RedisTrace
