import RedisTrace.Library.Machine
import RedisTrace.PortVHash

/-!
The pool of free nodes. `VHash_Free` puts a node at the end of `FreeQueue` and
`VHash_Malloc` takes one from its front, so that the pool is a queue; both work
on the list alone and leave the mutex to their caller. `VHash_Create_Moudle`
clears the head of the queue with the rest of the block and never calls
`InitializeListHead` on it.
-/

namespace RedisTrace

open CircularList Machine

variable {K N D : Type}

/-- A function of `list.c` applied with nobody asking for the mutex. -/
def onPool {α : Type} (f : ListM Ptr α) : VHashM K N D α := fun h =>
  match f.run h.mem with
  | none => .error .badAddress
  | some (a, m) => .ok (a, {h with mem := m})

/-- The arguments of the traces in `VHash_Malloc`, read only where the module
has a `pfnPrintf`. -/
def printLinks (pfnPrintf : Bool) : VHashM K N D Unit :=
  if pfnPrintf then do
    let _ ← onPool (blink .freeQueue)
    let first ← onPool (flink .freeQueue)
    let _ ← onPool (flink first)
    return ()
  else pure ()

def vhashMalloc (pfnPrintf : Bool) : VHashM K N D NodePtr := do
  printLinks pfnPrintf
  let isEmpty ← onPool (isListEmpty .freeQueue)
  if isEmpty then
    printLinks pfnPrintf
    return none
  else
    let entry ← onPool (removeHeadList .freeQueue)
    modify (fun h => {h with ulListLen := h.ulListLen - 1})
    let pstDateNode ← containingRecord entry
    printLinks pfnPrintf
    return some pstDateNode

def vhashFree (pstDateNode : Nat) : VHashM K N D Unit := do
  onPool (insertTailList .freeQueue (.node pstDateNode))
  modify (fun h => {h with ulListLen := h.ulListLen + 1})

inductive PoolOp where
  | malloc
  | free (pstDateNode : Nat)

/-- `VHash_Free` answers nothing. -/
def poolCall (pfnPrintf : Bool) : PoolOp → VHashM K N D NodePtr
  | .malloc => vhashMalloc pfnPrintf
  | .free pstDateNode => do
      vhashFree pstDateNode
      return none

/-- What the pool is for: a queue of nodes. -/
def queueStep : PoolOp → List Nat → List Nat × NodePtr
  | .malloc, [] => ([], none)
  | .malloc, a :: q => (q, some a)
  | .free a, q => (q ++ [a], none)

/-- The nodes given to `VHash_Free`, in order. -/
def freed : List PoolOp → List Nat
  | [] => []
  | .malloc :: ops => freed ops
  | .free a :: ops => a :: freed ops

/-- What comes out of a queue went in earlier, in the same order and once. -/
theorem queue_order (ops : List PoolOp) (q : List Nat) :
    q ++ freed ops = answers queueStep ops q ++ (run queueStep ops q).1 := by
  induction ops generalizing q with
  | nil => simp [freed, answers, run]
  | cons op ops ih =>
      rw [answers_cons, run, List.append_assoc]
      cases op with
      | malloc =>
          cases q with
          | nil => simpa [queueStep, freed] using ih []
          | cons a q => simpa [queueStep, freed] using ih q
      | free a => simpa [queueStep, freed] using ih (q ++ [a])

/-- `FreeQueue` holds the nodes of the queue, and its counter their number. -/
structure Pooled (h : VHashHead K N D) (q : List Nat) : Prop where
  ring : Ring h.mem .freeQueue (q.map .node)
  length : h.ulListLen = UInt64.ofNat q.length

/-- The calls are answered as a queue answers them, and leave what it holds. -/
def PoolIsQueue (h : VHashHead K N D) (pfnPrintf : Bool) (ops : List PoolOp) : Prop :=
  ∃ h', (ops.mapM (poolCall pfnPrintf)).run h = .ok ((run queueStep ops []).2, h') ∧
    Pooled h' (run queueStep ops []).1

section Queue

variable {h : VHashHead K N D} {q : List Nat}

theorem onPool_run {α : Type} {f : ListM Ptr α} {a : α} {m : Mem Ptr}
    (hrun : f.run h.mem = some (a, m)) : (onPool f).run h = .ok (a, {h with mem := m}) := by
  unfold onPool StateT.run at *
  simp [hrun]

theorem onPool_fault {α : Type} {f : ListM Ptr α} (hrun : f.run h.mem = none) :
    (onPool f).run h = .error .badAddress := by
  unfold onPool StateT.run at *
  simp [hrun]

theorem flink_mapped {m : Mem Ptr} {p : Ptr} (hmapped : (m p).isSome) :
    ∃ v, (flink p).run m = some (v, m) := by
  obtain ⟨entry, hentry⟩ := Option.isSome_iff_exists.mp hmapped
  exact ⟨entry.next, by simp [flink, StateT.run, hentry]⟩

/-- On a well-formed queue the traces read what is there. -/
theorem printLinks_run {xs : List Ptr} (hring : Ring h.mem .freeQueue xs) (pfnPrintf : Bool) :
    (printLinks pfnPrintf).run h = .ok ((), h) := by
  cases pfnPrintf with
  | false => rfl
  | true =>
      have hlast := onPool_run (blink_run hring.last)
      have hfirst := onPool_run (flink_run hring.first)
      have hmem : (xs ++ [Ptr.freeQueue]).head (by simp) ∈ Ptr.freeQueue :: xs := by
        have hne : xs ++ [Ptr.freeQueue] ≠ [] := by simp
        rcases List.mem_append.mp (List.head_mem hne) with hin | hin
        · exact List.mem_cons_of_mem _ hin
        · rw [List.mem_singleton.mp hin]
          exact List.mem_cons_self
      obtain ⟨v, hsecond⟩ := flink_mapped (hring.mapped hmem)
      have hnext := onPool_run hsecond
      simp [printLinks, hlast, hfirst, hnext]

theorem vhashMalloc_empty (hp : Pooled h []) (pfnPrintf : Bool) :
    (vhashMalloc pfnPrintf).run h = .ok (none, h) := by
  have hprint := printLinks_run hp.ring pfnPrintf
  have hempty := onPool_run (isListEmpty_spec hp.ring)
  simp [vhashMalloc, hprint, hempty]

theorem vhashMalloc_first {a : Nat} (hp : Pooled h (a :: q)) (pfnPrintf : Bool) :
    ∃ h', (vhashMalloc pfnPrintf).run h = .ok (some a, h') ∧ Pooled h' q ∧
      ∀ p, (h'.mem p).isSome = (h.mem p).isSome := by
  have hring : Ring h.mem .freeQueue (.node a :: q.map .node) := hp.ring
  obtain ⟨m, hremove, hring', hframe⟩ := removeHeadList_spec hring
  let h' : VHashHead K N D := {h with mem := m, ulListLen := h.ulListLen - 1}
  have hprint := printLinks_run hring pfnPrintf
  have hprint' : (printLinks pfnPrintf).run h' = .ok ((), h') := printLinks_run hring' pfnPrintf
  have hempty := onPool_run (isListEmpty_spec hring)
  have hhead := onPool_run hremove
  refine ⟨h', ?_, ⟨hring', ?_⟩, hframe.mapped⟩
  · simp [h'] at hprint'
    simp [vhashMalloc, hprint, hempty, hhead, containingRecord_run, hprint', h']
  · have hlength := hp.length
    rw [List.length_cons] at hlength
    change h.ulListLen - 1 = _
    rw [hlength]
    simp [UInt64.ofNat_add]

theorem vhashFree_last {a : Nat} (hp : Pooled h q) (ha : a ∉ q)
    (hmapped : (h.mem (.node a)).isSome) :
    ∃ h', (vhashFree a).run h = .ok ((), h') ∧ Pooled h' (q ++ [a]) ∧
      ∀ p, (h'.mem p).isSome = (h.mem p).isSome := by
  have hnew : Ptr.node a ∉ Ptr.freeQueue :: q.map .node := by simpa using ha
  obtain ⟨m, hinsert, hring, hframe⟩ := insertTailList_spec hp.ring hnew hmapped
  have hrun := onPool_run hinsert
  refine ⟨{h with mem := m, ulListLen := h.ulListLen + 1}, ?_, ⟨?_, ?_⟩, hframe.mapped⟩
  · simp [vhashFree, hrun]
  · rw [List.map_append]
    exact hring
  · change h.ulListLen + 1 = _
    rw [hp.length]
    simp [UInt64.ofNat_add]

/-- What a caller owes the pool: it frees nodes of its own that are in no
list. -/
def FreesUnlisted (nodes : Finset Nat) : PoolOp → List Nat → Prop
  | .malloc, _ => True
  | .free a, q => a ∈ nodes ∧ a ∉ q

/-- With its head initialised, `FreeQueue` would be the queue it is meant to
be: one step, and by induction every run. -/
theorem poolCall_queue {nodes : Finset Nat} {op : PoolOp} (hp : Pooled h q)
    (hnodes : ∀ a ∈ nodes, (h.mem (.node a)).isSome) (hop : FreesUnlisted nodes op q)
    (pfnPrintf : Bool) :
    ∃ h', (poolCall pfnPrintf op).run h = .ok ((queueStep op q).2, h') ∧
      Pooled h' (queueStep op q).1 ∧ ∀ a ∈ nodes, (h'.mem (.node a)).isSome := by
  cases op with
  | malloc =>
      cases q with
      | nil => exact ⟨h, vhashMalloc_empty hp pfnPrintf, hp, hnodes⟩
      | cons a q =>
          obtain ⟨h', hrun, hp', hmapped⟩ := vhashMalloc_first hp pfnPrintf
          exact ⟨h', hrun, hp', fun x hx => (hmapped _).trans (hnodes x hx)⟩
  | free a =>
      obtain ⟨ha, hout⟩ := hop
      obtain ⟨h', hrun, hp', hmapped⟩ := vhashFree_last hp hout (hnodes a ha)
      exact ⟨h', by simp [poolCall, queueStep, hrun], hp',
        fun x hx => (hmapped _).trans (hnodes x hx)⟩

theorem poolIsQueue_of_initialised {nodes : Finset Nat} (hp : Pooled h [])
    (hnodes : ∀ a ∈ nodes, (h.mem (.node a)).isSome) (pfnPrintf : Bool) (ops : List PoolOp)
    (hops : Along queueStep (FreesUnlisted nodes) ops []) : PoolIsQueue h pfnPrintf ops := by
  obtain ⟨h', hrun, hp', -⟩ := mapM_follows queueStep
    (fun h q => Pooled h q ∧ ∀ a ∈ nodes, (h.mem (.node a)).isSome)
    (fun h q op hrel hop => poolCall_queue hrel.1 hrel.2 hop pfnPrintf) ops h []
    ⟨hp, hnodes⟩ hops
  exact ⟨h', hrun, hp'⟩

end Queue

section Created

variable {h : VHashHead K N D}

/-- The head of the queue as `memset` leaves it. -/
structure Zeroed (h : VHashHead K N D) : Prop where
  head : h.mem .freeQueue = some ⟨.null, .null⟩
  null : h.mem .null = none

theorem Zeroed.not_pooled (hz : Zeroed h) (q : List Nat) : ¬ Pooled h q := by
  intro hp
  have hfirst := hp.ring.first
  simp only [nextOf, hz.head, Option.map_some, Option.some.injEq] at hfirst
  have hne : q.map Ptr.node ++ [Ptr.freeQueue] ≠ [] := by simp
  have hmem := List.head_mem hne
  rw [← hfirst] at hmem
  simp at hmem

/-- The zeroed queue passes for one that is not empty, and `RemoveHeadList`
follows NULL, unless the traces have done so before. -/
theorem Zeroed.malloc (hz : Zeroed h) (pfnPrintf : Bool) :
    (vhashMalloc pfnPrintf).run h = .error .badAddress := by
  have hnext : (flink .freeQueue).run h.mem = some (.null, h.mem) :=
    flink_run (by simp [nextOf, hz.head])
  have hnull := flink_fault hz.null
  cases pfnPrintf with
  | false =>
      have hempty : (onPool (isListEmpty .freeQueue)).run h = .ok (false, h) := by
        apply onPool_run
        simp [isListEmpty, hnext]
      have hremove : (onPool (removeHeadList .freeQueue)).run h = .error .badAddress := by
        apply onPool_fault
        simp [removeHeadList, hnext, hnull]
      simp [vhashMalloc, printLinks, hempty, hremove]
  | true =>
      have hlast : (onPool (blink .freeQueue)).run h = .ok (.null, h) :=
        onPool_run (blink_run (by simp [prevOf, hz.head]))
      have hfirst : (onPool (flink .freeQueue)).run h = .ok (.null, h) := onPool_run hnext
      have hsecond : (onPool (flink .null)).run h = .error .badAddress := onPool_fault hnull
      simp [vhashMalloc, printLinks, hlast, hfirst, hsecond]

/-- `InsertTailList` writes to the entry it is given, and then through NULL. -/
theorem Zeroed.free (hz : Zeroed h) (a : Nat) : (vhashFree a).run h = .error .badAddress := by
  have hlast : (blink .freeQueue).run h.mem = some (.null, h.mem) :=
    blink_run (by simp [prevOf, hz.head])
  have hinsert : (insertTailList .freeQueue (.node a)).run h.mem = none := by
    cases hnode : h.mem (.node a) with
    | none => simp [insertTailList, hlast, setFlink_fault .freeQueue hnode]
    | some entry =>
        have hne : Ptr.null ≠ .node a := by simp
        have hmapped : (h.mem (.node a)).isSome := by simp [hnode]
        have hmapped' : (setNext h.mem (.node a) .freeQueue (.node a)).isSome := by
          rwa [isSome_setNext]
        have hforth := setFlink_run .freeQueue hmapped
        have hback := setBlink_run .null hmapped'
        have hnull : setPrev (setNext h.mem (.node a) .freeQueue) (.node a) .null .null = none := by
          rw [setPrev_ne _ _ hne, setNext_ne _ _ hne]
          exact hz.null
        simp [insertTailList, hlast, hforth, hback, setFlink_fault (.node a) hnull]
  have hrun : (onPool (insertTailList .freeQueue (.node a))).run h = .error .badAddress :=
    onPool_fault hinsert
  simp [vhashFree, hrun]

theorem Zeroed.poolCall (hz : Zeroed h) (pfnPrintf : Bool) (op : PoolOp) :
    (poolCall pfnPrintf op).run h = .error .badAddress := by
  cases op with
  | malloc => exact hz.malloc pfnPrintf
  | free a => simp [RedisTrace.poolCall, hz.free a]

theorem Zeroed.not_queue (hz : Zeroed h) (pfnPrintf : Bool) (ops : List PoolOp) :
    ¬ PoolIsQueue h pfnPrintf ops := by
  rintro ⟨h', hrun, hp⟩
  cases ops with
  | nil =>
      have hstart : (([] : List PoolOp).mapM (RedisTrace.poolCall pfnPrintf)).run h =
          .ok ([], h) := rfl
      rw [hstart] at hrun
      have hsame : h = h' := (Prod.mk.inj (Except.ok.inj hrun)).2
      rw [← hsame] at hp
      exact hz.not_pooled _ hp
  | cons op ops => simp [hz.poolCall pfnPrintf op] at hrun

/-- The head together with nodes that its callers have allocated. -/
def VHashHead.withNodes (h : VHashHead K N D) (nodes : Finset Nat) : VHashHead K N D :=
  {h with mem := fun p => match p with
    | .node a => if a ∈ nodes then some ⟨.null, .null⟩ else h.mem (.node a)
    | p => h.mem p}

theorem withNodes_mapped (h : VHashHead K N D) {nodes : Finset Nat} {a : Nat} (ha : a ∈ nodes) :
    ((h.withNodes nodes).mem (.node a)).isSome := by
  simp [VHashHead.withNodes, ha]

variable [Zero D] {w : VHashWorld K N D} {enMoudleId : UInt32}

/-- `VHash_Create_Moudle` leaves the queue zeroed. -/
theorem vhashCreateMoudle_zeroed (hid : enMoudleId < w.uiMaxVhashModules)
    (hnone : w.astVHashHead enMoudleId.toNat = none) (m : VHashMoudle K N D) :
    ∃ h, (vhashCreateMoudle enMoudleId (some m) true).run w =
        .ok (vhashOk, w.withHead enMoudleId h) ∧
      h.ulListLen = 0 ∧ ∀ nodes, Zeroed (h.withNodes nodes) := by
  obtain ⟨h, hrun, _, _, _, _, _, hlength, hmem⟩ := vhashCreateMoudle_run hid hnone m
  refine ⟨h, hrun, hlength, fun nodes => ⟨?_, ?_⟩⟩
  · exact hmem .freeQueue (by simp)
  · exact hmem .null (by simp)

/-- No module that has just been created has a pool that works as a queue, for
any sequence of calls. -/
theorem pool_never_queue (hid : enMoudleId < w.uiMaxVhashModules)
    (hnone : w.astVHashHead enMoudleId.toNat = none) (m : VHashMoudle K N D) :
    ∃ h, (vhashCreateMoudle enMoudleId (some m) true).run w =
        .ok (vhashOk, w.withHead enMoudleId h) ∧
      ∀ nodes pfnPrintf ops, ¬ PoolIsQueue (h.withNodes nodes) pfnPrintf ops := by
  obtain ⟨h, hrun, -, hz⟩ := vhashCreateMoudle_zeroed hid hnone m
  exact ⟨h, hrun, fun nodes pfnPrintf ops => (hz nodes).not_queue pfnPrintf ops⟩

/-- One call of `InitializeListHead` is all that is missing. -/
theorem pool_queue_once_initialised (hid : enMoudleId < w.uiMaxVhashModules)
    (hnone : w.astVHashHead enMoudleId.toNat = none) (m : VHashMoudle K N D) :
    ∃ h, (vhashCreateMoudle enMoudleId (some m) true).run w =
        .ok (vhashOk, w.withHead enMoudleId h) ∧
      ∀ nodes pfnPrintf ops, Along queueStep (FreesUnlisted nodes) ops [] →
        ∃ h', (onPool (initializeListHead .freeQueue)).run (h.withNodes nodes) = .ok ((), h') ∧
          PoolIsQueue h' pfnPrintf ops := by
  obtain ⟨h, hrun, hlength, hz⟩ := vhashCreateMoudle_zeroed hid hnone m
  refine ⟨h, hrun, ?_⟩
  intro nodes pfnPrintf ops hops
  have hhead : ((h.withNodes nodes).mem .freeQueue).isSome := by
    rw [(hz nodes).head]
    rfl
  obtain ⟨m', hinit, hring, hframe⟩ := initializeListHead_spec hhead
  have hp : Pooled {h.withNodes nodes with mem := m'} [] := ⟨hring, hlength⟩
  refine ⟨_, onPool_run hinit, poolIsQueue_of_initialised hp ?_ pfnPrintf ops hops⟩
  intro a ha
  exact (hframe.mapped _).trans (withNodes_mapped h ha)

end Created

section Port

theorem pool_never_queue_port :
    ∃ w h, (vhashCreateMoudle enPort (some portMoudle) true).run (vhashInit enVHashMoudleMax) =
        .ok (vhashOk, w) ∧ w.astVHashHead enPort.toNat = some h ∧
      ¬ PoolIsQueue (h.withNodes {7}) false [.free 7, .malloc] := by
  obtain ⟨h, hrun, hnever⟩ :=
    pool_never_queue (w := vhashInit enVHashMoudleMax) enPort_known rfl portMoudle
  exact ⟨_, h, hrun, withHead_head _ h, hnever {7} false [.free 7, .malloc]⟩

/-- The first `VHash_Malloc` on the connection table should say that the pool
is empty. -/
theorem pool_malloc_faults :
    ∃ w h, (vhashCreateMoudle enPort (some portMoudle) true).run (vhashInit enVHashMoudleMax) =
        .ok (vhashOk, w) ∧ w.astVHashHead enPort.toNat = some h ∧
      (poolCall false .malloc).run (h.withNodes ∅) = .error .badAddress ∧
      ¬ PoolIsQueue (h.withNodes ∅) false [.malloc] := by
  obtain ⟨h, hrun, -, hz⟩ :=
    vhashCreateMoudle_zeroed (w := vhashInit enVHashMoudleMax) enPort_known rfl portMoudle
  exact ⟨_, h, hrun, withHead_head _ h, (hz ∅).poolCall false .malloc,
    (hz ∅).not_queue false [.malloc]⟩

end Port

end RedisTrace
