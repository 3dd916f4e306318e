import RedisTrace.Library.CircularList

/-!
The intrusive list of `list.c`. A `LIST_ENTRY` is one cell of a partial
memory, `Flink` its forward and `Blink` its backward link. Every operation is
the sequence of loads and stores of the source; it has no result when it
follows a link into memory that holds no `LIST_ENTRY`.
-/

namespace RedisTrace

open CircularList

/-- Code that reads and writes the cells of one memory. -/
abbrev ListM (A : Type) := StateT (Mem A) Option

section Operations

variable {A : Type}

def flink (p : A) : ListM A A := fun m => (m p).map (fun e => (e.next, m))

def blink (p : A) : ListM A A := fun m => (m p).map (fun e => (e.prev, m))

variable [DecidableEq A]

def setFlink (p v : A) : ListM A Unit := fun m =>
  (m p).map (fun _ => ((), setNext m p v))

def setBlink (p v : A) : ListM A Unit := fun m =>
  (m p).map (fun _ => ((), setPrev m p v))

def isListEmpty (ListHead : A) : ListM A Bool := do
  let next ← flink ListHead
  return next = ListHead

def initializeListHead (ListHead : A) : ListM A Unit := do
  setBlink ListHead ListHead
  setFlink ListHead ListHead

def removeEntryList (Entry : A) : ListM A Bool := do
  let Flink ← flink Entry
  let Blink ← blink Entry
  setFlink Blink Flink
  setBlink Flink Blink
  return Flink = Blink

def removeHeadList (ListHead : A) : ListM A A := do
  let Entry ← flink ListHead
  let Flink ← flink Entry
  setFlink ListHead Flink
  setBlink Flink ListHead
  return Entry

def removeTailList (ListHead : A) : ListM A A := do
  let Entry ← blink ListHead
  let Blink ← blink Entry
  setBlink ListHead Blink
  setFlink Blink ListHead
  return Entry

def insertTailList (ListHead Entry : A) : ListM A Unit := do
  let Blink ← blink ListHead
  setFlink Entry ListHead
  setBlink Entry Blink
  setFlink Blink Entry
  setBlink ListHead Entry

def insertHeadList (ListHead Entry : A) : ListM A Unit := do
  let Flink ← flink ListHead
  setFlink Entry Flink
  setBlink Entry ListHead
  setBlink Flink Entry
  setFlink ListHead Entry

def insertBeforeEntry (BaseEntry InsertEntry : A) : ListM A Unit := do
  let Blink ← blink BaseEntry
  setBlink BaseEntry InsertEntry
  setFlink InsertEntry BaseEntry
  setBlink InsertEntry Blink
  setFlink Blink InsertEntry

def changeHead (pOldhead pNewhead : A) : ListM A Unit := do
  initializeListHead pNewhead
  if ← isListEmpty pOldhead then
    return ()
  else
    let Flink ← flink pOldhead
    let Blink ← blink pOldhead
    setBlink Flink pNewhead
    setFlink Blink pNewhead
    setFlink pNewhead Flink
    setBlink pNewhead Blink
    initializeListHead pOldhead

end Operations

section Runs

variable {A : Type}

theorem flink_run {m : Mem A} {p v : A} (h : nextOf m p = some v) :
    (flink p).run m = some (v, m) := by
  unfold nextOf at h
  obtain ⟨l, hl, hv⟩ := Option.map_eq_some_iff.mp h
  simp [flink, StateT.run, hl, hv]

theorem flink_fault {m : Mem A} {p : A} (h : m p = none) : (flink p).run m = none := by
  simp [flink, StateT.run, h]

theorem blink_run {m : Mem A} {p v : A} (h : prevOf m p = some v) :
    (blink p).run m = some (v, m) := by
  unfold prevOf at h
  obtain ⟨l, hl, hv⟩ := Option.map_eq_some_iff.mp h
  simp [blink, StateT.run, hl, hv]

variable [DecidableEq A]

theorem setFlink_run {m : Mem A} {p : A} (v : A) (h : (m p).isSome) :
    (setFlink p v).run m = some ((), setNext m p v) := by
  obtain ⟨l, hl⟩ := Option.isSome_iff_exists.mp h
  simp [setFlink, StateT.run, hl]

theorem setFlink_fault {m : Mem A} {p : A} (v : A) (h : m p = none) :
    (setFlink p v).run m = none := by
  simp [setFlink, StateT.run, h]

theorem setBlink_run {m : Mem A} {p : A} (v : A) (h : (m p).isSome) :
    (setBlink p v).run m = some ((), setPrev m p v) := by
  obtain ⟨l, hl⟩ := Option.isSome_iff_exists.mp h
  simp [setBlink, StateT.run, hl]

end Runs

/-- What an operation on one list leaves alone: every cell outside the given
ones, and which addresses hold a cell at all. -/
structure Footprint {A : Type} (m m' : Mem A) (cells : List A) : Prop where
  outside : ∀ q, q ∉ cells → m' q = m q
  mapped : ∀ q, (m' q).isSome = (m q).isSome

section Cells

variable {A : Type} {m m' : Mem A} {h : A}

/-- The cells a splice writes to, when they lie in `cells`. -/
theorem Footprint.spliced {u e v : A} {cells : List A} (hs : Spliced m m' u e v)
    (hmapped : ∀ q, (m' q).isSome = (m q).isSome) (hu : u ∈ cells) (he : e ∈ cells)
    (hv : v ∈ cells) : Footprint m m' cells := by
  refine ⟨?_, hmapped⟩
  intro q hq
  apply hs.outside
  · rintro rfl
    exact hq hu
  · rintro rfl
    exact hq he
  · rintro rfl
    exact hq hv

theorem Footprint.joined {u v : A} {cells : List A} (hj : Joined m m' u v)
    (hmapped : ∀ q, (m' q).isSome = (m q).isSome) (hu : u ∈ cells) (hv : v ∈ cells) :
    Footprint m m' cells := by
  refine ⟨?_, hmapped⟩
  intro q hq
  apply hj.outside
  · rintro rfl
    exact hq hu
  · rintro rfl
    exact hq hv

/-- The two cells a new entry is put between are not the entry. -/
theorem between_ne {left right : List A} {e : A} (he : e ∉ h :: (left ++ right)) :
    (h :: left).getLast (by simp) ≠ e ∧ (right ++ [h]).head (by simp) ≠ e := by
  have hu : (h :: left).getLast (by simp) ∈ h :: left := List.getLast_mem _
  have hv : (right ++ [h]).head (by simp) ∈ right ++ [h] := List.head_mem _
  simp only [List.mem_cons, List.mem_append, List.not_mem_nil, or_false, not_or] at he hu hv
  constructor
  · intro heq
    rw [heq] at hu
    tauto
  · intro heq
    rw [heq] at hv
    tauto

/-- What the three functions that insert have in common: whichever of the four
stores comes first, `e` ends up between `left` and `right`. -/
theorem inserted_between {left right : List A} {e : A}
    (hring : Ring m h (left ++ right)) (he : e ∉ h :: (left ++ right))
    (hmapped : ∀ q, (m' q).isSome = (m q).isSome)
    (hs : Spliced m m' ((h :: left).getLast (by simp)) e ((right ++ [h]).head (by simp))) :
    Ring m' h (left ++ e :: right) ∧ Footprint m m' (e :: h :: (left ++ right)) := by
  refine ⟨hring.insert he hs, .spliced hs hmapped ?_ (by simp) ?_⟩
  · have hu : (h :: left).getLast (by simp) ∈ h :: left := List.getLast_mem _
    simp only [List.mem_cons, List.mem_append] at hu ⊢
    tauto
  · have hv : (right ++ [h]).head (by simp) ∈ right ++ [h] := List.head_mem _
    simp only [List.mem_cons, List.mem_append, List.not_mem_nil, or_false] at hv ⊢
    tauto

/-- What the three functions that remove have in common: the two neighbours of
`x` are linked past it. -/
theorem erased_between {left right : List A} {x : A}
    (hring : Ring m h (left ++ x :: right))
    (hmapped : ∀ q, (m' q).isSome = (m q).isSome)
    (hj : Joined m m' ((h :: left).getLast (by simp)) ((right ++ [h]).head (by simp))) :
    Ring m' h (left ++ right) ∧ Footprint m m' (h :: left ++ right) := by
  refine ⟨hring.erase hj, .joined hj hmapped ?_ ?_⟩
  · have hu : (h :: left).getLast (by simp) ∈ h :: left := List.getLast_mem _
    exact List.mem_append_left _ hu
  · have hv : (right ++ [h]).head (by simp) ∈ right ++ [h] := List.head_mem _
    simp only [List.mem_cons, List.mem_append, List.not_mem_nil, or_false] at hv ⊢
    tauto

end Cells

section Specs

variable {A : Type} [DecidableEq A] {m : Mem A} {h : A} {xs : List A}

theorem isListEmpty_spec (hring : Ring m h xs) :
    (isListEmpty h).run m = some (decide (xs = []), m) := by
  have hfirst := flink_run hring.first
  cases xs with
  | nil =>
      simp only [List.nil_append, List.head_cons] at hfirst
      simp [isListEmpty, hfirst]
  | cons x rest =>
      have hne : x ≠ h := fun heq => hring.head_not_mem (by simp [heq])
      simp only [List.cons_append, List.head_cons] at hfirst
      simp [isListEmpty, hfirst, hne]

theorem initializeListHead_spec (hmapped : (m h).isSome) :
    ∃ m', (initializeListHead h).run m = some ((), m') ∧ Ring m' h [] ∧
      Footprint m m' [h] := by
  have hmapped' : (setPrev m h h h).isSome := by simpa using hmapped
  refine ⟨setNext (setPrev m h h) h h, ?_, ?_, ?_⟩
  · simp [initializeListHead, setBlink_run h hmapped, setFlink_run h hmapped']
  · refine ⟨by simp, ?_⟩
    have hlinked : Linked (setNext (setPrev m h h) h h) h h :=
      ⟨nextOf_setNext_self _ h hmapped', by
        rw [prevOf_setNext, prevOf_setPrev_self _ h hmapped]⟩
    simpa using hlinked
  · constructor
    · intro q hq
      have hne : q ≠ h := by simpa using hq
      rw [setNext_ne _ h hne, setPrev_ne _ h hne]
    · intro q
      simp

/-- `InsertTailList` appends an entry that is on no list yet. -/
theorem insertTailList_spec (hring : Ring m h xs) {e : A} (he : e ∉ h :: xs)
    (hmapped : (m e).isSome) :
    ∃ m', (insertTailList h e).run m = some ((), m') ∧ Ring m' h (xs ++ [e]) ∧
      Footprint m m' (e :: h :: xs) := by
  have hring' : Ring m h (xs ++ []) := by simpa using hring
  have he' : e ∉ h :: (xs ++ []) := by simpa using he
  obtain ⟨hlast, hhead⟩ := between_ne he'
  let l := (h :: xs).getLast (by simp)
  have hlmapped : (m l).isSome := hring.mapped (List.getLast_mem _)
  have hhmapped : (m h).isSome := hring.mapped (by simp)
  have hhe : h ≠ e := hhead
  let m₁ := setNext m e h
  let m₂ := setPrev m₁ e l
  let m₃ := setNext m₂ l e
  have h₁ : (m₁ e).isSome := by simpa [m₁] using hmapped
  have h₂ : (m₂ l).isSome := by simpa [m₂, m₁] using hlmapped
  have h₃ : (m₃ h).isSome := by simpa [m₃, m₂, m₁] using hhmapped
  have hs : Spliced m (setPrev m₃ h e) l e h := by
    constructor
    · constructor <;>
        simp [nextOf_setNext, prevOf_setPrev, hlmapped, hmapped, hhe.symm, m₃, m₂, m₁]
    · constructor <;>
        simp [nextOf_setNext, prevOf_setPrev, hhmapped, hmapped, hlast.symm, m₃, m₂, m₁, l]
    · intro q hu hq
      simp [nextOf_setNext, hu, hq, m₃, m₂, m₁]
    · intro q hv hq
      simp [prevOf_setPrev, hv, hq, m₃, m₂, m₁]
  obtain ⟨hring'', hframe⟩ := inserted_between hring' he' (by simp [m₃, m₂, m₁]) hs
  refine ⟨setPrev m₃ h e, ?_, hring'', by simpa using hframe⟩
  simp [insertTailList, blink_run hring.last, setFlink_run h hmapped, setBlink_run l h₁,
    setFlink_run e h₂, setBlink_run e h₃, l, m₁, m₂, m₃]

/-- `InsertHeadList` prepends an entry that is on no list yet. -/
theorem insertHeadList_spec (hring : Ring m h xs) {e : A} (he : e ∉ h :: xs)
    (hmapped : (m e).isSome) :
    ∃ m', (insertHeadList h e).run m = some ((), m') ∧ Ring m' h (e :: xs) ∧
      Footprint m m' (e :: h :: xs) := by
  have hring' : Ring m h ([] ++ xs) := hring
  have he' : e ∉ h :: ([] ++ xs) := he
  obtain ⟨hhead, hfirst⟩ := between_ne he'
  let v := (xs ++ [h]).head (by simp)
  have hvmapped : (m v).isSome := isSome_of_prevOf hring'.junction.2
  have hhmapped : (m h).isSome := hring.mapped (by simp)
  have hhe : h ≠ e := hhead
  let m₁ := setNext m e v
  let m₂ := setPrev m₁ e h
  let m₃ := setPrev m₂ v e
  have h₁ : (m₁ e).isSome := by simpa [m₁] using hmapped
  have h₂ : (m₂ v).isSome := by simpa [m₂, m₁] using hvmapped
  have h₃ : (m₃ h).isSome := by simpa [m₃, m₂, m₁] using hhmapped
  have hs : Spliced m (setNext m₃ h e) h e v := by
    constructor
    · constructor <;>
        simp [nextOf_setNext, prevOf_setPrev, hhmapped, hmapped, hfirst.symm, m₃, m₂, m₁, v]
    · constructor <;>
        simp [nextOf_setNext, prevOf_setPrev, hvmapped, hmapped, hhe.symm, m₃, m₂, m₁]
    · intro q hu hq
      simp [nextOf_setNext, hu, hq, m₃, m₂, m₁]
    · intro q hv hq
      simp [prevOf_setPrev, hv, hq, m₃, m₂, m₁]
  obtain ⟨hring'', hframe⟩ := inserted_between hring' he (by simp [m₃, m₂, m₁]) hs
  refine ⟨setNext m₃ h e, ?_, hring'', hframe⟩
  simp [insertHeadList, flink_run hring.first, setFlink_run v hmapped, setBlink_run h h₁,
    setBlink_run e h₂, setFlink_run e h₃, v, m₁, m₂, m₃]

/-- `InsertBeforeEntry` puts the entry directly before the base entry, which is
the first cell of `right ++ [h]`: a member, or the head itself. -/
theorem insertBeforeEntry_spec {left right : List A} (hring : Ring m h (left ++ right)) {e : A}
    (he : e ∉ h :: (left ++ right)) (hmapped : (m e).isSome) :
    ∃ m', (insertBeforeEntry ((right ++ [h]).head (by simp)) e).run m = some ((), m') ∧
      Ring m' h (left ++ e :: right) ∧ Footprint m m' (e :: h :: (left ++ right)) := by
  obtain ⟨hbefore, hbase⟩ := between_ne he
  obtain ⟨hnext, hprev⟩ := hring.junction
  let u := (h :: left).getLast (by simp)
  let v := (right ++ [h]).head (by simp)
  have humapped : (m u).isSome := isSome_of_nextOf hnext
  have hvmapped : (m v).isSome := isSome_of_prevOf hprev
  let m₁ := setPrev m v e
  let m₂ := setNext m₁ e v
  let m₃ := setPrev m₂ e u
  have h₁ : (m₁ e).isSome := by simpa [m₁] using hmapped
  have h₂ : (m₂ e).isSome := by simpa [m₂] using h₁
  have h₃ : (m₃ u).isSome := by simpa [m₃, m₂, m₁] using humapped
  have hs : Spliced m (setNext m₃ u e) u e v := by
    constructor
    · constructor <;>
        simp [nextOf_setNext, prevOf_setPrev, humapped, hmapped, m₃, m₂, m₁]
    · constructor <;>
        simp [nextOf_setNext, prevOf_setPrev, hvmapped, hmapped, hbefore.symm, hbase, m₃, m₂,
          m₁, u, v]
    · intro q hu hq
      simp [nextOf_setNext, hu, hq, m₃, m₂, m₁]
    · intro q hv hq
      simp [prevOf_setPrev, hv, hq, m₃, m₂, m₁]
  obtain ⟨hring'', hframe⟩ := inserted_between hring he (by simp [m₃, m₂, m₁]) hs
  refine ⟨setNext m₃ u e, ?_, hring'', hframe⟩
  simp [insertBeforeEntry, blink_run hprev, setBlink_run e hvmapped, setFlink_run v h₁,
    setBlink_run u h₂, setFlink_run e h₃, u, v, m₁, m₂, m₃]

/-- An entry that is the last of the list already is linked to itself. -/
theorem insertTailList_last_spec {e : A} (hring : Ring m h (xs ++ [e])) :
    ∃ m', (insertTailList h e).run m = some ((), m') ∧ Linked m' e e := by
  have hlast : prevOf m h = some e := by simpa using hring.last
  have hhe : e ≠ h := fun heq => hring.head_not_mem (by simp [heq])
  have hhmapped : (m h).isSome := hring.mapped (by simp)
  have hmapped : (m e).isSome := hring.mapped (by simp)
  let m₁ := setNext m e h
  let m₂ := setPrev m₁ e e
  let m₃ := setNext m₂ e e
  have h₁ : (m₁ e).isSome := by simpa [m₁] using hmapped
  have h₂ : (m₂ e).isSome := by simpa [m₂] using h₁
  have h₃ : (m₃ h).isSome := by simpa [m₃, m₂, m₁] using hhmapped
  refine ⟨setPrev m₃ h e, ?_, ?_, ?_⟩
  · simp [insertTailList, blink_run hlast, setFlink_run h hmapped, setBlink_run e h₁,
      setFlink_run e h₂, setBlink_run e h₃, m₁, m₂, m₃]
  · rw [nextOf_setPrev]
    exact nextOf_setNext_self _ e h₂
  · rw [prevOf_setPrev_ne _ e hhe, prevOf_setNext]
    exact prevOf_setPrev_self _ e h₁

/-- The two stores that take a cell out, in the one order. -/
theorem joined_next_prev {u v : A} (hu : (m u).isSome) (hv : (m v).isSome) :
    Joined m (setPrev (setNext m u v) v u) u v := by
  refine ⟨⟨?_, ?_⟩, ?_, ?_⟩
  · simp [nextOf_setNext, hu]
  · simp [prevOf_setPrev, hv]
  · intro q hne
    simp [nextOf_setNext, hne]
  · intro q hne
    simp [prevOf_setPrev, hne]

/-- And in the other. -/
theorem joined_prev_next {u v : A} (hu : (m u).isSome) (hv : (m v).isSome) :
    Joined m (setNext (setPrev m v u) u v) u v := by
  refine ⟨⟨?_, ?_⟩, ?_, ?_⟩
  · simp [nextOf_setNext, hu]
  · simp [prevOf_setPrev, hv]
  · intro q hne
    simp [nextOf_setNext, hne]
  · intro q hne
    simp [prevOf_setPrev, hne]

/-- `RemoveEntryList` takes out exactly the given member and answers whether
it was the only one. -/
theorem removeEntryList_spec {left right : List A} {x : A}
    (hring : Ring m h (left ++ x :: right)) :
    ∃ m', (removeEntryList x).run m = some (decide (left ++ right = []), m') ∧
      Ring m' h (left ++ right) ∧ Footprint m m' (h :: left ++ right) := by
  let u := (h :: left).getLast (by simp)
  let v := (right ++ [h]).head (by simp)
  obtain ⟨hux, hxv⟩ : Linked m u x ∧ Linked m x v := hring.neighbours
  have hu : (m u).isSome := isSome_of_nextOf hux.1
  have hv : (m v).isSome := isSome_of_prevOf hxv.2
  have hv' : (setNext m u v v).isSome := by simpa using hv
  have hanswer : (v = u) ↔ left ++ right = [] := hring.neighbours_eq_iff
  refine ⟨setPrev (setNext m u v) v u, ?_,
    erased_between hring (by simp) (joined_next_prev hu hv)⟩
  simp [removeEntryList, flink_run hxv.1, blink_run hux.2, setFlink_run v hu,
    setBlink_run u hv', - List.append_eq_nil_iff, ← hanswer]

theorem removeHeadList_spec {x : A} {rest : List A} (hring : Ring m h (x :: rest)) :
    ∃ m', (removeHeadList h).run m = some (x, m') ∧ Ring m' h rest ∧
      Footprint m m' (h :: rest) := by
  let v := (rest ++ [h]).head (by simp)
  have hring' : Ring m h ([] ++ x :: rest) := hring
  obtain ⟨hhx, hxv⟩ : Linked m h x ∧ Linked m x v := hring'.neighbours
  have hh : (m h).isSome := isSome_of_nextOf hhx.1
  have hv : (m v).isSome := isSome_of_prevOf hxv.2
  have hv' : (setNext m h v v).isSome := by simpa using hv
  refine ⟨setPrev (setNext m h v) v h, ?_,
    erased_between hring' (by simp) (joined_next_prev hh hv)⟩
  simp [removeHeadList, flink_run hhx.1, flink_run hxv.1, setFlink_run v hh,
    setBlink_run h hv']

theorem removeTailList_spec {x : A} {front : List A} (hring : Ring m h (front ++ [x])) :
    ∃ m', (removeTailList h).run m = some (x, m') ∧ Ring m' h front ∧
      Footprint m m' (h :: front) := by
  let u := (h :: front).getLast (by simp)
  obtain ⟨hux, hxh⟩ : Linked m u x ∧ Linked m x h := hring.neighbours
  have hu : (m u).isSome := isSome_of_nextOf hux.1
  have hh : (m h).isSome := isSome_of_prevOf hxh.2
  have hu' : (setPrev m h u u).isSome := by simpa using hu
  obtain ⟨hring', hframe⟩ := erased_between hring (by simp) (joined_prev_next hu hh)
  refine ⟨setNext (setPrev m h u) u h, ?_, by simpa using hring', by simpa using hframe⟩
  simp [removeTailList, blink_run hxh.2, blink_run hux.2, setBlink_run u hh,
    setFlink_run h hu']

/-- The four stores of `ChangeHead` on a list that is not empty, whatever comes
after them: the first and the last entry are linked to the new head instead of
the old one. -/
theorem reheaded_spec {x l k : A} {rest : List A} (hring : Ring m h (x :: rest))
    (hl : l = (x :: rest).getLast (by simp)) (hk : k ∉ h :: x :: rest) (hmapped : (m k).isSome) :
    ∃ m', (∀ next : ListM A Unit, (do
        setBlink x k
        setFlink l k
        setFlink k x
        setBlink k l
        next).run m = next.run m') ∧
      Ring m' k (x :: rest) ∧ Footprint m m' (k :: x :: rest) := by
  have hlmem : l ∈ x :: rest := hl ▸ List.getLast_mem _
  have hout : ∀ q ∈ x :: rest, q ≠ k := by
    rintro q hq rfl
    exact hk (List.mem_cons_of_mem _ hq)
  have hkx : x ≠ k := hout x (by simp)
  have hkl : l ≠ k := hout l hlmem
  have hmx : (m x).isSome := hring.mapped (by simp)
  have hml : (m l).isSome := hring.mapped (List.mem_cons_of_mem _ hlmem)
  let m₁ := setPrev m x k
  let m₂ := setNext m₁ l k
  let m₃ := setNext m₂ k x
  have h₁ : (m₁ l).isSome := by simpa [m₁] using hml
  have h₂ : (m₂ k).isSome := by simpa [m₂, m₁] using hmapped
  have h₃ : (m₃ k).isSome := by simpa [m₃] using h₂
  refine ⟨setPrev m₃ k l, ?_, ?_, ?_, ?_⟩
  · intro next
    simp [setBlink_run k hmx, setFlink_run k h₁, setFlink_run x h₂, setBlink_run l h₃,
      m₃, m₂, m₁]
  · apply hring.rehead (by simp) (fun hmem => hk (List.mem_cons_of_mem _ hmem))
    · constructor <;>
        simp [nextOf_setNext, prevOf_setPrev, hmapped, hmx, hkx, m₃, m₂, m₁]
    · rw [← hl]
      constructor <;>
        simp [nextOf_setNext, prevOf_setPrev, hmapped, hml, hkl, m₃, m₂, m₁]
    · intro q hq hne
      have hqk : q ≠ k := hout q hq
      have hql : q ≠ l := hl ▸ hne
      simp [nextOf_setNext, hqk, hql, m₃, m₂, m₁]
    · intro q hq hne
      have hqk : q ≠ k := hout q hq
      have hqx : q ≠ x := hne
      simp [prevOf_setPrev, hqk, hqx, m₃, m₂, m₁]
  · intro q hq
    have hqk : q ≠ k := fun heq => hq (by simp [heq])
    have hqx : q ≠ x := fun heq => hq (by simp [heq])
    have hql : q ≠ l := fun heq => hq (heq ▸ List.mem_cons_of_mem _ hlmem)
    simp only [m₃, m₂, m₁]
    rw [setPrev_ne _ l hqk, setNext_ne _ x hqk, setNext_ne _ k hql, setPrev_ne _ k hqx]
  · intro q
    simp [m₃, m₂, m₁]

/-- `ChangeHead` moves the whole sequence to a head on no list, and leaves the
old head with none. -/
theorem changeHead_spec (hring : Ring m h xs) {k : A} (hk : k ∉ h :: xs)
    (hmapped : (m k).isSome) :
    ∃ m', (changeHead h k).run m = some ((), m') ∧ Ring m' k xs ∧ Ring m' h [] ∧
      Footprint m m' (k :: h :: xs) := by
  obtain ⟨m₁, hinit, hnew, hframe₁⟩ := initializeListHead_spec hmapped
  have hring₁ : Ring m₁ h xs := by
    apply hring.congr
    intro q hq
    apply hframe₁.outside
    rintro hqk
    exact hk (List.mem_singleton.mp hqk ▸ hq)
  have hempty := isListEmpty_spec hring₁
  cases xs with
  | nil =>
      refine ⟨m₁, ?_, hnew, hring₁, ?_, hframe₁.mapped⟩
      · simp [changeHead, hinit, hempty]
      · intro q hq
        exact hframe₁.outside q (by simp only [List.mem_cons, not_or] at hq ⊢; tauto)
  | cons x rest =>
      have hfirst : nextOf m₁ h = some x := hring₁.first
      have hlast := hring₁.last
      have hmk : (m₁ k).isSome := hnew.mapped (by simp)
      obtain ⟨m₂, hstores, hring₂, hframe₂⟩ := reheaded_spec hring₁ rfl hk hmk
      have hmh : (m₂ h).isSome := by
        rw [hframe₂.mapped]
        exact hring₁.mapped (by simp)
      obtain ⟨m₃, hinit', hold, hframe₃⟩ := initializeListHead_spec hmh
      have hring₃ : Ring m₃ k (x :: rest) := by
        apply hring₂.congr
        intro q hq
        apply hframe₃.outside
        rintro hqh
        rw [List.mem_singleton.mp hqh] at hq
        rcases List.mem_cons.mp hq with heq | hmem
        · exact hk (by simp [heq])
        · exact hring.head_not_mem hmem
      refine ⟨m₃, ?_, hring₃, hold, ?_, ?_⟩
      · have hrest := hstores (initializeListHead h)
        rw [hinit'] at hrest
        simpa [changeHead, hinit, hempty, flink_run hfirst, blink_run hlast] using hrest
      · intro q hq
        simp only [List.mem_cons, not_or] at hq
        obtain ⟨hqk, hqh, hqx, hqrest⟩ := hq
        calc m₃ q = m₂ q := hframe₃.outside q (by simpa using hqh)
          _ = m₁ q := hframe₂.outside q (by simp [hqk, hqx, hqrest])
          _ = m q := hframe₁.outside q (by simpa using hqk)
      · intro q
        rw [hframe₃.mapped, hframe₂.mapped, hframe₁.mapped]

end Specs

end RedisTrace
