import Mathlib.Data.List.Nodup

/-!
Finite maps that remember in which order their keys have come: lists of entries
with a key each, no key twice, the oldest first. The entries are spread over
buckets by a function of the key; within a bucket they keep their order.
-/

universe u v

structure Keyed {α : Type u} {κ : Type v} (key : α → κ) where
  entries : List α
  distinct : (entries.map key).Nodup

namespace Keyed

variable {α : Type u} {κ : Type v} {key : α → κ}

theorem eq_of_key (m : Keyed key) {e e' : α} (he : e ∈ m.entries) (he' : e' ∈ m.entries)
    (hkey : key e = key e') : e = e' := List.inj_on_of_nodup_map m.distinct he he' hkey

def empty : Keyed key := ⟨[], List.nodup_nil⟩

section Parts

variable (m : Keyed key) (bucket : κ → Nat)

def inBucket (b : Nat) : List α := m.entries.filter (fun e => bucket (key e) = b)

/-- All the entries, bucket by bucket. -/
def byBucket (n : Nat) : List α := (List.range n).flatMap (m.inBucket bucket)

/-- The keys in the order of their entries in the buckets. -/
def order (n : Nat) : List κ := (m.byBucket bucket n).map key

theorem mem_inBucket {m : Keyed key} {bucket : κ → Nat} {b : Nat} {e : α} :
    e ∈ m.inBucket bucket b ↔ e ∈ m.entries ∧ bucket (key e) = b := by
  simp [inBucket]

end Parts

variable [DecidableEq κ]

def lookup (m : Keyed key) (k : κ) : Option α := m.entries.find? (key · = k)

section Lookup

variable (m : Keyed key) {k : κ} {e : α}

theorem lookup_eq_some_iff : m.lookup k = some e ↔ e ∈ m.entries ∧ key e = k := by
  constructor
  · intro hlook
    exact ⟨List.mem_of_find?_eq_some hlook, by simpa using List.find?_some hlook⟩
  · rintro ⟨he, rfl⟩
    cases hlook : m.lookup (key e) with
    | none =>
        have hnone := List.find?_eq_none.mp hlook e he
        simp at hnone
    | some e' =>
        have hkey : key e' = key e := by simpa using List.find?_some hlook
        rw [m.eq_of_key (List.mem_of_find?_eq_some hlook) he hkey]

theorem lookup_eq_none_iff : m.lookup k = none ↔ ∀ e ∈ m.entries, key e ≠ k := by
  simp [lookup]

end Lookup

/-- The entry comes last, unless its key is there already. -/
def push (m : Keyed key) (e : α) : Keyed key :=
  if hnew : m.lookup (key e) = none then
    ⟨m.entries ++ [e], by
      rw [List.map_append, List.nodup_append]
      refine ⟨m.distinct, by simp, ?_⟩
      intro k hk k' hk' heq
      obtain ⟨e', he', rfl⟩ := List.mem_map.mp hk
      exact (m.lookup_eq_none_iff.mp hnew) e' he' (by simpa [heq] using hk')⟩
  else m

theorem push_entries (m : Keyed key) {e : α} (hnew : m.lookup (key e) = none) :
    (m.push e).entries = m.entries ++ [e] := by
  simp [push, hnew]

/-- The entry of the key gives way to another one with that key, at its place. -/
def rewrite (m : Keyed key) (k : κ) (g : α → α) (hkey : ∀ e, key (g e) = k) : Keyed key :=
  ⟨m.entries.map (fun e => if key e = k then g e else e), by
    have hsame : (m.entries.map (fun e => if key e = k then g e else e)).map key =
        m.entries.map key := by
      rw [List.map_map]
      apply List.map_congr_left
      intro e _
      by_cases hk : key e = k
      · simp [hk, hkey]
      · simp [hk]
    rw [hsame]
    exact m.distinct⟩

def remove (m : Keyed key) (k : κ) : Keyed key :=
  ⟨m.entries.filter (key · ≠ k), m.distinct.sublist (List.filter_sublist.map key)⟩

section Changed

variable {m : Keyed key} {k : κ} {e : α}

/-- What is there stays when an entry comes. -/
theorem lookup_push (e' : α) (hlook : m.lookup k = some e) : (m.push e').lookup k = some e := by
  by_cases hnew : m.lookup (key e') = none
  · rw [lookup, push_entries m hnew, List.find?_append]
    rw [lookup] at hlook
    rw [hlook]
    rfl
  · rw [push, dif_neg hnew]
    exact hlook

theorem lookup_rewrite {k' : κ} (g : α → α) (hkey : ∀ e, key (g e) = k')
    (hlook : m.lookup k = some e) :
    (m.rewrite k' g hkey).lookup k = some (if key e = k' then g e else e) := by
  obtain ⟨he, rfl⟩ := m.lookup_eq_some_iff.mp hlook
  apply (lookup_eq_some_iff _).mpr
  refine ⟨List.mem_map_of_mem he, ?_⟩
  by_cases hk : key e = k'
  · simp [hk, hkey]
  · simp [hk]

theorem lookup_remove {k' : κ} (hne : k ≠ k') (hlook : m.lookup k = some e) :
    (m.remove k').lookup k = some e := by
  obtain ⟨he, rfl⟩ := m.lookup_eq_some_iff.mp hlook
  exact (lookup_eq_some_iff _).mpr ⟨List.mem_filter.mpr ⟨he, by simpa using hne⟩, rfl⟩

end Changed

section Buckets

variable {m : Keyed key} {bucket : κ → Nat} {b : Nat} {k : κ} {e : α}

theorem inBucket_push (hnew : m.lookup (key e) = none) :
    (m.push e).inBucket bucket b =
      m.inBucket bucket b ++ if bucket (key e) = b then [e] else [] := by
  rw [inBucket, push_entries m hnew, List.filter_append]
  congr 1
  by_cases hb : bucket (key e) = b
  · simp [hb]
  · simp [hb]

theorem inBucket_rewrite (g : α → α) (hkey : ∀ e, key (g e) = k) :
    (m.rewrite k g hkey).inBucket bucket b =
      (m.inBucket bucket b).map (fun e => if key e = k then g e else e) := by
  rw [inBucket, inBucket, rewrite, List.filter_map]
  congr 1
  apply List.filter_congr
  intro e _
  by_cases hk : key e = k
  · simp [hk, hkey]
  · simp [hk]

theorem inBucket_remove :
    (m.remove k).inBucket bucket b = (m.inBucket bucket b).filter (key · ≠ k) := by
  rw [inBucket, inBucket, remove, List.filter_filter, List.filter_filter]
  apply List.filter_congr
  intro e _
  rw [Bool.and_comm]

end Buckets

section Order

variable {m : Keyed key} {bucket : κ → Nat} {n : Nat} {k : κ} {e : α}

omit [DecidableEq κ] in
theorem order_eq : m.order bucket n =
    (List.range n).flatMap (fun b => (m.inBucket bucket b).map key) := List.map_flatMap

omit [DecidableEq κ] in
theorem nodup_order : (m.order bucket n).Nodup := by
  rw [order_eq, List.nodup_flatMap]
  refine ⟨fun b _ => m.distinct.sublist (List.filter_sublist.map key), ?_⟩
  apply List.nodup_range.imp
  intro b c hbc k hb hc
  obtain ⟨e, he, rfl⟩ := List.mem_map.mp hb
  obtain ⟨e', he', hkey⟩ := List.mem_map.mp hc
  apply hbc
  rw [← (mem_inBucket.mp he).2, ← (mem_inBucket.mp he').2, hkey]

theorem mem_order (hlt : bucket k < n) : k ∈ m.order bucket n ↔ (m.lookup k).isSome := by
  rw [order, List.mem_map, Option.isSome_iff_exists]
  constructor
  · rintro ⟨e, he, rfl⟩
    obtain ⟨b, -, he⟩ := List.mem_flatMap.mp he
    exact ⟨e, m.lookup_eq_some_iff.mpr ⟨(mem_inBucket.mp he).1, rfl⟩⟩
  · rintro ⟨e, hlook⟩
    obtain ⟨he, rfl⟩ := m.lookup_eq_some_iff.mp hlook
    exact ⟨e, List.mem_flatMap.mpr ⟨_, List.mem_range.mpr hlt, mem_inBucket.mpr ⟨he, rfl⟩⟩, rfl⟩

theorem order_rewrite (g : α → α) (hkey : ∀ e, key (g e) = k) :
    (m.rewrite k g hkey).order bucket n = m.order bucket n := by
  rw [order_eq, order_eq]
  congr 1
  funext b
  rw [inBucket_rewrite, List.map_map]
  apply List.map_congr_left
  intro e _
  by_cases hk : key e = k
  · simp [hk, hkey]
  · simp [hk]

theorem order_remove : (m.remove k).order bucket n = (m.order bucket n).filter (· ≠ k) := by
  rw [order_eq, order_eq, List.filter_flatMap]
  congr 1
  funext b
  rw [inBucket_remove, List.filter_map]
  rfl

theorem filter_filter_ne {q : κ → Bool} (hq : q k = false) (l : List κ) :
    (l.filter (· ≠ k)).filter q = l.filter q := by
  rw [List.filter_filter]
  apply List.filter_congr
  intro k' _
  rcases eq_or_ne k' k with rfl | hne
  · simp [hq]
  · simp [hne]

/-- A new entry moves no other. -/
theorem order_push (hnew : m.lookup (key e) = none) :
    ((m.push e).order bucket n).filter (· ≠ key e) = m.order bucket n := by
  rw [order_eq, order_eq, List.filter_flatMap]
  congr 1
  funext b
  have hold : ((m.inBucket bucket b).map key).filter (· ≠ key e) =
      (m.inBucket bucket b).map key := by
    apply List.filter_eq_self.mpr
    intro k hk
    obtain ⟨e', he', rfl⟩ := List.mem_map.mp hk
    exact decide_eq_true (m.lookup_eq_none_iff.mp hnew e' (mem_inBucket.mp he').1)
  rw [inBucket_push hnew, List.map_append, List.filter_append, hold]
  by_cases hb : bucket (key e) = b
  · simp [hb]
  · simp [hb]

/-- Among the keys of a kind that the new one is not of, nothing changes. -/
theorem filter_order_push (hnew : m.lookup (key e) = none) {q : κ → Bool}
    (hq : q (key e) = false) :
    ((m.push e).order bucket n).filter q = (m.order bucket n).filter q := by
  rw [← order_push hnew, filter_filter_ne hq]

theorem filter_order_remove {q : κ → Bool} (hq : q k = false) :
    ((m.remove k).order bucket n).filter q = (m.order bucket n).filter q := by
  rw [order_remove, filter_filter_ne hq]

end Order

section After

/-- What is left of a walk over a list from one of its elements, or from the
beginning. -/
def after (prev : Option κ) (l : List κ) : List κ :=
  match prev with
  | none => l
  | some k => (l.dropWhile (· ≠ k)).tail

theorem after_suffix (prev : Option κ) (l : List κ) : after prev l <:+ l := by
  cases prev with
  | none => exact List.suffix_refl l
  | some k => exact (List.tail_suffix _).trans (List.dropWhile_suffix _)

theorem after_cut {k : κ} {left right : List κ} (hleft : k ∉ left) :
    after (some k) (left ++ k :: right) = right := by
  rw [after, List.dropWhile_append_of_pos]
  · simp
  · intro x hx
    exact decide_eq_true (fun heq => hleft (heq ▸ hx))

/-- A walk that has come to the next element. -/
theorem after_next {prev : Option κ} {k : κ} {l rest : List κ} (hnodup : l.Nodup)
    (hafter : after prev l = k :: rest) : after (some k) l = rest := by
  have hsplit : ∃ left, l = left ++ k :: rest := by
    obtain ⟨left, hcut⟩ := after_suffix prev l
    exact ⟨left, by rw [← hcut, hafter]⟩
  obtain ⟨left, rfl⟩ := hsplit
  exact after_cut (fun hmem => (List.disjoint_of_nodup_append hnodup) hmem (by simp))

/-- Leaving elements out does not change what comes behind one that stays. -/
theorem after_filter {prev : Option κ} {q : κ → Bool} {l : List κ}
    (hprev : ∀ k, prev = some k → k ∈ l ∧ q k = true) :
    after prev (l.filter q) = (after prev l).filter q := by
  cases prev with
  | none => rfl
  | some k =>
      obtain ⟨hmem, hq⟩ := hprev k rfl
      obtain ⟨left, right, rfl, hleft⟩ := List.eq_append_cons_of_mem hmem
      rw [after_cut hleft, List.filter_append, List.filter_cons_of_pos hq, after_cut]
      intro hin
      exact hleft (List.mem_filter.mp hin).1

/-- Two lists with the same elements of one kind, in the same order, have the
same of them behind one that both have. -/
theorem after_agree {prev : Option κ} {q : κ → Bool} {l l' : List κ}
    (hagree : l.filter q = l'.filter q) (hprev : ∀ k, prev = some k → k ∈ l ∧ q k = true) :
    (after prev l).filter q = (after prev l').filter q := by
  have hprev' : ∀ k, prev = some k → k ∈ l' ∧ q k = true := by
    intro k hk
    have hin : k ∈ l.filter q := List.mem_filter.mpr (hprev k hk)
    rw [hagree] at hin
    exact List.mem_filter.mp hin
  rw [← after_filter hprev, ← after_filter hprev', hagree]

end After

end Keyed
