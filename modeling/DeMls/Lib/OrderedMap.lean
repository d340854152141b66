import Mathlib.Data.List.Nodup
import Mathlib.Data.List.Perm.Basic

/-!
# Insertion-ordered maps and bounded sets

`OrderedMap` is a finite map that remembers the order of first insertion: inserting under a key
that is present replaces the value in place, removing keeps the order of the rest. Keys are
distinct by construction. `BoundedSet` is an insertion-ordered set that forgets its oldest
elements past a capacity.
-/

/-- A finite map with distinct keys, in insertion order. -/
structure OrderedMap (κ ν : Type) where
  entries : List (κ × ν)
  nodup : (entries.map Prod.fst).Nodup

namespace OrderedMap

variable {κ ν : Type}

/-! ## Operations -/

def empty : OrderedMap κ ν := ⟨[], List.nodup_nil⟩

instance : Inhabited (OrderedMap κ ν) := ⟨empty⟩

def keys (m : OrderedMap κ ν) : List κ := m.entries.map Prod.fst

def values (m : OrderedMap κ ν) : List ν := m.entries.map Prod.snd

def length (m : OrderedMap κ ν) : Nat := m.entries.length

/-- Keep the entries a predicate accepts, in order. -/
def retain (m : OrderedMap κ ν) (keep : κ × ν → Bool) : OrderedMap κ ν :=
  ⟨m.entries.filter keep, m.nodup.sublist (List.filter_sublist.map _)⟩

@[simp] theorem entries_empty : (empty : OrderedMap κ ν).entries = [] := rfl

@[simp] theorem entries_retain (m : OrderedMap κ ν) (keep : κ × ν → Bool) :
    (m.retain keep).entries = m.entries.filter keep := rfl

theorem mem_values {m : OrderedMap κ ν} {v : ν} : v ∈ m.values ↔ ∃ k, (k, v) ∈ m.entries := by
  simp [values]

theorem nodup_entries (m : OrderedMap κ ν) : m.entries.Nodup := m.nodup.of_map _

variable [DecidableEq κ]

def find? (m : OrderedMap κ ν) (k : κ) : Option ν := (m.entries.find? fun e => e.1 = k).map Prod.snd

def contains (m : OrderedMap κ ν) (k : κ) : Bool := m.entries.any fun e => e.1 = k

/-- Remove a key, keeping the order of the others. -/
def erase (m : OrderedMap κ ν) (k : κ) : OrderedMap κ ν := m.retain fun e => e.1 ≠ k

theorem mem_keys_iff_contains {m : OrderedMap κ ν} {k : κ} : k ∈ m.keys ↔ m.contains k = true := by
  simp [keys, contains]

theorem replace_keys (l : List (κ × ν)) (k : κ) (v : ν) :
    (l.map fun e => if e.1 = k then (k, v) else e).map Prod.fst = l.map Prod.fst := by
  rw [List.map_map]
  apply List.map_congr_left
  intro e _
  simp only [Function.comp]
  split_ifs with h
  · exact h.symm
  · rfl

/-- Insert: in place when the key is present, at the end otherwise. -/
def insert (m : OrderedMap κ ν) (k : κ) (v : ν) : OrderedMap κ ν :=
  if h : m.contains k then
    ⟨m.entries.map fun e => if e.1 = k then (k, v) else e, by
      rw [replace_keys]
      exact m.nodup⟩
  else
    ⟨m.entries ++ [(k, v)], by
      have hk : k ∉ m.keys := fun hmem => h (mem_keys_iff_contains.mp hmem)
      rw [List.map_append]
      exact List.Nodup.append m.nodup (List.nodup_singleton k) (by simpa [keys] using hk)⟩

/-! ## Entries after an operation -/

@[simp] theorem entries_erase (m : OrderedMap κ ν) (k : κ) :
    (m.erase k).entries = m.entries.filter fun e => e.1 ≠ k := rfl

theorem entries_insert_of_contains {m : OrderedMap κ ν} {k : κ} (v : ν) (h : m.contains k = true) :
    (m.insert k v).entries = m.entries.map fun e => if e.1 = k then (k, v) else e := by
  simp [insert, h]

theorem entries_insert_of_not_contains {m : OrderedMap κ ν} {k : κ} (v : ν)
    (h : m.contains k = false) : (m.insert k v).entries = m.entries ++ [(k, v)] := by
  simp [insert, h]

/-- An entry after an insertion is the new one or an old one under another key. -/
theorem mem_insert {m : OrderedMap κ ν} {k : κ} {v : ν} {e : κ × ν} :
    e ∈ (m.insert k v).entries ↔ e = (k, v) ∨ e ∈ m.entries ∧ e.1 ≠ k := by
  by_cases h : m.contains k = true
  · rw [entries_insert_of_contains v h, List.mem_map]
    have hk : ∃ e ∈ m.entries, e.1 = k := by simpa [contains] using h
    constructor
    · rintro ⟨a, ha, rfl⟩
      split_ifs with hak
      · exact .inl rfl
      · exact .inr ⟨ha, hak⟩
    · rintro (rfl | ⟨he, hne⟩)
      · obtain ⟨a, ha, hak⟩ := hk
        exact ⟨a, ha, by simp [hak]⟩
      · exact ⟨e, he, by simp [hne]⟩
  · rw [Bool.not_eq_true] at h
    have hk : ∀ e ∈ m.entries, e.1 ≠ k := by simpa [contains] using h
    rw [entries_insert_of_not_contains v h, List.mem_append, List.mem_singleton]
    constructor
    · rintro (he | rfl)
      · exact .inr ⟨he, hk e he⟩
      · exact .inl rfl
    · rintro (rfl | ⟨he, _⟩)
      · exact .inr rfl
      · exact .inl he

/-- Up to order, an insertion drops what the key held and adds the new entry. -/
theorem insert_perm (m : OrderedMap κ ν) (k : κ) (v : ν) :
    (m.insert k v).entries.Perm ((k, v) :: (m.erase k).entries) := by
  have hcons : ((k, v) :: (m.erase k).entries).Nodup := by
    rw [List.nodup_cons]
    refine ⟨fun h => ?_, (m.erase k).nodup_entries⟩
    simpa using (List.mem_filter.mp h).2
  rw [List.perm_ext_iff_of_nodup (nodup_entries _) hcons]
  intro e
  rw [mem_insert, List.mem_cons, entries_erase, List.mem_filter, decide_eq_true_eq]

/-! ## Lookup -/

theorem find?_eq_some_iff {m : OrderedMap κ ν} {k : κ} {v : ν} :
    m.find? k = some v ↔ (k, v) ∈ m.entries := by
  unfold find?
  constructor
  · intro h
    obtain ⟨e, he, rfl⟩ := Option.map_eq_some_iff.mp h
    have hk : e.1 = k := by simpa using List.find?_some he
    have hmem := List.mem_of_find?_eq_some he
    rwa [← hk]
  · intro h
    cases hf : m.entries.find? fun e => e.1 = k with
    | none =>
      have := List.find?_eq_none.mp hf _ h
      simp at this
    | some e =>
      have hk : e.1 = k := by simpa using List.find?_some hf
      have hmem := List.mem_of_find?_eq_some hf
      have : e = (k, v) := List.inj_on_of_nodup_map m.nodup hmem h hk
      simp [this]

theorem find?_eq_none_iff {m : OrderedMap κ ν} {k : κ} :
    m.find? k = none ↔ ∀ e ∈ m.entries, e.1 ≠ k := by
  simp [find?]

@[simp] theorem find?_empty (k : κ) : (empty : OrderedMap κ ν).find? k = none := rfl

theorem find?_insert (m : OrderedMap κ ν) (k j : κ) (v : ν) :
    (m.insert k v).find? j = if j = k then some v else m.find? j := by
  split_ifs with h
  · subst h
    exact find?_eq_some_iff.mpr (mem_insert.mpr (.inl rfl))
  · cases hj : m.find? j with
    | some w =>
      have hw := find?_eq_some_iff.mp hj
      exact find?_eq_some_iff.mpr (mem_insert.mpr (.inr ⟨hw, h⟩))
    | none =>
      rw [find?_eq_none_iff] at hj ⊢
      intro e he
      rcases mem_insert.mp he with rfl | ⟨he, _⟩
      · exact Ne.symm h
      · exact hj e he

theorem find?_erase (m : OrderedMap κ ν) (k j : κ) :
    (m.erase k).find? j = if j = k then none else m.find? j := by
  split_ifs with h
  · subst h
    rw [find?_eq_none_iff]
    intro e he
    simpa using (List.mem_filter.mp he).2
  · cases hj : m.find? j with
    | some w =>
      have hw := find?_eq_some_iff.mp hj
      exact find?_eq_some_iff.mpr (List.mem_filter.mpr ⟨hw, by simpa using h⟩)
    | none =>
      rw [find?_eq_none_iff] at hj ⊢
      intro e he
      exact hj e (List.mem_filter.mp he).1

theorem contains_eq_isSome (m : OrderedMap κ ν) (k : κ) : m.contains k = (m.find? k).isSome := by
  cases h : m.find? k with
  | none =>
    rw [find?_eq_none_iff] at h
    simpa [contains] using h
  | some v =>
    have := find?_eq_some_iff.mp h
    simp only [contains, List.any_eq_true, Option.isSome_some]
    exact ⟨(k, v), this, by simp⟩

theorem contains_insert_iff {m : OrderedMap κ ν} {k j : κ} {v : ν} :
    (m.insert k v).contains j = true ↔ j = k ∨ m.contains j = true := by
  rw [contains_eq_isSome, contains_eq_isSome, find?_insert]
  by_cases h : j = k <;> simp [h]

theorem contains_erase_iff {m : OrderedMap κ ν} {k j : κ} :
    (m.erase k).contains j = true ↔ j ≠ k ∧ m.contains j = true := by
  rw [contains_eq_isSome, contains_eq_isSome, find?_erase]
  by_cases h : j = k <;> simp [h]

/-- Erasing a key changes the map exactly when the key is in it. -/
theorem erase_eq_self_iff {m : OrderedMap κ ν} {k : κ} : m.erase k = m ↔ m.contains k = false := by
  constructor
  · intro h
    rw [Bool.eq_false_iff, ← h]
    intro hk
    exact (contains_erase_iff.mp hk).1 rfl
  · intro h
    have hall : m.entries.filter (fun e => e.1 ≠ k) = m.entries := by
      refine List.filter_eq_self.mpr fun e he => decide_eq_true fun hek => ?_
      have hany : m.contains k = true := List.any_eq_true.mpr ⟨e, he, decide_eq_true hek⟩
      rw [h] at hany
      cases hany
    unfold erase retain
    congr

/-! ## Dropping what is due -/

/-- Erase several keys. -/
def eraseAll (m : OrderedMap κ ν) (ks : List κ) : OrderedMap κ ν := ks.foldl erase m

theorem entries_eraseAll (m : OrderedMap κ ν) (ks : List κ) :
    (m.eraseAll ks).entries = m.entries.filter fun e => decide (e.1 ∉ ks) := by
  induction ks generalizing m with
  | nil => simp [eraseAll]
  | cons k rest ih =>
    show ((m.erase k).eraseAll rest).entries = _
    rw [ih, entries_erase, List.filter_filter]
    refine List.filter_congr fun e _ => ?_
    simp [not_or, Bool.and_comm]

/-- Keeping what is not due erases the keys that are. -/
theorem retain_eq_eraseAll (m : OrderedMap κ ν) (due : κ × ν → Bool) :
    (m.retain fun e => !due e) = m.eraseAll ((m.entries.filter due).map Prod.fst) := by
  have hentries : (m.retain fun e => !due e).entries =
      (m.eraseAll ((m.entries.filter due).map Prod.fst)).entries := by
    rw [entries_retain, entries_eraseAll]
    refine List.filter_congr fun e he => ?_
    have hdue : due e = true ↔ e.1 ∈ (m.entries.filter due).map Prod.fst := by
      rw [List.mem_map]
      constructor
      · exact fun h => ⟨e, List.mem_filter.mpr ⟨he, h⟩, rfl⟩
      · rintro ⟨e', he', hkey⟩
        obtain ⟨hmem, hdue⟩ := List.mem_filter.mp he'
        rwa [List.inj_on_of_nodup_map m.nodup hmem he hkey] at hdue
    by_cases h : due e = true
    · simp [h, hdue.mp h]
    · simp [h, mt hdue.mpr h]
  generalize (m.retain fun e => !due e) = m₁ at hentries ⊢
  generalize m.eraseAll ((m.entries.filter due).map Prod.fst) = m₂ at hentries ⊢
  cases m₁
  cases m₂
  cases hentries
  rfl

end OrderedMap

/-- An insertion-ordered set that forgets its oldest elements past `capacity`. -/
structure BoundedSet (α : Type) where
  items : List α
  capacity : Nat

namespace BoundedSet

variable {α : Type} [DecidableEq α]

/-- The capacity is at least one: with none, every insertion would be forgotten at once. -/
def new (capacity : Nat) : BoundedSet α := ⟨[], max capacity 1⟩

def contains (s : BoundedSet α) (a : α) : Bool := a ∈ s.items

/-- Record an element; `true` when it was new. -/
def insert (s : BoundedSet α) (a : α) : Bool × BoundedSet α :=
  if a ∈ s.items then (false, s)
  else
    let items := s.items ++ [a]
    (true, { s with items := items.drop (items.length - s.capacity) })

theorem contains_iff {s : BoundedSet α} {a : α} : s.contains a = true ↔ a ∈ s.items :=
  decide_eq_true_iff

@[simp] theorem capacity_insert (s : BoundedSet α) (a : α) :
    (s.insert a).2.capacity = s.capacity := by
  unfold insert
  split_ifs <;> rfl

/-- An insertion adds its element and nothing else. -/
theorem mem_of_mem_insert {s : BoundedSet α} {a b : α} (h : b ∈ (s.insert a).2.items) :
    b = a ∨ b ∈ s.items := by
  unfold insert at h
  split_ifs at h
  · exact .inr h
  · have hmem : b ∈ s.items ++ [a] := List.mem_of_mem_drop h
    rw [List.mem_append, List.mem_singleton] at hmem
    exact hmem.symm

/-- With room for one, the inserted element is the last to go. -/
theorem mem_insert_self {s : BoundedSet α} {a : α} (h : 1 ≤ s.capacity) :
    a ∈ (s.insert a).2.items := by
  unfold insert
  split_ifs with hmem
  · exact hmem
  · show a ∈ (s.items ++ [a]).drop ((s.items ++ [a]).length - s.capacity)
    have hdrop : (s.items ++ [a]).length - s.capacity ≤ s.items.length := by
      rw [List.length_append, List.length_singleton]
      omega
    rw [List.drop_append_of_le_length hdrop]
    exact List.mem_append_right _ (List.mem_singleton_self a)

/-- Within its capacity, and without repetition. -/
def Tidy (s : BoundedSet α) : Prop := s.items.length ≤ s.capacity ∧ s.items.Nodup

omit [DecidableEq α] in
theorem tidy_new (capacity : Nat) : (new capacity : BoundedSet α).Tidy :=
  ⟨Nat.zero_le _, List.nodup_nil⟩

theorem Tidy.insert {s : BoundedSet α} (h : s.Tidy) (a : α) : (s.insert a).2.Tidy := by
  unfold BoundedSet.insert
  split_ifs with hmem
  · exact h
  · have hnodup : (s.items ++ [a]).Nodup :=
      List.nodup_append.mpr ⟨h.2, List.nodup_singleton a, fun x hx y hy hxy =>
        hmem (by rwa [← List.mem_singleton.mp hy, ← hxy])⟩
    refine ⟨?_, hnodup.sublist (List.drop_sublist _ _)⟩
    show ((s.items ++ [a]).drop _).length ≤ s.capacity
    rw [List.length_drop]
    omega

/-- The last `capacity` elements of a list. -/
def window (capacity : Nat) (l : List α) : List α := l.drop (l.length - capacity)

/-- A set that recorded a list holds its window, and a new element moves it on. -/
theorem insert_window {capacity : Nat} {l : List α} {a : α} (h : a ∉ window capacity l) :
    ((⟨window capacity l, capacity⟩ : BoundedSet α).insert a).2 =
      ⟨window capacity (l ++ [a]), capacity⟩ := by
  have hlen : l.length - capacity ≤ l.length := Nat.sub_le _ _
  have hitems : (window capacity l ++ [a]).drop
      ((window capacity l ++ [a]).length - capacity) = window capacity (l ++ [a]) := by
    unfold window
    rw [← List.drop_append_of_le_length hlen, List.drop_drop]
    simp only [List.length_drop, List.length_append, List.length_singleton]
    congr 1
    omega
  unfold insert
  rw [if_neg h]
  exact congrArg (BoundedSet.mk · capacity) hitems

end BoundedSet
