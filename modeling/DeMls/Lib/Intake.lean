import Mathlib.Data.Finset.Card

/-!
# First come, first kept

A bounded buffer that keeps the first element offered under each key. What it holds after a
sequence of offers, and when the order and the repetitions of the sequence make no difference.
-/

namespace Intake

variable {α κ : Type} [DecidableEq κ]

/-- Offer an element: kept when its key is new and there is room. -/
def offer (key : α → κ) (cap : Nat) (l : List α) (a : α) : List α :=
  if l.any fun x => key x = key a then l
  else if cap ≤ l.length then l
  else l ++ [a]

def offers (key : α → κ) (cap : Nat) (l as : List α) : List α := as.foldl (offer key cap) l

/-- The keys of a list. -/
def keys (key : α → κ) (l : List α) : Finset κ := (l.map key).toFinset

variable {key : α → κ} {cap : Nat} {l as bs : List α} {a x : α}

theorem mem_keys {k : κ} : k ∈ keys key l ↔ ∃ x ∈ l, key x = k := by
  simp [keys]

theorem offer_of_key (h : key a ∈ keys key l) : offer key cap l a = l := by
  unfold offer
  rw [if_pos]
  simpa [mem_keys] using h

theorem offer_of_full (h : cap ≤ l.length) : offer key cap l a = l := by
  unfold offer
  split_ifs <;> rfl

theorem offer_of_new (hkey : key a ∉ keys key l) (hroom : l.length < cap) :
    offer key cap l a = l ++ [a] := by
  unfold offer
  rw [if_neg, if_neg (by omega)]
  simpa [mem_keys] using hkey

/-- An offer is refused for its key, refused for want of room, or kept. -/
theorem offer_cases (key : α → κ) (cap : Nat) (l : List α) (a : α) :
    (key a ∈ keys key l ∧ offer key cap l a = l) ∨ (cap ≤ l.length ∧ offer key cap l a = l) ∨
      (key a ∉ keys key l ∧ l.length < cap ∧ offer key cap l a = l ++ [a]) := by
  by_cases hkey : key a ∈ keys key l
  · exact .inl ⟨hkey, offer_of_key hkey⟩
  · by_cases hroom : l.length < cap
    · exact .inr (.inr ⟨hkey, hroom, offer_of_new hkey hroom⟩)
    · exact .inr (.inl ⟨by omega, offer_of_full (by omega)⟩)

/-! ## A sequence of offers -/

@[simp] theorem offers_nil : offers key cap l [] = l := rfl

@[simp] theorem offers_cons :
    offers key cap l (a :: as) = offers key cap (offer key cap l a) as := rfl

theorem offers_append : offers key cap l (as ++ bs) = offers key cap (offers key cap l as) bs :=
  List.foldl_append

/-- What is kept stays. -/
theorem subset_offers (key : α → κ) (cap : Nat) (l as : List α) : l ⊆ offers key cap l as := by
  induction as generalizing l with
  | nil => exact fun _ h => h
  | cons a rest ih =>
    intro x hx
    rw [offers_cons]
    apply ih
    rcases offer_cases key cap l a with ⟨_, h⟩ | ⟨_, h⟩ | ⟨_, _, h⟩ <;> rw [h]
    · exact hx
    · exact hx
    · exact List.mem_append_left _ hx

/-- What is kept was there, or was offered under a key that was not. -/
theorem mem_offers (h : x ∈ offers key cap l as) : x ∈ l ∨ x ∈ as ∧ key x ∉ keys key l := by
  induction as generalizing l with
  | nil => exact .inl h
  | cons a rest ih =>
    rw [offers_cons] at h
    rcases ih h with hold | ⟨hrest, hnew⟩
    · rcases offer_cases key cap l a with ⟨_, heq⟩ | ⟨_, heq⟩ | ⟨hkey, _, heq⟩ <;> rw [heq] at hold
      · exact .inl hold
      · exact .inl hold
      · rcases List.mem_append.mp hold with hold | hlast
        · exact .inl hold
        · rw [List.mem_singleton] at hlast
          subst hlast
          exact .inr ⟨List.mem_cons_self, hkey⟩
    · refine .inr ⟨List.mem_cons_of_mem _ hrest, fun hkey => hnew ?_⟩
      rcases offer_cases key cap l a with ⟨_, heq⟩ | ⟨_, heq⟩ | ⟨_, _, heq⟩ <;> rw [heq]
      · exact hkey
      · exact hkey
      · obtain ⟨y, hy, hyk⟩ := mem_keys.mp hkey
        exact mem_keys.mpr ⟨y, List.mem_append_left _ hy, hyk⟩

/-- A full buffer keeps nothing more. -/
theorem offers_of_full (h : cap ≤ l.length) : offers key cap l as = l := by
  induction as with
  | nil => rfl
  | cons a rest ih => rw [offers_cons, offer_of_full h, ih]

/-- The keys stay distinct. -/
theorem nodup_offers (h : (l.map key).Nodup) : ((offers key cap l as).map key).Nodup := by
  induction as generalizing l with
  | nil => exact h
  | cons a rest ih =>
    rw [offers_cons]
    apply ih
    rcases offer_cases key cap l a with ⟨_, heq⟩ | ⟨_, heq⟩ | ⟨hkey, _, heq⟩ <;> rw [heq]
    · exact h
    · exact h
    · rw [List.map_append, List.map_singleton]
      refine List.Nodup.append h (List.nodup_singleton _) ?_
      rw [List.disjoint_singleton]
      simpa [keys] using hkey

/-- Unless the buffer is full, every key offered is in it. -/
theorem full_or_covers (key : α → κ) (cap : Nat) (l as : List α) :
    cap ≤ (offers key cap l as).length ∨ keys key as ⊆ keys key (offers key cap l as) := by
  induction as generalizing l with
  | nil => exact .inr (by simp [keys])
  | cons a rest ih =>
    rw [offers_cons]
    rcases ih (offer key cap l a) with hfull | hcovers
    · exact .inl hfull
    · rcases offer_cases key cap l a with ⟨hkey, heq⟩ | ⟨hfull, heq⟩ | ⟨_, _, heq⟩
      · right
        intro k hk
        obtain ⟨x, hx, rfl⟩ := mem_keys.mp hk
        rcases List.mem_cons.mp hx with rfl | hx
        · obtain ⟨y, hy, hyk⟩ := mem_keys.mp hkey
          rw [heq]
          exact mem_keys.mpr ⟨y, subset_offers key cap l rest hy, hyk⟩
        · exact hcovers (mem_keys.mpr ⟨x, hx, rfl⟩)
      · left
        rw [heq, offers_of_full hfull]
        exact hfull
      · right
        intro k hk
        obtain ⟨x, hx, rfl⟩ := mem_keys.mp hk
        rcases List.mem_cons.mp hx with rfl | hx
        · refine mem_keys.mpr ⟨x, subset_offers key cap _ rest ?_, rfl⟩
          rw [heq]
          exact List.mem_append_right _ (List.mem_singleton_self x)
        · exact hcovers (mem_keys.mpr ⟨x, hx, rfl⟩)

theorem card_keys (h : (l.map key).Nodup) : (keys key l).card = l.length := by
  unfold keys
  rw [List.toFinset_card_of_nodup h, List.length_map]

theorem keys_offers_subset : keys key (offers key cap l as) ⊆ keys key l ∪ keys key as := by
  intro k hk
  obtain ⟨x, hx, rfl⟩ := mem_keys.mp hk
  rw [Finset.mem_union]
  rcases mem_offers hx with hold | ⟨hnew, _⟩
  · exact .inl (mem_keys.mpr ⟨x, hold, rfl⟩)
  · exact .inr (mem_keys.mpr ⟨x, hnew, rfl⟩)

theorem keys_subset_offers : keys key l ⊆ keys key (offers key cap l as) := by
  intro k hk
  obtain ⟨x, hx, rfl⟩ := mem_keys.mp hk
  exact mem_keys.mpr ⟨x, subset_offers key cap l as hx, rfl⟩

/-- **Room for all.** When all the keys fit, all of them are in. -/
theorem keys_offers_of_room (h : (l.map key).Nodup) (hroom : (keys key l ∪ keys key as).card ≤ cap) :
    keys key (offers key cap l as) = keys key l ∪ keys key as := by
  rcases full_or_covers key cap l as with hfull | hcovers
  · apply Finset.eq_of_subset_of_card_le keys_offers_subset
    rw [card_keys (nodup_offers h)]
    omega
  · exact Finset.Subset.antisymm keys_offers_subset (Finset.union_subset keys_subset_offers hcovers)

/-- As many new keys as there is room for fill the buffer. -/
theorem offers_full (h : (l.map key).Nodup) (hmany : cap ≤ (keys key l ∪ keys key as).card) :
    cap ≤ (offers key cap l as).length := by
  rcases full_or_covers key cap l as with hfull | hcovers
  · exact hfull
  · rw [← card_keys (nodup_offers h)]
    exact hmany.trans (Finset.card_le_card (Finset.union_subset keys_subset_offers hcovers))

/-! ## When the order does not matter -/

/-- The sequences that offer every element of `ms`, in any order and any number of times. -/
def Covers (as ms : List α) : Prop := ∀ x, x ∈ as ↔ x ∈ ms

theorem Covers.keys {as ms : List α} (h : Covers as ms) : keys key as = keys key ms := by
  ext k
  rw [mem_keys, mem_keys]
  exact exists_congr fun x => and_congr_left' (h x)

/-- Nothing new fits, or every new element that `visible` sees is the only one with its key and
all the keys fit. -/
def OrderFree (key : α → κ) (cap : Nat) (visible : α → Bool) (l ms : List α) : Prop :=
  cap ≤ l.length ∨ ∀ m ∈ ms, visible m = true → key m ∉ keys key l →
    (keys key l ∪ keys key ms).card ≤ cap ∧ ∀ m' ∈ ms, key m' = key m → m' = m

/-- With unique keys and room, what is visible afterwards does not depend on the sequence. -/
theorem mem_offers_iff {visible : α → Bool} {ms : List α} (h : (l.map key).Nodup)
    (hroom : l.length < cap) (hfree : OrderFree key cap visible l ms) (hcovers : Covers as ms)
    (hx : visible x = true) :
    x ∈ offers key cap l as ↔ x ∈ l ∨ x ∈ ms ∧ key x ∉ keys key l := by
  constructor
  · intro hmem
    exact (mem_offers hmem).imp_right fun ⟨has, hkey⟩ => ⟨(hcovers x).mp has, hkey⟩
  · rintro (hold | ⟨hms, hkey⟩)
    · exact subset_offers key cap l as hold
    · rcases hfree with hfull | hfree
      · omega
      · obtain ⟨hcard, honly⟩ := hfree x hms hx hkey
        rw [← hcovers.keys] at hcard
        have hin : key x ∈ keys key (offers key cap l as) := by
          rw [keys_offers_of_room h hcard, Finset.mem_union]
          exact .inr (mem_keys.mpr ⟨x, (hcovers x).mpr hms, rfl⟩)
        obtain ⟨y, hy, hyk⟩ := mem_keys.mp hin
        rcases mem_offers hy with hold | ⟨has, _⟩
        · exact absurd (mem_keys.mpr ⟨y, hold, hyk⟩) hkey
        · rw [← honly y ((hcovers y).mp has) hyk]
          exact hy

/-- The two sequences that tell apart what `OrderFree` excludes. -/
theorem orderFree_of_agree [DecidableEq α] {visible : α → Bool} {ms : List α} (h : (l.map key).Nodup)
    (hagree : ∀ as bs, Covers as ms → Covers bs ms → ∀ x, visible x = true →
      (x ∈ offers key cap l as ↔ x ∈ offers key cap l bs)) :
    OrderFree key cap visible l ms := by
  by_cases hfull : cap ≤ l.length
  · exact .inl hfull
  right
  intro m hm hvisible hkey
  have hroom : l.length < cap := by omega
  -- Delivered first, `m` is kept; so it is kept by every sequence.
  have hkept : ∀ bs, Covers bs ms → m ∈ offers key cap l bs := by
    intro bs hbs
    have hfirst : Covers (m :: ms) ms := fun x => by
      rw [List.mem_cons]
      exact ⟨fun hx => hx.elim (fun hxm => hxm ▸ hm) id, .inr⟩
    rw [← hagree (m :: ms) bs hfirst hbs m hvisible, offers_cons, offer_of_new hkey hroom]
    exact subset_offers key cap _ ms (List.mem_append_right _ (List.mem_singleton_self m))
  constructor
  · -- Delivered after all the other keys, it is kept only when they leave room.
    by_contra hcard
    let others := ms.filter fun x => key x ≠ key m
    have hlast : Covers (others ++ ms) ms := fun x => by
      rw [List.mem_append, List.mem_filter]
      exact ⟨fun hx => hx.elim (·.1) id, .inr⟩
    have hunion : keys key l ∪ keys key ms = insert (key m) (keys key l ∪ keys key others) := by
      ext k
      simp only [Finset.mem_union, Finset.mem_insert, mem_keys, others, List.mem_filter,
        decide_eq_true_eq]
      constructor
      · rintro (hl | ⟨x, hx, rfl⟩)
        · exact .inr (.inl hl)
        · by_cases hxm : key x = key m
          · exact .inl hxm
          · exact .inr (.inr ⟨x, ⟨hx, hxm⟩, rfl⟩)
      · rintro (rfl | hl | ⟨x, ⟨hx, _⟩, rfl⟩)
        · exact .inr ⟨m, hm, rfl⟩
        · exact .inl hl
        · exact .inr ⟨x, hx, rfl⟩
    have hle := Finset.card_insert_le (key m) (keys key l ∪ keys key others)
    rw [← hunion] at hle
    have hothers : cap ≤ (offers key cap l others).length := offers_full h (by omega)
    have hmem := hkept _ hlast
    rw [offers_append, offers_of_full hothers] at hmem
    rcases mem_offers hmem with hold | ⟨hother, _⟩
    · exact hkey (mem_keys.mpr ⟨m, hold, rfl⟩)
    · simp [others] at hother
  · -- Delivered after another element of its key, it is not kept.
    intro m' hm' hmk
    have hfirst : Covers (m' :: ms) ms := fun x => by
      rw [List.mem_cons]
      exact ⟨fun hx => hx.elim (fun hxm => hxm ▸ hm') id, .inr⟩
    have hmem := hkept _ hfirst
    have hmem' : m' ∈ offers key cap l (m' :: ms) := by
      rw [offers_cons, offer_of_new (by rw [hmk]; exact hkey) hroom]
      exact subset_offers key cap _ ms (List.mem_append_right _ (List.mem_singleton_self m'))
    exact List.inj_on_of_nodup_map (nodup_offers h) hmem' hmem hmk

/-- **Order of delivery.** The visible part of the buffer is one and the same after every sequence
that offers the elements of `ms`, in any order and with any repetitions, exactly when `ms` is
order-free. -/
theorem perm_iff_orderFree [DecidableEq α] {visible : α → Bool} {ms : List α}
    (h : (l.map key).Nodup) :
    (∀ as bs, Covers as ms → Covers bs ms →
      ((offers key cap l as).filter visible).Perm ((offers key cap l bs).filter visible)) ↔
      OrderFree key cap visible l ms := by
  constructor
  · intro hperm
    apply orderFree_of_agree h
    intro as bs has hbs x hx
    have := (hperm as bs has hbs).mem_iff (a := x)
    simpa [hx] using this
  · intro hfree as bs has hbs
    by_cases hfull : cap ≤ l.length
    · rw [offers_of_full hfull, offers_of_full hfull]
    · have hnodup : ∀ cs, (offers key cap l cs).Nodup := fun _ => (nodup_offers h).of_map _
      rw [List.perm_ext_iff_of_nodup ((hnodup as).filter _) ((hnodup bs).filter _)]
      intro x
      rw [List.mem_filter, List.mem_filter]
      apply and_congr_left
      intro hx
      rw [mem_offers_iff h (by omega) hfree has hx, mem_offers_iff h (by omega) hfree hbs hx]

end Intake
