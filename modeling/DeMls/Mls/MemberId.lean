import DeMls.Platform

/-!
# Member ids

A member's identity is its ratchet-tree position: the big-endian `u32` of its leaf index.
-/

namespace DeMls

/-- Encode a leaf index as its `member_id` bytes. -/
def memberIdOf (index : LeafNodeIndex) : Bytes := toBeBytes index

/-- Decode `member_id` bytes; `none` when they are not a 4-byte encoding. -/
def leafIndexOf (memberId : Bytes) : Option LeafNodeIndex :=
  match memberId with
  | [a, b, c, d] => some (fromBeBytes a b c d)
  | _ => none

/-- **Round trip.** Decoding an encoded leaf index gives it back. -/
@[simp] theorem leafIndexOf_memberIdOf (i : LeafNodeIndex) : leafIndexOf (memberIdOf i) = some i := by
  have hi := i.toNat_lt
  unfold memberIdOf toBeBytes leafIndexOf fromBeBytes
  rw [Option.some_inj, ← UInt32.toNat_inj]
  simp only [UInt8.toNat_ofNat', UInt32.toNat_ofNat']
  omega

theorem memberIdOf_injective : Function.Injective memberIdOf := by
  intro i j h
  have := congrArg leafIndexOf h
  simpa using this

@[simp] theorem memberIdOf_inj {i j : LeafNodeIndex} : memberIdOf i = memberIdOf j ↔ i = j :=
  memberIdOf_injective.eq_iff

/-- Bytes that decode to a leaf are that leaf's encoding: the encoding has one spelling. -/
theorem leafIndexOf_eq_some_iff {id : Bytes} {i : LeafNodeIndex} :
    leafIndexOf id = some i ↔ id = memberIdOf i := by
  constructor
  · intro h
    unfold leafIndexOf at h
    split at h
    · rename_i a b c d
      rw [Option.some_inj] at h
      subst h
      have ha := a.toNat_lt
      have hb := b.toNat_lt
      have hc := c.toNat_lt
      have hd := d.toNat_lt
      unfold memberIdOf toBeBytes fromBeBytes
      simp only [List.cons.injEq, and_true, ← UInt8.toNat_inj, UInt8.toNat_ofNat',
        UInt32.toNat_ofNat']
      omega
    · cases h
  · rintro rfl
    exact leafIndexOf_memberIdOf i

/-- An issued handle to a member: its leaf and the signature key held when issued. -/
structure MemberId where
  leaf : LeafNodeIndex
  tag : Bytes
deriving DecidableEq, Repr

def MemberId.ofMember (m : Member) : MemberId := ⟨m.index, m.signatureKey⟩

end DeMls
