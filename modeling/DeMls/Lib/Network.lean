import Mathlib.Logic.Function.Basic

/-!
# Nodes on a network that loses, repeats and reorders

A world has nodes with a state each, the messages that were ever out, and what was ever said at a
node. A deed of a node reads messages, may say something, and leaves a state that has messages out.
Messages are delivered late, several times, out of order or never, but none is read that was not out
before. What each message and each state owe to what was said, if every deed keeps it, holds in
every world that is reached (`Reach.accounted`).
-/

namespace Network

variable {ι σ μ κ : Type}

/-- One deed: what it reads, what is said in it, and the state it leaves. -/
structure Deed (σ μ κ : Type) where
  reads : μ → Prop
  utters : κ → Prop
  leaves : σ

structure World (ι σ μ κ : Type) where
  node : ι → Option σ
  sent : μ → Prop
  said : κ → Prop

/-- Nobody is there yet. -/
def World.void : World ι σ μ κ := ⟨fun _ => none, fun _ => False, fun _ => False⟩

variable [DecidableEq ι] (out : σ → μ → Prop)

/-- The world after a deed of node `i`. -/
def World.after (w : World ι σ μ κ) (i : ι) (deed : Deed σ μ κ) : World ι σ μ κ where
  node := Function.update w.node i (some deed.leaves)
  sent m := w.sent m ∨ out deed.leaves m
  said k := w.said k ∨ deed.utters k

variable (born : σ → Prop) (does : σ → Deed σ μ κ → Prop)

/-- The worlds that nodes reach by being born and by deeds that read what is out. -/
inductive Reach : World ι σ μ κ → Prop
  | void : Reach .void
  | birth {w : World ι σ μ κ} {s : σ} (i : ι) (hw : Reach w) (hborn : born s) :
      Reach (w.after out i ⟨fun _ => False, fun _ => False, s⟩)
  | deed {w : World ι σ μ κ} {s : σ} {deed : Deed σ μ κ} (i : ι) (hw : Reach w)
      (hnode : w.node i = some s) (hdoes : does s deed) (hsent : ∀ m, deed.reads m → w.sent m) :
      Reach (w.after out i deed)

variable {out born does}

/-- **Accounts.** A state accounts for itself and its messages by what was said. What is said later
takes no account away, and a deed that reads accounted messages keeps the account. -/
theorem Reach.accounted {w : World ι σ μ κ} (h : Reach out born does w)
    (ok : (κ → Prop) → σ → Prop) (fair : (κ → Prop) → μ → Prop)
    (hok : ∀ {said more : κ → Prop} {s : σ}, (∀ k, said k → more k) → ok said s → ok more s)
    (hfair : ∀ {said more : κ → Prop} {m : μ}, (∀ k, said k → more k) → fair said m → fair more m)
    (hout : ∀ {said : κ → Prop} {s : σ} {m : μ}, ok said s → out s m → fair said m)
    (hborn : ∀ {said : κ → Prop} {s : σ}, born s → ok said s)
    (hdoes : ∀ {said : κ → Prop} {s : σ} {deed : Deed σ μ κ}, does s deed → ok said s →
      (∀ m, deed.reads m → fair said m) → ok (fun k => said k ∨ deed.utters k) deed.leaves) :
    (∀ i s, w.node i = some s → ok w.said s) ∧ ∀ m, w.sent m → fair w.said m := by
  -- A deed of node `i` leaves the other nodes as they are, under more that was said.
  have hafter : ∀ {w : World ι σ μ κ} (i : ι) (deed : Deed σ μ κ),
      ok (fun k => w.said k ∨ deed.utters k) deed.leaves →
      ((∀ j s, w.node j = some s → ok w.said s) ∧ ∀ m, w.sent m → fair w.said m) →
      (∀ j s, (w.after out i deed).node j = some s → ok (w.after out i deed).said s) ∧
        ∀ m, (w.after out i deed).sent m → fair (w.after out i deed).said m := by
    intro w i deed hleaves ⟨hnodes, hmessages⟩
    refine ⟨fun j s hj => ?_, fun m hm => ?_⟩
    · unfold World.after at hj
      dsimp only at hj
      by_cases hij : j = i
      · subst hij
        rw [Function.update_self] at hj
        cases hj
        exact hleaves
      · rw [Function.update_of_ne hij] at hj
        exact hok (fun _ => .inl) (hnodes j s hj)
    · rcases hm with hm | hm
      · exact hfair (fun _ => .inl) (hmessages m hm)
      · exact hout hleaves hm
  induction h with
  | void => exact ⟨fun _ _ h => (nomatch h), fun _ h => h.elim⟩
  | birth i _ hs ih => exact hafter i _ (hborn hs) ih
  | @deed w s deed i _ hnode hd hsent ih =>
    exact hafter i deed (hdoes hd (ih.1 i s hnode) fun m hm => ih.2 m (hsent m hm)) ih

end Network
