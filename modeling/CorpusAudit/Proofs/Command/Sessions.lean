import CorpusAudit.Command.Session
import CorpusAudit.Proofs.Storage.Trees

/-!
# Sessions that only read

A session `Ends` on a tree with a result if it comes to this result whatever was printed
before, and leaves the tree as it is.  What it prints does not matter.
-/

namespace CorpusAudit.Session

variable {α β : Type}

/-- What a session comes to on a tree, what it has printed, and the tree it leaves. -/
def runOnTree (x : Session (StateM Tree) α) (t : Tree) : (Except Failure α × Transcript) × Tree :=
  StateT.run (Session.run x) t

/-- The session comes to a result and leaves the tree as it is. -/
def Ends (x : Session (StateM Tree) α) (t : Tree) (a : α) : Prop :=
  ∀ before, ∃ after, StateT.run (StateT.run (ExceptT.run x) before) t = ((.ok a, after), t)

variable {t : Tree}

theorem ends_pure (a : α) :
  Ends (pure a) t a
  := fun before => ⟨before, rfl⟩

theorem ends_bind {x : Session (StateM Tree) α} {f : α → Session (StateM Tree) β} {a : α} {b : β}
    (hx : Ends x t a) (hf : Ends (f a) t b) :
  Ends (x >>= f) t b
  := by
  intro before
  obtain ⟨between, hbetween⟩ := hx before
  obtain ⟨after, hafter⟩ := hf between
  refine ⟨after, ?_⟩
  have hbind : StateT.run (StateT.run (ExceptT.run (x >>= f)) before) t
      = let r := StateT.run (StateT.run (ExceptT.run x) before) t
        StateT.run (StateT.run (ExceptT.bindCont f r.1.1) r.1.2) r.2 := rfl
  rw [hbind, hbetween]
  exact hafter

theorem ends_during {x : ExceptT Fault (StateM Tree) α} {a : α} (h : onTree x t = (.ok a, t))
    (activity : Option String) :
  Ends (during activity x) t a
  := by
  intro before
  refine ⟨before, ?_⟩
  have hduring : StateT.run (StateT.run (ExceptT.run (during activity x)) before) t
      = (((onTree x t).1.mapError fun e => ⟨activity, e⟩, before), (onTree x t).2) := rfl
  rw [hduring, h]
  rfl

theorem ends_emit (c : Channel) (s : String) :
  Ends (emit c s) t ()
  := fun before => ⟨before.print c s, rfl⟩

theorem ends_ofExcept {ε : Type} (fault : ε → Fault) {x : Except ε α} {a : α} (h : x = .ok a) :
  Ends (ofExcept fault x) t a
  := by
  rw [h]
  exact fun before => ⟨before, rfl⟩

/-- What a session that ends comes to when it is run. -/
theorem runOnTree_of_ends {x : Session (StateM Tree) α} {a : α} (h : Ends x t a) :
  ∃ transcript, runOnTree x t = ((.ok a, transcript), t)
  := h .empty

end CorpusAudit.Session
