import OrderService.Calls
import OrderService.DeliverySpec
import OrderService.FreshWrite

/-! A delivery that runs by itself, with any failures and any moment of death. -/
namespace OrderService
open ReadCommitted Interleaving

section Alone

variable {ok : Pid → Op → Env → World → Prop} {p : Pid} {publicId : String} {agentId : Nat}
  {rate : Int → Prop} {db : Db} {history : List (Pid × List Write)}

/-- An invariant of the committed tables and their history, for a call by itself. -/
def storeInv (I : Db → List (Pid × List Write) → Prop) (w : World) : Prop :=
  I w.store.db w.store.history

theorem storeSpec_isolated (I : Db → List (Pid × List Write) → Prop) (p : Pid) :
    Isolated (soloSpec (storeInv I) p) p := by
  apply soloSpec_isolated
  intro o e w r w' ho hi hx
  obtain ⟨hdb, hhistory⟩ := exec_quiet hx ho
  rw [storeInv, hdb, hhistory]
  exact hi

theorem storeSpec_ofStore (I : Db → List (Pid × List Write) → Prop) (p : Pid) :
    OfStore (soloSpec (storeInv I) p) := by
  intro w w' hsame hi
  change I w'.store.db w'.store.history
  rw [hsame]
  exact hi

/-- The committed tables and their history are these. -/
def AtStore (db : Db) (history : List (Pid × List Write)) (w : World) : Prop :=
  w.store.db = db ∧ w.store.history = history

theorem atStore_kept (I : World → Prop) : Kept (soloSpec I p) p (AtStore db history) where
  rely w w' hr h := by
    have heq : w' = w := hr rfl
    rw [heq]
    exact h
  step o e w r w' ho _ hx h := by
    obtain ⟨hdb, hhistory, _⟩ := exec_appends ho hx
    exact ⟨hdb.trans h.1, hhistory.trans h.2⟩

/-- What a call by itself leaves, whatever its outcome. -/
theorem runAlone_leaves {I : Db → List (Pid × List Write) → Prop} {α : Type} {prog : Svc α}
    {es : List Env} {w : World} (hI : I w.store.db w.store.history)
    (hok : ∀ e ∈ es, ∀ o w, ok p o e w)
    (hwp : wp machine ok (soloSpec (storeInv I) p) p prog (OnOk fun _ _ => True) w) :
    I (machine.runAlone p prog es w).2.store.db (machine.runAlone p prog es w).2.store.history := by
  have hsound := runAlone_sound (fun _ _ => rfl) hI hwp (runMeets_of_answers prog hok w)
  cases hrun : machine.runAlone p prog es w with
  | mk outcome w' =>
    rw [hrun] at hsound
    cases outcome with
    | returned a => exact hsound.1
    | threw e => exact hsound.1
    | crashed =>
      obtain ⟨v, hv, _, rfl⟩ := hsound
      exact hv

end Alone

end OrderService
