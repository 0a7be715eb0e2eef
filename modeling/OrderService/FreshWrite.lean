import OrderService.Isolation

/-! Status writes that find the status which their call has read. -/
namespace OrderService
open ReadCommitted Interleaving

/-- The tables that a statement of call `p` sees. -/
def World.tables (w : World) (p : Pid) : Conn → Db
  | .pool => w.store.db
  | .trx => w.view p

/-- A status is written only over the status that the call read last. -/
def FreshWrite (p : Pid) (o : Op) (_ : Env) (w : World) : Prop :=
  match o with
  | .sql c (.updateOrderStatus publicId ..) =>
    ∀ o, (w.tables p c).order publicId = some o → w.seen p = some o.status
  | _ => True

/-- The same, to be run. -/
def freshWrite (p : Pid) (o : Op) (_ : Env) (w : World) : Bool :=
  match o with
  | .sql c (.updateOrderStatus publicId ..) =>
    ((w.tables p c).order publicId).all fun o => w.seen p = some o.status
  | _ => true

theorem fresh_of_freshWrite (p : Pid) (o : Op) (e : Env) (w : World)
    (h : freshWrite p o e w = true) : FreshWrite p o e w := by
  unfold freshWrite at h
  unfold FreshWrite
  split
  · intro o ho
    simp only [ho, Option.all_some, decide_eq_true_eq] at h
    exact h
  · trivial

/-- The order that a call reads is committed, and is the one its ghost remembers. -/
theorem wp_read {S : Spec Pid World} {ok : Pid → Op → Env → World → Prop} {p : Pid} {w : World}
    (hS : Isolated S p) (hstore : OfStore S) {publicId : String}
    {P : Option OrderEntity → World → Prop} (hnone : ∀ w', P none w')
    (hsome : ∀ o v w', S.rely p w v → S.inv v → v.store.db.order publicId = some o →
      w'.seen p = some o.status → w'.store = v.store → P (some o) w') :
    wp machine ok S p (findOrderByPublicId publicId .pool) (OnOk P) w := by
  apply wp_pool_read hS hstore fun _ _ _ => rfl
  intro w₁ e found hr₁ hi₁ _ hreply hsame _
  cases found with
  | none => exact hnone _
  | some o =>
    refine hsome o w₁ _ hr₁ hi₁ (Except.ok.inj hreply) ?_ hsame
    change Sql.observe p w₁.seen (.findOrderByPublicId publicId) (w₁.onPool _).reply p = _
    rw [hreply]
    exact Function.update_self _ _ _

end OrderService
