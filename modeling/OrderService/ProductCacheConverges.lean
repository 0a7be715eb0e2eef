import OrderService.Services.ProductCache

/-! When the product cache and core agree: three writers merge or replace the same entry, and each
of them may have read it, or asked core, before another one stored. -/
namespace OrderService
open Interleaving LastWrite

section Fields

inductive ProductField where
  | price
  | stock
  | isAvailable

def CoreBranchProduct.field (product : CoreBranchProduct) : ProductField → Int ⊕ Bool
  | .price => .inl product.price
  | .stock => .inl product.stock
  | .isAvailable => .inr product.isAvailable

/-- The fields that an event brings. -/
def ProductChange.Tells : ProductChange → ProductField → Prop
  | .price _, .price => True
  | .stock p, .stock => p.newStock.isSome = true
  | .stock p, .isAvailable => p.isAvailable.isSome = true
  | _, _ => False

variable (branchId productId : Nat)

def ProductChange.Writes (c : ProductChange) (φ : ProductField) : Prop :=
  (c.branchId = branchId ∧ c.productId = productId) ∧ c.Tells φ

theorem change_keeps {c : ProductChange} {φ : ProductField} (product : CoreBranchProduct)
    (h : ¬c.Tells φ) : (c.change product).field φ = product.field φ := by
  cases c with
  | price p =>
    cases φ with
    | price => exact absurd trivial h
    | _ => rfl
  | stock p =>
    cases φ with
    | price => rfl
    | stock =>
      have hnone : p.newStock = none := by
        cases hstock : p.newStock with
        | none => rfl
        | some stock => exact absurd (congrArg Option.isSome hstock) h
      simp only [ProductChange.change, CoreBranchProduct.field, hnone, Option.getD_none]
    | isAvailable =>
      have hnone : p.isAvailable = none := by
        cases havailable : p.isAvailable with
        | none => rfl
        | some available => exact absurd (congrArg Option.isSome havailable) h
      simp only [ProductChange.change, CoreBranchProduct.field, hnone, Option.getD_none]

theorem change_sets {c : ProductChange} {φ : ProductField} (product product' : CoreBranchProduct)
    (h : c.Tells φ) : (c.change product).field φ = (c.change product').field φ := by
  cases c with
  | price p =>
    cases φ with
    | price => rfl
    | _ => exact h.elim
  | stock p =>
    cases φ with
    | price => exact h.elim
    | stock =>
      obtain ⟨stock, hstock⟩ := Option.isSome_iff_exists.mp h
      simp only [ProductChange.change, CoreBranchProduct.field, hstock, Option.getD_some]
    | isAvailable =>
      obtain ⟨available, havailable⟩ := Option.isSome_iff_exists.mp h
      simp only [ProductChange.change, CoreBranchProduct.field, havailable, Option.getD_some]

/-- The row of one product, with the changes of all of them. -/
def productFields : Fields ProductChange CoreBranchProduct ProductField (Int ⊕ Bool) where
  apply := ProductChange.apply branchId productId
  field := CoreBranchProduct.field
  writes := ProductChange.Writes branchId productId
  keeps := by
    intro c φ product h
    unfold ProductChange.apply
    split_ifs with habout
    · exact change_keeps product fun htells => h ⟨habout, htells⟩
    · rfl
  sets := by
    intro c φ product product' h
    unfold ProductChange.apply
    rw [if_pos h.1, if_pos h.1]
    exact change_sets product product' h.2

theorem core_eq (w : ProductWorld) : w.core branchId productId
    = (w.base branchId productId).map ((productFields branchId productId).replay w.changes) := rfl

end Fields

section Statement
variable (branchId productId : Nat)

/-- A full row is stored for the product before nothing newer. The handler of an event comes after
no later event of the same field, and since it read the entry only events of its own fields have
been stored; what core has answered is stored before any change that core has made since. -/
def StoresInTurn (p : Pid) (o : ProductOp) (e : ProductEnv) (w : ProductWorld) : Prop :=
  match o with
  | .set b i (.row _) => e.fail = false → b = branchId → i = productId →
    match w.handling p with
    | some n => ∀ c c' m φ, w.changes[n]? = some c → w.changes[m]? = some c' → m ∈ w.stored →
      (n < m → c.Writes b i φ → ¬c'.Writes b i φ) ∧
        (m ∉ w.stored.take (w.read p) → c'.Writes b i φ → c.Writes b i φ)
    | none => ∀ c m φ, w.changes[m]? = some c → m ∈ w.stored → c.Writes b i φ → m < w.fetched p
  | _ => True

/-- Before any change: core's rows have their ids, and the cache agrees with them. -/
structure Agreeing (w : ProductWorld) : Prop where
  ids : ∀ b i product, w.base b i = some product → product.productId = i
  cached : ∀ b i row, w.cache b i = some (.row row) →
    ∃ product, w.base b i = some product ∧ ∀ φ, row.field φ = product.field φ
  changes : w.changes = []
  handling : w.handling = fun _ => none
  stored : w.stored = []

/-- The handler of every event has returned. -/
def AllHandled (s : ProductSys) : Prop :=
  ∀ n < s.world.changes.length, ∃ p a, s.world.handling p = some n ∧ s.procs p = some (.pure a)

end Statement

section Spec
variable {branchId productId : Nat} {w w' : ProductWorld} {p : Pid}

/-- The row is core's, but for the changes that are not among those `seen`. -/
def FreshRow (branchId productId : Nat) (w : ProductWorld) (seen : Nat → Prop)
    (row : CoreBranchProduct) : Prop :=
  ∃ product, w.base branchId productId = some product ∧
    (productFields branchId productId).UpToDate w.changes product seen row

structure ProductInv (branchId productId : Nat) (w : ProductWorld) : Prop where
  ids : ∀ b i product, w.base b i = some product → product.productId = i
  stored : ∀ n ∈ w.stored, n < w.changes.length
  handled : ∀ p n, w.handling p = some n → n < w.changes.length
  cached : ∀ row, w.cache branchId productId = some (.row row) →
    FreshRow branchId productId w (fun n => n ∈ w.stored) row

/-- What the others leave alone, and what they only add to. -/
structure ProductRely (p : Pid) (w w' : ProductWorld) : Prop where
  base : w'.base = w.base
  handling : w'.handling p = w.handling p
  read : w'.read p = w.read p
  fetched : w'.fetched p = w.fetched p
  changes : w.changes <+: w'.changes
  stored : w.stored <+: w'.stored

def productSpec (branchId productId : Nat) : Spec Pid ProductWorld :=
  ⟨ProductInv branchId productId, ProductRely⟩

theorem FreshRow.later {seen : Nat → Prop} {row : CoreBranchProduct}
    (h : FreshRow branchId productId w seen row) (hbase : w'.base = w.base)
    (hchanges : w.changes <+: w'.changes) (hseen : ∀ n, seen n → n < w.changes.length) :
    FreshRow branchId productId w' seen row := by
  obtain ⟨product, hproduct, hfresh⟩ := h
  obtain ⟨more, hmore⟩ := hchanges
  refine ⟨product, hbase ▸ hproduct, ?_⟩
  rw [← hmore]
  exact hfresh.grow hseen more

theorem FreshRow.replay {seen : Nat → Prop} {row : CoreBranchProduct}
    (h : w.core branchId productId = some row) : FreshRow branchId productId w seen row := by
  rw [core_eq] at h
  obtain ⟨product, hproduct, rfl⟩ := Option.map_eq_some_iff.mp h
  exact ⟨product, hproduct, Fields.upToDate_replay⟩

theorem change_productId (c : ProductChange) (product : CoreBranchProduct) :
    (c.change product).productId = product.productId := by
  cases c <;> rfl

/-- Core's changes leave the id of a row alone. -/
theorem core_productId {b i : Nat} {row : CoreBranchProduct}
    (hids : ∀ b i product, w.base b i = some product → product.productId = i)
    (h : w.core b i = some row) : row.productId = i := by
  obtain ⟨product, hproduct, rfl⟩ := Option.map_eq_some_iff.mp h
  have hkept : ∀ (changes : List ProductChange) (product : CoreBranchProduct),
      (changes.foldl (fun product c => c.apply b i product) product).productId
        = product.productId := by
    intro changes
    induction changes with
    | nil => exact fun _ => rfl
    | cons c changes ih =>
      intro product
      rw [List.foldl_cons, ih, ProductChange.apply]
      split_ifs
      · exact change_productId c product
      · rfl
  rw [hkept]
  exact hids b i product hproduct

theorem getElem?_of_prefix {α : Type} {xs ys : List α} {n : Nat} {x : α} (h : xs <+: ys)
    (hget : xs[n]? = some x) : ys[n]? = some x := by
  obtain ⟨zs, rfl⟩ := h
  rwa [List.getElem?_append_left (lt_of_getElem? hget)]

theorem productRely_refl (p : Pid) (w : ProductWorld) : ProductRely p w w :=
  ⟨rfl, rfl, rfl, rfl, List.prefix_refl _, List.prefix_refl _⟩

theorem ProductCache.set_same (c : ProductCache) (b i : Nat) (entry : Option ProductEntry) :
    c.set b i entry b i = entry := by
  unfold ProductCache.set
  rw [Function.update_self, Function.update_self]

theorem ProductCache.set_other {c : ProductCache} {b i b' i' : Nat} {entry : Option ProductEntry}
    (h : b = b' → i ≠ i') : c.set b i entry b' i' = c b' i' := by
  unfold ProductCache.set
  by_cases hb : b' = b
  · subst hb
    rw [Function.update_self, Function.update_of_ne (Ne.symm (h rfl))]
  · rw [Function.update_of_ne hb]

theorem productSpec_fits : (productSpec branchId productId).Fits productMachine where
  refl := productRely_refl
  trans p w w' w'' h h' := ⟨h'.base.trans h.base, h'.handling.trans h.handling,
    h'.read.trans h.read, h'.fetched.trans h.fetched, h.changes.trans h'.changes,
    h.stored.trans h'.stored⟩
  crash p w hi := ⟨hi, fun q _ => productRely_refl q w⟩
  ext x w hi := by
    cases x with
    | change c =>
      have hmore : w.changes <+: w.changes ++ [c] := List.prefix_append _ _
      have hlonger : ∀ n, n < w.changes.length → n < (w.changes ++ [c]).length := by
        intro n hn
        rw [List.length_append]
        exact Nat.lt_add_right _ hn
      refine ⟨⟨hi.ids, fun n hn => hlonger n (hi.stored n hn),
        fun p n hn => hlonger n (hi.handled p n hn), fun row hrow => ?_⟩, fun q => ?_⟩
      · exact (hi.cached row hrow).later rfl hmore hi.stored
      · exact ⟨rfl, rfl, rfl, rfl, hmore, List.prefix_refl _⟩
    | expire b i =>
      refine ⟨⟨hi.ids, hi.stored, hi.handled, fun row hrow => ?_⟩, fun q => ?_⟩
      · have hkept : w.cache branchId productId = some (.row row) := by
          by_cases hkey : b = branchId ∧ i = productId
          · rw [← hkey.1, ← hkey.2] at hrow
            exact absurd ((ProductCache.set_same _ _ _ _).symm.trans hrow) (by simp)
          · exact (ProductCache.set_other fun hb hi => hkey ⟨hb, hi⟩).symm.trans hrow
        exact hi.cached row hkept
      · exact ⟨rfl, rfl, rfl, rfl, List.prefix_refl _, List.prefix_refl _⟩

/-- What a writer needs to know of an entry that it stores. -/
theorem ProductInv.stores {b i : Nat} {entry : ProductEntry} (hi : ProductInv branchId productId w)
    (habout : ∀ n c, w.handling p = some n → w.changes[n]? = some c →
      c.branchId = b ∧ c.productId = i)
    (hrow : ∀ row, entry = .row row → b = branchId → i = productId →
      FreshRow branchId productId w (fun n => n ∈ w.stored ++ (w.handling p).toList) row) :
    ProductInv branchId productId { w with
      cache := w.cache.set b i (some entry), stored := w.stored ++ (w.handling p).toList } ∧
      ∀ q, ProductRely q w { w with
        cache := w.cache.set b i (some entry), stored := w.stored ++ (w.handling p).toList } := by
  have hmore : w.stored <+: w.stored ++ (w.handling p).toList := List.prefix_append _ _
  have hvalid : ∀ n ∈ w.stored ++ (w.handling p).toList, n < w.changes.length := by
    intro n hn
    rcases List.mem_append.mp hn with hn | hn
    · exact hi.stored n hn
    · exact hi.handled p n (Option.mem_toList.mp hn)
  refine ⟨⟨hi.ids, hvalid, hi.handled, fun row hcached => ?_⟩, fun q =>
    ⟨rfl, rfl, rfl, rfl, List.prefix_refl _, hmore⟩⟩
  by_cases hkey : b = branchId ∧ i = productId
  · rw [← hkey.1, ← hkey.2] at hcached
    have hentry : entry = .row row :=
      Option.some.inj ((ProductCache.set_same _ _ _ _).symm.trans hcached)
    exact hrow row hentry hkey.1 hkey.2
  · -- the event that is stored is about another product
    have hkept : w.cache branchId productId = some (.row row) :=
      (ProductCache.set_other fun hb hi => hkey ⟨hb, hi⟩).symm.trans hcached
    obtain ⟨product, hproduct, hfresh⟩ := hi.cached row hkept
    refine ⟨product, hproduct, hfresh.of_seen fun n c φ hget hwrites hn => ?_⟩
    rcases List.mem_append.mp hn with hn | hn
    · exact hn
    · obtain ⟨hb, hi⟩ := habout n c (Option.mem_toList.mp hn) hget
      exact absurd ⟨hb.symm.trans hwrites.1.1, hi.symm.trans hwrites.1.2⟩ hkey

end Spec

section Steps
variable {p : Pid} {e : ProductEnv} {w w' : ProductWorld} {b i : Nat}

theorem deliver_cases {r : Except Err ProductChange}
    (hx : productMachine.exec p .deliver e w = some (r, w')) :
    ∃ c, r = .ok c ∧ w.changes[w.started]? = some c ∧ w' = { w with
      started := w.started + 1, handling := Function.update w.handling p (some w.started) } := by
  obtain ⟨c, hc, heq⟩ := Option.map_eq_some_iff.mp hx
  exact ⟨c, (congrArg Prod.fst heq).symm, hc, (congrArg Prod.snd heq).symm⟩

theorem get_cases {r : Except Err (Option ProductEntry)}
    (hx : productMachine.exec p (.get b i) e w = some (r, w')) :
    w' = w ∧ r = .error .failed ∨
      r = .ok (w.cache b i) ∧ w' = { w with read := Function.update w.read p w.stored.length } := by
  simp only [productMachine, execProduct] at hx
  split_ifs at hx
  · exact .inl ⟨(congrArg Prod.snd (Option.some.inj hx)).symm,
      (congrArg Prod.fst (Option.some.inj hx)).symm⟩
  · exact .inr ⟨(congrArg Prod.fst (Option.some.inj hx)).symm,
      (congrArg Prod.snd (Option.some.inj hx)).symm⟩

theorem set_cases {entry : ProductEntry} {r : Except Err Unit}
    (hx : productMachine.exec p (.set b i entry) e w = some (r, w')) :
    w' = w ∧ r = .error .failed ∨
      e.fail = false ∧ w' = { w with
        cache := w.cache.set b i (some entry), stored := w.stored ++ (w.handling p).toList } := by
  simp only [productMachine, execProduct] at hx
  split_ifs at hx with hfail
  · exact .inl ⟨(congrArg Prod.snd (Option.some.inj hx)).symm,
      (congrArg Prod.fst (Option.some.inj hx)).symm⟩
  · exact .inr ⟨Bool.eq_false_iff.mpr hfail, (congrArg Prod.snd (Option.some.inj hx)).symm⟩

theorem request_cases {ids : List Nat} {r : Except Err (List CoreBranchProduct)}
    (hx : productMachine.exec p (.request b ids) e w = some (r, w')) :
    w' = w ∧ r = .error .failed ∨
      r = .ok (ids.filterMap (w.core b)) ∧
        w' = { w with fetched := Function.update w.fetched p w.changes.length } := by
  simp only [productMachine, execProduct] at hx
  split_ifs at hx
  · exact .inl ⟨(congrArg Prod.snd (Option.some.inj hx)).symm,
      (congrArg Prod.fst (Option.some.inj hx)).symm⟩
  · exact .inr ⟨(congrArg Prod.fst (Option.some.inj hx)).symm,
      (congrArg Prod.snd (Option.some.inj hx)).symm⟩

end Steps

section Writers
variable {branchId productId : Nat} {w : ProductWorld} {p : Pid}

abbrev wpProduct {α : Type} (branchId productId : Nat) (p : Pid) (prog : ProductSvc α)
    (Q : Except Err α → ProductWorld → Prop) (w : ProductWorld) : Prop :=
  wp productMachine (StoresInTurn branchId productId) (productSpec branchId productId) p prog Q w

def ProductChange.merge (existing : Option ProductEntry) : ProductChange → ProductEntry
  | .stock p => mergeStock existing p
  | .price p => mergePrice existing p

/-- Both handlers read the entry of their product, and store it with what they know. -/
theorem handle_eq (c : ProductChange) :
    c.handle = if c.branchId = 0 || c.productId = 0 then pure ()
      else Prog.perform (ProductOp.get c.branchId c.productId) >>= fun existing =>
        Prog.perform (ProductOp.set c.branchId c.productId (c.merge existing)) := by
  cases c <;> rfl

/-- A name is only in what has been merged into a full row. -/
theorem merge_eq_row {c : ProductChange} {existing : Option ProductEntry} {row : CoreBranchProduct}
    (h : c.merge existing = .row row) : ∃ product, existing = some (.row product) ∧
      ∀ φ, row.field φ = (c.change product).field φ := by
  cases existing with
  | none => cases c <;> cases h
  | some entry =>
    cases entry with
    | partialRow id price stock available => cases c <;> cases h
    | row product =>
      refine ⟨product, rfl, fun φ => ?_⟩
      cases c <;> cases h <;> cases φ <;> rfl

/-- A handler has read the entry of its product. -/
structure EntryRead (branchId productId : Nat) (p : Pid) (n : Nat) (c : ProductChange)
    (existing : Option ProductEntry) (w : ProductWorld) : Prop where
  handling : w.handling p = some n
  event : w.changes[n]? = some c
  seen : ∀ m ∈ w.stored.take (w.read p), m < w.changes.length
  past : w.read p ≤ w.stored.length
  row : ∀ product, existing = some (.row product) → c.branchId = branchId →
    c.productId = productId →
    FreshRow branchId productId w (fun m => m ∈ w.stored.take (w.read p)) product

theorem EntryRead.later {n : Nat} {c : ProductChange} {existing : Option ProductEntry}
    {w' : ProductWorld} (h : EntryRead branchId productId p n c existing w)
    (hr : ProductRely p w w') : EntryRead branchId productId p n c existing w' := by
  obtain ⟨more, hmore⟩ := hr.stored
  have htake : w'.stored.take (w'.read p) = w.stored.take (w.read p) := by
    rw [hr.read, ← hmore, List.take_append_of_le_length h.past]
  have hchanges : w.changes.length ≤ w'.changes.length := hr.changes.length_le
  refine ⟨hr.handling.trans h.handling, getElem?_of_prefix hr.changes h.event, ?_, ?_, ?_⟩
  · rw [htake]
    exact fun m hm => (h.seen m hm).trans_le hchanges
  · rw [hr.read]
    exact h.past.trans hr.stored.length_le
  · intro product hproduct hb hi
    rw [htake]
    exact (h.row product hproduct hb hi).later hr.base hr.changes h.seen

/-- In its turn a handler stores a row that is up to date. -/
theorem EntryRead.stores {n : Nat} {c : ProductChange} {existing : Option ProductEntry}
    {row : CoreBranchProduct} {e : ProductEnv} (h : EntryRead branchId productId p n c existing w)
    (hrow : c.merge existing = .row row) (hfail : e.fail = false)
    (hturn : StoresInTurn branchId productId p (.set c.branchId c.productId (.row row)) e w)
    (hb : c.branchId = branchId) (hi : c.productId = productId) :
    FreshRow branchId productId w (fun m => m ∈ w.stored ++ (w.handling p).toList) row := by
  obtain ⟨product, hexisting, hfields⟩ := merge_eq_row hrow
  obtain ⟨base, hbase, hfresh⟩ := h.row product hexisting hb hi
  have horder := hturn hfail hb hi
  rw [h.handling] at horder
  simp only [hb, hi] at horder
  have happly : (productFields branchId productId).UpToDate w.changes base
      (fun m => m ∈ w.stored ∨ m = n) (ProductChange.apply branchId productId c product) :=
    hfresh.apply h.event
      (fun m c' φ hget hm hlt => (horder c c' m φ h.event hget hm).1 hlt)
      fun m c' φ hget hm hunseen => (horder c c' m φ h.event hget hm).2 hunseen
  have hsame : ∀ φ, (ProductChange.apply branchId productId c product).field φ = row.field φ := by
    intro φ
    unfold ProductChange.apply
    rw [if_pos ⟨hb, hi⟩]
    exact (hfields φ).symm
  refine ⟨base, hbase, (happly.of_fields hsame).of_seen fun m c' φ _ _ hm => ?_⟩
  rw [h.handling] at hm
  rcases List.mem_append.mp hm with hm | hm
  · exact .inl hm
  · exact .inr (List.mem_singleton.mp hm)

/-- A process that has taken no event. -/
def Reading (p : Pid) (w : ProductWorld) : Prop :=
  w.handling p = none

/-- A handler that has returned has stored its event. -/
def EventStored (p : Pid) (w : ProductWorld) : Prop :=
  ∃ n c, w.handling p = some n ∧ w.changes[n]? = some c ∧
    (c.branchId ≠ 0 → c.productId ≠ 0 → n ∈ w.stored)

/-- What a process has done when it returns. -/
def Returned (p : Pid) : ProductReply → ProductWorld → Prop
  | .handled => EventStored p
  | .products _ => Reading p

theorem wp_store {n : Nat} {c : ProductChange} {existing : Option ProductEntry}
    (h : EntryRead branchId productId p n c existing w) :
    wpProduct branchId productId p
      (Prog.perform (ProductOp.set c.branchId c.productId (c.merge existing)))
      (OnOk fun _ => EventStored p) w := by
  apply wp_perform
  intro w₁ hr hi e r w₂ hturn hx
  have h₁ := EntryRead.later h hr
  obtain ⟨rfl, rfl⟩ | ⟨hfail, rfl⟩ := set_cases hx
  · exact ⟨hi, fun q _ => productRely_refl q _, trivial⟩
  have habout : ∀ m c', w₁.handling p = some m → w₁.changes[m]? = some c' →
      c'.branchId = c.branchId ∧ c'.productId = c.productId := by
    intro m c' hm hget
    have hsame : m = n := Option.some.inj (hm.symm.trans h₁.handling)
    rw [hsame] at hget
    rw [Option.some.inj (hget.symm.trans h₁.event)]
    exact ⟨rfl, rfl⟩
  have hfresh : ∀ row, c.merge existing = .row row → c.branchId = branchId →
      c.productId = productId → FreshRow branchId productId w₁
        (fun m => m ∈ w₁.stored ++ (w₁.handling p).toList) row := by
    intro row hrow hb hi'
    rw [hrow] at hturn
    exact h₁.stores hrow hfail hturn hb hi'
  have hstored := hi.stores habout hfresh
  refine ⟨hstored.1, fun q _ => hstored.2 q, ?_⟩
  cases r with
  | error err => trivial
  | ok u =>
    refine ⟨n, c, h₁.handling, h₁.event, fun _ _ => ?_⟩
    apply List.mem_append_right
    rw [h₁.handling]
    exact List.mem_singleton_self n

theorem wp_handle {n : Nat} {c : ProductChange} (hhandling : w.handling p = some n)
    (hevent : w.changes[n]? = some c) :
    wpProduct branchId productId p c.handle (OnOk fun _ => EventStored p) w := by
  rw [handle_eq]
  split_ifs with hzero
  · refine wp_pure ⟨n, c, hhandling, hevent, fun hb hi => ?_⟩
    simp only [Bool.or_eq_true, decide_eq_true_eq] at hzero
    exact absurd hzero (not_or.mpr ⟨hb, hi⟩)
  apply wp_seq
  apply wp_perform
  intro w₁ hr hi e r w₂ _ hx
  obtain ⟨rfl, rfl⟩ | ⟨rfl, rfl⟩ := get_cases hx
  · exact ⟨hi, fun q _ => productRely_refl q _, trivial⟩
  refine ⟨⟨hi.ids, hi.stored, hi.handled, hi.cached⟩, fun q hq =>
    ⟨rfl, rfl, Function.update_of_ne hq _ _, rfl, List.prefix_refl _, List.prefix_refl _⟩, ?_⟩
  apply wp_store
  have htake : w₁.stored.take (Function.update w₁.read p w₁.stored.length p) = w₁.stored := by
    rw [Function.update_self, List.take_length]
  refine ⟨hr.handling.trans hhandling, getElem?_of_prefix hr.changes hevent, ?_, ?_, ?_⟩
  · rw [htake]
    exact hi.stored
  · exact (Function.update_self _ _ _).le
  · intro product hproduct hb hi'
    rw [htake]
    rw [hb, hi'] at hproduct
    exact hi.cached product hproduct

theorem wp_handler (w : ProductWorld) :
    wpProduct branchId productId p ProductCall.handler.prog (OnOk (Returned p)) w := by
  apply wp_seq
  apply wp_perform
  intro w₁ hr hi e r w₂ _ hx
  obtain ⟨c, rfl, hevent, rfl⟩ := deliver_cases hx
  have hbound : w₁.started < w₁.changes.length := lt_of_getElem? hevent
  have hhandled : ∀ q n, Function.update w₁.handling p (some w₁.started) q = some n →
      n < w₁.changes.length := by
    intro q n hq
    by_cases hqp : q = p
    · rw [hqp, Function.update_self] at hq
      rwa [← Option.some.inj hq]
    · rw [Function.update_of_ne hqp] at hq
      exact hi.handled q n hq
  refine ⟨⟨hi.ids, hi.stored, hhandled, hi.cached⟩, fun q hq =>
    ⟨rfl, Function.update_of_ne hq _ _, rfl, rfl, List.prefix_refl _, List.prefix_refl _⟩, ?_⟩
  apply wp_seq
  refine wp_mono ?_ (wp_handle (Function.update_self _ _ _) hevent)
  intro r w' hr
  cases r with
  | error err => trivial
  | ok u => exact hr

theorem wp_lookupProducts {b : Nat} (ids : List Nat) (h : Reading p w) :
    wpProduct branchId productId p (lookupProducts b ids) (OnOk fun _ => Reading p) w := by
  induction ids generalizing w with
  | nil => exact wp_pure h
  | cons id ids ih =>
    apply wp_seq
    apply wp_perform
    intro w₁ hr hi e r w₂ _ hx
    have h₁ : Reading p w₁ := hr.handling.trans h
    obtain ⟨rfl, rfl⟩ | ⟨rfl, rfl⟩ := get_cases hx
    · exact ⟨hi, fun q _ => productRely_refl q _, trivial⟩
    refine ⟨⟨hi.ids, hi.stored, hi.handled, hi.cached⟩, fun q hq =>
      ⟨rfl, rfl, Function.update_of_ne hq _ _, rfl, List.prefix_refl _, List.prefix_refl _⟩, ?_⟩
    apply wp_seq
    refine wp_mono ?_ (ih h₁)
    intro r w' hr
    cases r with
    | error err => trivial
    | ok u => exact hr

/-- What core has answered, with the changes that it had made by then. -/
structure Answered (branchId productId : Nat) (p : Pid) (b : Nat) (data : List CoreBranchProduct)
    (w : ProductWorld) : Prop where
  reading : Reading p w
  past : w.fetched p ≤ w.changes.length
  row : ∀ product ∈ data, b = branchId → product.productId = productId →
    FreshRow branchId productId w (fun m => m < w.fetched p) product

theorem Answered.later {b : Nat} {data : List CoreBranchProduct} {w' : ProductWorld}
    (h : Answered branchId productId p b data w) (hr : ProductRely p w w') :
    Answered branchId productId p b data w' := by
  refine ⟨hr.handling.trans h.reading, ?_, fun product hproduct hb hi => ?_⟩
  · rw [hr.fetched]
    exact h.past.trans hr.changes.length_le
  · rw [hr.fetched]
    exact (h.row product hproduct hb hi).later hr.base hr.changes
      fun m hm => hm.trans_le h.past

theorem wp_storeProducts {b : Nat} {data : List CoreBranchProduct}
    (h : Answered branchId productId p b data w) :
    wpProduct branchId productId p (storeProducts b data) (OnOk fun _ => Reading p) w := by
  induction data generalizing w with
  | nil => exact wp_pure h.reading
  | cons product data ih =>
    apply wp_do
    apply wp_catch
    apply wp_perform
    intro w₁ hr hi e r w₂ hturn hx
    have h₁ := h.later hr
    have hrest : ∀ v, ProductRely p w₁ v →
        wpProduct branchId productId p (storeProducts b data) (OnOk fun _ => Reading p) v := by
      intro v hv
      have hv' := h₁.later hv
      exact ih ⟨hv'.reading, hv'.past, fun other hother =>
        hv'.row other (List.mem_cons_of_mem product hother)⟩
    obtain ⟨rfl, rfl⟩ | ⟨hfail, rfl⟩ := set_cases hx
    · exact ⟨hi, fun q _ => productRely_refl q _, hrest _ (productRely_refl p _)⟩
    have hreading : w₁.handling p = none := h₁.reading
    have habout : ∀ m c, w₁.handling p = some m → w₁.changes[m]? = some c →
        c.branchId = b ∧ c.productId = product.productId := by
      intro m c hm
      rw [hreading] at hm
      cases hm
    have hfresh : ∀ row, ProductEntry.row product = .row row → b = branchId →
        product.productId = productId → FreshRow branchId productId w₁
          (fun m => m ∈ w₁.stored ++ (w₁.handling p).toList) row := by
      intro row hrow hb hi'
      cases hrow
      have horder := hturn hfail hb hi'
      rw [hreading] at horder
      obtain ⟨base, hbase, hfresh⟩ := h₁.row product List.mem_cons_self hb hi'
      refine ⟨base, hbase, hfresh.of_seen fun m c φ hget hwrites hm => ?_⟩
      rw [hreading] at hm
      have hmem : m ∈ w₁.stored := by simpa using hm
      apply horder c m φ hget hmem
      rw [hb, hi']
      exact hwrites
    have hstored := hi.stores habout hfresh
    refine ⟨hstored.1, fun q _ => hstored.2 q, ?_⟩
    cases r with
    | error err => exact hrest _ (hstored.2 p)
    | ok u => exact hrest _ (hstored.2 p)

theorem wp_readBranchProducts {b : Nat} {ids : List Nat} (h : Reading p w) :
    wpProduct branchId productId p (readBranchProducts b ids) (OnOk fun _ => Reading p) w := by
  unfold readBranchProducts
  apply wp_seq
  refine wp_mono ?_ (wp_lookupProducts ids.dedup h)
  intro r w₁ h₁
  cases r with
  | error err => trivial
  | ok lookups =>
    show wpProduct branchId productId p (if (missedIds lookups).isEmpty then _ else _) _ w₁
    split_ifs
    · exact wp_pure h₁
    apply wp_seq
    apply wp_perform
    intro w₂ hr hi e r w₃ _ hx
    obtain ⟨rfl, rfl⟩ | ⟨rfl, rfl⟩ := request_cases hx
    · exact ⟨hi, fun q _ => productRely_refl q _, trivial⟩
    refine ⟨⟨hi.ids, hi.stored, hi.handled, hi.cached⟩, fun q hq =>
      ⟨rfl, rfl, rfl, Function.update_of_ne hq _ _, List.prefix_refl _, List.prefix_refl _⟩, ?_⟩
    apply wp_seq
    refine wp_mono ?_ (wp_storeProducts ⟨hr.handling.trans h₁, ?_, ?_⟩)
    · intro r w' hr
      cases r with
      | error err => trivial
      | ok u => exact hr
    · exact (Function.update_self _ _ _).le
    · intro product hproduct hb hi'
      obtain ⟨id, _, hcore⟩ := List.mem_filterMap.mp hproduct
      have hid : id = productId := (core_productId hi.ids hcore).symm.trans hi'
      rw [hb, hid] at hcore
      exact .replay hcore

end Writers

section Result
variable {branchId productId : Nat} {calls : Pid → Option ProductCall} {w : ProductWorld}
  {s : ProductSys}

theorem returned_stable (p : Pid) :
    (productSpec branchId productId).Stable p
      (OnOk (Returned p) : Except Err ProductReply → ProductWorld → Prop) := by
  intro r w w' hr _ h
  cases r with
  | error err => trivial
  | ok reply =>
    cases reply with
    | products found => exact hr.handling.trans h
    | handled =>
      obtain ⟨n, c, hhandling, hevent, hstored⟩ := h
      obtain ⟨more, hmore⟩ := hr.stored
      refine ⟨n, c, hr.handling.trans hhandling, getElem?_of_prefix hr.changes hevent,
        fun hb hi => ?_⟩
      rw [← hmore]
      exact List.mem_append_left _ (hstored hb hi)

theorem wp_productCall (c : ProductCall) (p : Pid) (hreading : Reading p w) :
    wpProduct branchId productId p c.prog (OnOk (Returned p)) w := by
  cases c with
  | handler => exact wp_handler w
  | getBranchProducts b ids =>
    apply wp_seq
    refine wp_mono ?_ (wp_readBranchProducts hreading)
    intro r w' hr
    cases r with
    | error err => trivial
    | ok found => exact hr

theorem sound_products (hw : Agreeing w)
    (hreach : productMachine.Reaches (StoresInTurn branchId productId) (servingProducts calls w) s) :
    Sound productMachine (StoresInTurn branchId productId) (productSpec branchId productId)
      (fun p => OnOk (Returned p)) s := by
  have hreading : ∀ p, w.handling p = none := fun p => congrFun hw.handling p
  refine sound_reaches productSpec_fits returned_stable ⟨?_, ?_⟩ hreach
  · refine ⟨hw.ids, fun n hn => ?_, fun p n hn => ?_, fun row hrow => ?_⟩
    · have hnone : n ∈ ([] : List Nat) := hw.stored ▸ hn
      cases hnone
    · exact absurd ((hreading p).symm.trans hn) (by simp)
    · obtain ⟨product, hproduct, hfields⟩ := hw.cached _ _ row hrow
      refine ⟨product, hproduct, fun φ => .inr ?_⟩
      show row.field φ = ((productFields branchId productId).replay w.changes product).field φ
      rw [hw.changes]
      exact hfields φ
  · intro p prog hp
    obtain ⟨c, -, rfl⟩ := Option.map_eq_some_iff.mp hp
    exact wp_productCall c p (hreading p)

/-- As long as every full row is stored in its turn, the entry of a product that has a name is as
core's row is, once the handlers of all events have returned. -/
theorem product_cache_converges (hw : Agreeing w) (hbranch : branchId ≠ 0)
    (hproduct : productId ≠ 0)
    (hreach : productMachine.Reaches (StoresInTurn branchId productId) (servingProducts calls w) s)
    (hhandled : AllHandled s) {row : CoreBranchProduct}
    (hrow : s.world.cache branchId productId = some (.row row)) :
    ∃ product, s.world.core branchId productId = some product ∧ row.price = product.price ∧
      row.stock = product.stock ∧ row.isAvailable = product.isAvailable := by
  obtain ⟨hinv, hprocs⟩ := sound_products hw hreach
  obtain ⟨base, hbase, hfresh⟩ := hinv.cached row hrow
  have hall : ∀ n c φ, s.world.changes[n]? = some c → c.Writes branchId productId φ →
      n ∈ s.world.stored := by
    intro n c φ hget hwrites
    obtain ⟨p, a, hhandling, hreturned⟩ := hhandled n (lt_of_getElem? hget)
    have hdone : Returned p a s.world := hprocs p _ hreturned
    cases a with
    | products found => exact absurd (hdone.symm.trans hhandling) (by simp)
    | handled =>
      obtain ⟨m, c', hhandling', hevent, hstored⟩ := hdone
      have hsame : m = n := Option.some.inj (hhandling'.symm.trans hhandling)
      subst hsame
      have hchange : c' = c := Option.some.inj (hevent.symm.trans hget)
      subst hchange
      exact hstored (hwrites.1.1 ▸ hbranch) (hwrites.1.2 ▸ hproduct)
  have hfields := hfresh.field_eq hall
  refine ⟨_, (core_eq branchId productId s.world).trans (by rw [hbase]; rfl), ?_, ?_, ?_⟩
  · exact Sum.inl.inj (hfields .price)
  · exact Sum.inl.inj (hfields .stock)
  · exact Sum.inr.inj (hfields .isAvailable)

end Result

section Samples

def koshary : CoreBranchProduct := ⟨7, "Koshary", none, 10, 5, true⟩

/-- Two handlers, and a call that asks for product 7 of branch 1. -/
def twoHandlers : Pid → Option ProductCall
  | 0 => some .handler
  | 1 => some .handler
  | 2 => some (.getBranchProducts 1 [7])
  | _ => none

def onlyKoshary (cached : Bool) : ProductWorld where
  base b i := if b = 1 ∧ i = 7 then some koshary else none
  cache b i := if cached ∧ b = 1 ∧ i = 7 then some (.row koshary) else none

theorem onlyKoshary_agreeing (cached : Bool) : Agreeing (onlyKoshary cached) := by
  refine ⟨fun b i product h => ?_, fun b i row h => ?_, rfl, rfl, rfl⟩
  · obtain ⟨⟨-, hi⟩, heq⟩ := Option.ite_none_right_eq_some.mp h
    rw [← Option.some.inj heq, hi]
    rfl
  · obtain ⟨⟨-, hb, hi⟩, heq⟩ := Option.ite_none_right_eq_some.mp h
    cases heq
    exact ⟨koshary, if_pos ⟨hb, hi⟩, fun _ => rfl⟩

/-- The price becomes 12, then the stock 3. -/
def changedTwice : List (Label Pid ProductEnv ProductExt) :=
  [.ext (.change (.price ⟨1, 7, 12⟩)), .ext (.change (.stock ⟨1, 7, some 3, none⟩))]

/-- Both handlers read the entry before one of them writes it. -/
def bothRead : List (Label Pid ProductEnv ProductExt) :=
  changedTwice ++ [.act 0 {}, .act 1 {}, .act 0 {}, .act 1 {}, .act 0 {}, .act 1 {}]

/-- The entry is fetched, and the handler of the price comes after it. -/
def fetchedFirst : List (Label Pid ProductEnv ProductExt) :=
  [.act 2 {}, .act 2 {}, .act 2 {}, .ext (.change (.price ⟨1, 7, 12⟩)), .act 0 {}, .act 0 {},
    .act 0 {}]

def hasHandled (s : ProductSys) (p : Pid) (n : Nat) : Bool :=
  s.world.handling p = some n &&
    match s.procs p with
    | some (.pure _) => true
    | _ => false

theorem of_hasHandled {s : ProductSys} {p : Pid} {n : Nat} (h : hasHandled s p n = true) :
    ∃ p a, s.world.handling p = some n ∧ s.procs p = some (.pure a) := by
  unfold hasHandled at h
  obtain ⟨hhandling, hreturned⟩ := Bool.and_eq_true_iff.mp h
  split at hreturned
  · next a ha => exact ⟨p, a, of_decide_eq_true hhandling, ha⟩
  · cases hreturned

/-- The row of the entry, if it has a name. -/
def namedRow (w : ProductWorld) (branchId productId : Nat) : Option CoreBranchProduct :=
  match w.cache branchId productId with
  | some (.row row) => some row
  | _ => none

theorem of_namedRow {w : ProductWorld} {branchId productId : Nat} {row : CoreBranchProduct}
    (h : namedRow w branchId productId = some row) :
    w.cache branchId productId = some (.row row) := by
  unfold namedRow at h
  split at h
  · next found hfound => rw [hfound, Option.some.inj h]
  · cases h

/-- Before any handler has stored, every store is in its turn. -/
theorem storesInTurn_of_none {branchId productId : Nat} (p : Pid) (o : ProductOp) (e : ProductEnv)
    (w : ProductWorld) (h : w.stored.isEmpty = true) : StoresInTurn branchId productId p o e w := by
  have hnone : w.stored = [] := List.isEmpty_iff.mp h
  unfold StoresInTurn
  split
  · intro _ _ _
    split
    · intro c c' m φ _ _ hm
      rw [hnone] at hm
      cases hm
    · intro c m φ _ hm
      rw [hnone] at hm
      cases hm
  · trivial

theorem product_cache_converges_fetched :
    ∃ s, productMachine.Reaches (StoresInTurn 1 7)
        (servingProducts twoHandlers (onlyKoshary false)) s ∧
      s.world.changes.length = 1 ∧ AllHandled s ∧
      ∃ row product, s.world.cache 1 7 = some (.row row) ∧ s.world.core 1 7 = some product ∧
        row.price = product.price := by
  have hrun : (productMachine.run (fun _ _ _ w => w.stored.isEmpty) fetchedFirst
      (servingProducts twoHandlers (onlyKoshary false))).any (fun s =>
        s.world.changes.length = 1 && (hasHandled s 0 0 && (namedRow s.world 1 7).isSome)) = true := by
    decide +kernel
  obtain ⟨s, hs, hholds⟩ := (Option.any_eq_true _ _).mp hrun
  obtain ⟨hlength, hrest⟩ := Bool.and_eq_true_iff.mp hholds
  obtain ⟨hhandled, hcached⟩ := Bool.and_eq_true_iff.mp hrest
  have hone : s.world.changes.length = 1 := of_decide_eq_true hlength
  have hall : AllHandled s := by
    intro n hn
    have hzero : n = 0 := by omega
    rw [hzero]
    exact of_hasHandled hhandled
  have hreach : productMachine.Reaches (StoresInTurn 1 7)
      (servingProducts twoHandlers (onlyKoshary false)) s :=
    Machine.reaches_of_run storesInTurn_of_none _ hs
  obtain ⟨row, hnamed⟩ := Option.isSome_iff_exists.mp hcached
  have hrow : s.world.cache 1 7 = some (.row row) := of_namedRow hnamed
  obtain ⟨product, hcore, hprice, -⟩ := product_cache_converges (onlyKoshary_agreeing false)
    (by decide) (by decide) hreach hall hrow
  exact ⟨s, hreach, hone, hall, row, product, hrow, hcore, hprice⟩

/-- Both handlers have read the entry before one stored: the price event is lost. -/
theorem price_lost_between_handlers :
    ∃ s, productMachine.Reaches (fun _ _ _ _ => True)
        (servingProducts twoHandlers (onlyKoshary true)) s ∧ Agreeing (onlyKoshary true) ∧
      AllHandled s ∧ ∃ row product, s.world.cache 1 7 = some (.row row) ∧
        s.world.core 1 7 = some product ∧ row.price ≠ product.price := by
  have hrun : (productMachine.run (fun _ _ _ _ => true) bothRead
      (servingProducts twoHandlers (onlyKoshary true))).any (fun s =>
        s.world.changes.length = 2 && (hasHandled s 0 0 && (hasHandled s 1 1 &&
          ((namedRow s.world 1 7).map CoreBranchProduct.price = some 10 &&
            (s.world.core 1 7).map CoreBranchProduct.price = some 12)))) = true := by
    decide +kernel
  obtain ⟨s, hs, hholds⟩ := (Option.any_eq_true _ _).mp hrun
  obtain ⟨hlength, hrest⟩ := Bool.and_eq_true_iff.mp hholds
  obtain ⟨hfirst, hrest⟩ := Bool.and_eq_true_iff.mp hrest
  obtain ⟨hsecond, hprices⟩ := Bool.and_eq_true_iff.mp hrest
  have htwo : s.world.changes.length = 2 := of_decide_eq_true hlength
  have hall : AllHandled s := by
    intro n hn
    have hcases : n = 0 ∨ n = 1 := by omega
    rcases hcases with rfl | rfl
    · exact of_hasHandled hfirst
    · exact of_hasHandled hsecond
  refine ⟨s, Machine.reaches_of_run (fun _ _ _ _ _ => trivial) _ hs, onlyKoshary_agreeing true, hall,
    ?_⟩
  obtain ⟨hcached, hnow⟩ := Bool.and_eq_true_iff.mp hprices
  obtain ⟨row, hnamed, hten⟩ := Option.map_eq_some_iff.mp (of_decide_eq_true hcached)
  obtain ⟨product, hcore, htwelve⟩ := Option.map_eq_some_iff.mp (of_decide_eq_true hnow)
  refine ⟨row, product, of_namedRow hnamed, hcore, ?_⟩
  rw [hten, htwelve]
  decide

end Samples

end OrderService
