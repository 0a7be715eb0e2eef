import OrderService.Broadcasts
import OrderService.Services.Websocket

/-! Who can receive what the services emit: a socket hears of an order only if its token makes it
the customer, a member of the branch, or an agent who has the order or was offered it. -/
namespace OrderService
open ReadCommitted Interleaving

section Statement

/-- The token of one whom the order concerns. -/
def Entitled (Offer : String → CacheValue → Prop) (user : ActorContext) (o : OrderEntity) : Prop :=
  user.userId = o.customerId ∨
    (user.role = .restaurantUser ∧ o.branchId ∈ user.branchIds.getD []) ∨
    (user.role = .deliveryAgent ∧
      (CandidateFor Offer o.publicId user.userId ∨ o.deliveryAgentId = some user.userId))

/-- The rooms that a token opens. -/
def MayJoin (user : ActorContext) : Room → Prop
  | .customer id => id = user.userId
  | .branch id => user.role = .restaurantUser ∧ id ∈ user.branchIds.getD []
  | .agent id => user.role = .deliveryAgent ∧ id = user.userId
  | .adminAlerts => False

end Statement

section Names
variable {a b : Nat} {user : ActorContext} {room : Room}

/-- The digits of a number give it back. -/
theorem toDigits_inj (h : Nat.toDigits 10 a = Nat.toDigits 10 b) : a = b := by
  calc a = Nat.ofDigitChars 10 (Nat.toDigits 10 a) 0 := Nat.ofDigitChars_ten_toDigits.symm
    _ = Nat.ofDigitChars 10 (Nat.toDigits 10 b) 0 := by rw [h]
    _ = b := Nat.ofDigitChars_ten_toDigits

/-- The name of a room, letter by letter. -/
theorem toList_text : room.text.toList = match room with
    | .customer id => "customer:".toList ++ Nat.toDigits 10 id
    | .branch id => "branch:".toList ++ Nat.toDigits 10 id
    | .agent id => "agent:".toList ++ Nat.toDigits 10 id
    | .adminAlerts => "admin:alerts".toList := by
  cases room <;> simp [Room.text]

theorem colon_mem_text : ':' ∈ room.text.toList := by
  rw [toList_text]
  cases room <;> simp

/-- The letters of a name that is put before a number. -/
theorem toList_named (name : String) :
    (name ++ toString a).toList = name.toList ++ Nat.toDigits 10 a := by
  simp

/-- The names of the rooms of two kinds differ in their first letters, and those of one kind in
their number. -/
theorem text_customer (h : room.text = "customer:" ++ toString a) : room = .customer a := by
  have hlist := congrArg String.toList h
  rw [toList_text, toList_named] at hlist
  cases room with
  | customer id => rw [toDigits_inj (List.append_cancel_left hlist)]
  | _ => simp at hlist

theorem text_branch (h : room.text = "branch:" ++ toString a) : room = .branch a := by
  have hlist := congrArg String.toList h
  rw [toList_text, toList_named] at hlist
  cases room with
  | branch id => rw [toDigits_inj (List.append_cancel_left hlist)]
  | _ => simp at hlist

theorem text_agent (h : room.text = "agent:" ++ toString a) : room = .agent a := by
  have hlist := congrArg String.toList h
  rw [toList_text, toList_named] at hlist
  cases room with
  | agent id => rw [toDigits_inj (List.append_cancel_left hlist)]
  | _ => simp at hlist

theorem text_restaurant : room.text ≠ "restaurant:" ++ toString a := by
  intro h
  have hlist := congrArg String.toList h
  rw [toList_text, toList_named] at hlist
  cases room <;> simp at hlist

/-- A permitted channel is a room that the token opens. -/
theorem mayJoin_of_permitted (h : room.text ∈ permittedChannels user) : MayJoin user room := by
  unfold permittedChannels at h
  simp only [List.cons_append, List.mem_cons, List.mem_append] at h
  rcases h with hcustomer | hrestaurant | hagent
  · rw [text_customer hcustomer]
    rfl
  · unfold restaurantChannels at hrestaurant
    split at hrestaurant
    · next restaurantId hrole _ =>
      rcases List.mem_cons.mp hrestaurant with hname | hbranch
      · exact absurd hname text_restaurant
      · obtain ⟨b, hb, hname⟩ := List.mem_map.mp hbranch
        rw [text_branch hname.symm]
        exact ⟨hrole, hb⟩
    · cases hrestaurant
  · split_ifs at hagent with hrole
    · rw [text_agent (List.mem_singleton.mp hagent)]
      exact ⟨hrole, rfl⟩
    · cases hagent

end Names

section Server

/-- The socket sits in its own room and in channels that its token permits. -/
structure Socket.Confined (socket : Socket) : Prop where
  allowed : socket.allowed = permittedChannels socket.user
  rooms : ∀ room ∈ socket.rooms, room = socket.id.val ∨ room ∈ permittedChannels socket.user

variable {socket : Socket} {sockets : List Socket}

theorem Socket.Confined.receive (h : socket.Confined) (m : ClientMessage) :
    (socket.receive m).Confined := by
  cases m with
  | subscribe channel =>
    cases channel with
    | str channel =>
      unfold Socket.receive
      dsimp only
      split_ifs with hallowed
      · refine ⟨h.allowed, fun room hroom => ?_⟩
        rcases List.mem_cons.mp hroom with rfl | hroom
        · exact .inr (h.allowed ▸ hallowed)
        · exact h.rooms room hroom
      · exact h
    | _ => exact h
  | unsubscribe channel =>
    cases channel with
    | str channel => exact ⟨h.allowed, fun room hroom => h.rooms room (List.mem_of_mem_filter hroom)⟩
    | _ => exact h

variable (verifyAccessToken : String → Except AppError ActorContext)

theorem confined_attach (h : ∀ s ∈ sockets, s.Confined) (input : ServerInput) :
    ∀ s ∈ attachWsServer verifyAccessToken sockets input, s.Confined := by
  cases input with
  | connection id handshake =>
    unfold attachWsServer
    dsimp only
    split
    · exact h
    · intro s hs
      rcases List.mem_cons.mp hs with rfl | hs
      · exact ⟨rfl, fun room hroom => .inl (List.mem_singleton.mp hroom)⟩
      · exact h s hs
  | message id m =>
    intro s hs
    obtain ⟨old, hold, rfl⟩ := List.mem_map.mp hs
    split_ifs
    · exact (h old hold).receive m
    · exact h old hold
  | disconnect id => exact fun s hs => h s (List.mem_of_mem_filter hs)

/-- Whatever the clients send, every socket stays confined. -/
theorem confined_after (inputs : List ServerInput) :
    ∀ s ∈ socketsAfter verifyAccessToken inputs, s.Confined := by
  have hfold : ∀ (inputs : List ServerInput) (sockets : List Socket),
      (∀ s ∈ sockets, s.Confined) →
      ∀ s ∈ inputs.foldl (attachWsServer verifyAccessToken) sockets, s.Confined := by
    intro inputs
    induction inputs with
    | nil => exact fun _ h => h
    | cons input inputs ih => exact fun _ h => ih _ (confined_attach verifyAccessToken h input)
  exact hfold inputs [] fun s hs => by cases hs

/-- Only those whose token opens the room are reached there. -/
theorem mayJoin_of_receiver {inputs : List ServerInput} {room : Room}
    (h : socket ∈ receivers (socketsAfter verifyAccessToken inputs) room) :
    MayJoin socket.user room := by
  obtain ⟨hsocket, hroom⟩ := List.mem_filter.mp h
  rcases (confined_after verifyAccessToken inputs socket hsocket).rooms _
    (of_decide_eq_true hroom) with hown | hpermitted
  · -- The name of a room has a colon, and the id of a socket has none.
    have hcolon : ':' ∈ socket.id.val.toList := hown ▸ colon_mem_text
    exact absurd hcolon socket.id.property
  · exact mayJoin_of_permitted hpermitted

end Server

section Result
variable (hmacSha256 : String → String → String) (cfg : Config)
  (verifyAccessToken : String → Except AppError ActorContext)

theorem entitled_of_mayJoin {Offer : String → CacheValue → Prop} {user : ActorContext}
    {o : OrderEntity} {room : Room} (hroom : RoomOf Offer o room) (hjoin : MayJoin user room) :
    Entitled Offer user o := by
  cases room with
  | customer id => exact .inl (hjoin.symm.trans hroom)
  | branch id =>
    have hbranch : id = o.branchId := hroom
    exact .inr (.inl ⟨hjoin.1, hbranch ▸ hjoin.2⟩)
  | agent id =>
    obtain ⟨hrole, rfl⟩ := hjoin
    exact .inr (.inr ⟨hrole, hroom.symm⟩)
  | adminAlerts => exact absurd hjoin id

/-- Whatever runs at the same time and whatever the clients send, a socket that receives an
emission about an order is entitled to it. -/
theorem emissions_confidential (w : World) (hquiet : w.emitted = []) (work : Pid → Option Work)
    {t : Sys Pid Op Op.Res Err World Unit}
    (h : machine.Reaches anyOp (working hmacSha256 cfg work w) t)
    (inputs : List ServerInput) :
    ∀ m ∈ t.world.emitted,
      ∃ o, RowBetween (working hmacSha256 cfg work w) t o ∧ o.publicId = m.orderId ∧
        ∀ socket ∈ receivers (socketsAfter verifyAccessToken inputs) m.room,
          Entitled (OfferBetween (working hmacSha256 cfg work w) t) socket.user o := by
  intro m hm
  obtain ⟨o, hrow, hid, hroom⟩ := emissions_proper hmacSha256 cfg hquiet work h m hm
  refine ⟨o, hrow, hid, fun socket hsocket => ?_⟩
  exact entitled_of_mayJoin hroom (mayJoin_of_receiver verifyAccessToken hsocket)

/-- An order that waits for an agent, and agent 7 online around its branch. -/
def agentOnline : World where
  store := Store.ofDb
    { orders := [{ OrderEntity.sample "order-1" .ready with deliveryAgentId := none }] }
  cache := { entries := fun key => if key = .presence "eg" 7 then some .flag else none }

def oneTick : Pid → Option Work
  | 0 => some (.tickRegion "eg")
  | _ => none

def oneTickSchedule : List (Label Pid Env Ext) := List.replicate 11 (.act 0 { nearby := [7] })

/-- The agent joins the room of his offers. -/
def agentSubscribes : List ServerInput :=
  [.connection ⟨"sid", by decide⟩ { authToken := some "token" },
    .message ⟨"sid", by decide⟩ (.subscribe (.str "agent:7"))]

def agentToken (_ : String) : Except AppError ActorContext :=
  .ok ⟨7, .deliveryAgent, none, none, none⟩

theorem emissions_confidential_offer :
    ∃ t, machine.run (fun _ _ _ _ => true) oneTickSchedule
        (working (fun _ _ => "") sampleConfig oneTick agentOnline) = some t ∧
      ∀ m ∈ t.world.emitted,
        ∃ o, RowBetween (working (fun _ _ => "") sampleConfig oneTick agentOnline) t o ∧
          o.publicId = m.orderId ∧
          ∀ socket ∈ receivers (socketsAfter agentToken agentSubscribes) m.room,
            Entitled (OfferBetween (working (fun _ _ => "") sampleConfig oneTick agentOnline) t)
              socket.user o := by
  obtain ⟨t, ht⟩ := Option.isSome_iff_exists.mp (by decide +kernel : (machine.run
    (fun _ _ _ _ => true) oneTickSchedule (working (fun _ _ => "") sampleConfig oneTick
      agentOnline)).isSome = true)
  exact ⟨t, ht, emissions_confidential _ sampleConfig agentToken agentOnline rfl oneTick
    (Machine.reaches_of_run (fun _ _ _ _ _ => trivial) _ ht) agentSubscribes⟩

/-- The offer is told, and the agent hears it. -/
example : ((machine.run (fun _ _ _ _ => true) oneTickSchedule
    (working (fun _ _ => "") sampleConfig oneTick agentOnline)).map fun t =>
      t.world.emitted.map fun m =>
        (receivers (socketsAfter agentToken agentSubscribes) m.room).length) = some [1] := by
  decide +kernel

end Result

end OrderService
