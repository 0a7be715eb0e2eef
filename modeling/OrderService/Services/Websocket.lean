import OrderService.Runtime
import OrderService.Services.OrderStatus

/-! The socket server: the handshake, the channels that a token may join, and the rooms. -/
namespace OrderService

section Handshakes

def wsNoTokenError : AppError := ⟨"No token provided", 401⟩

structure Handshake where
  authToken : Option String := none
  cookie : Option String := none

/-- `text.trim()`. -/
def trimText (text : List Char) : List Char :=
  ((text.dropWhile trimmed).reverse.dropWhile trimmed).reverse

/-- The value of a part `name=value`, where it is one of this name. -/
def cookieValue (name : String) (part : List Char) : Option String :=
  if '=' ∈ part ∧ trimText (part.takeWhile (· ≠ '=')) = name.toList then
    some (String.ofList (trimText ((part.dropWhile (· ≠ '=')).drop 1)))
  else none

def extractCookie (cookieHeader : Option String) (name : String) : Option String :=
  match cookieHeader with
  | none => none
  | some header => (QueryString.split ';' header.toList).findSome? (cookieValue name)

/-- `verifyAccessToken` is told apart by what it makes of a token. -/
def authenticateHandshake (verifyAccessToken : String → Except AppError ActorContext)
    (handshake : Handshake) : Except AppError ActorContext :=
  match handshake.authToken.or (extractCookie handshake.cookie "access_token") with
  | none => .error wsNoTokenError
  | some token => if token = "" then .error wsNoTokenError else verifyAccessToken token

end Handshakes

section Channels

def Room.text : Room → String
  | .customer id => "customer:" ++ toString id
  | .branch id => "branch:" ++ toString id
  | .agent id => "agent:" ++ toString id
  | .adminAlerts => "admin:alerts"

/-- The channels of a restaurant that its user may join. -/
def restaurantChannels (user : ActorContext) : List String :=
  match user.role, orNull user.restaurantId with
  | .restaurantUser, some restaurantId =>
    ("restaurant:" ++ toString restaurantId) ::
      (user.branchIds.getD []).map fun b => "branch:" ++ toString b
  | _, _ => []

def permittedChannels (user : ActorContext) : List String :=
  ("customer:" ++ toString user.userId) :: restaurantChannels user ++
    if user.role = .deliveryAgent then ["agent:" ++ toString user.userId] else []

end Channels

section Server

/-- The id of a socket is in base 64, and the name of a room that the socket is always in. -/
abbrev SocketId := { id : String // ':' ∉ id.toList }

structure Socket where
  id : SocketId
  user : ActorContext
  allowed : List String
  rooms : List String

/-- A channel is whatever JSON value the client sends. -/
inductive ClientMessage where
  | subscribe (channel : Json)
  | unsubscribe (channel : Json)

def Socket.receive (socket : Socket) : ClientMessage → Socket
  | .subscribe (.str channel) =>
    if channel ∈ socket.allowed then { socket with rooms := channel :: socket.rooms } else socket
  | .subscribe _ => socket
  | .unsubscribe (.str channel) =>
    { socket with rooms := socket.rooms.filter (· ≠ channel) }
  | .unsubscribe _ => socket

inductive ServerInput where
  | connection (id : SocketId) (handshake : Handshake)
  | message (id : SocketId) (m : ClientMessage)
  | disconnect (id : SocketId)

variable (verifyAccessToken : String → Except AppError ActorContext)

/-- The connected sockets after one input; a refused handshake connects none. -/
def attachWsServer (sockets : List Socket) : ServerInput → List Socket
  | .connection id handshake =>
    match authenticateHandshake verifyAccessToken handshake with
    | .error _ => sockets
    | .ok user => ⟨id, user, permittedChannels user, [id.val]⟩ :: sockets
  | .message id m =>
    sockets.map fun socket => if socket.id = id then socket.receive m else socket
  | .disconnect id => sockets.filter fun socket => socket.id ≠ id

def socketsAfter (inputs : List ServerInput) : List Socket :=
  inputs.foldl (attachWsServer verifyAccessToken) []

/-- Whom `io.to(room).emit(..)` reaches. -/
def receivers (sockets : List Socket) (room : Room) : List Socket :=
  sockets.filter fun socket => room.text ∈ socket.rooms

end Server

end OrderService
