import LadyBook.Firestore.MutationQueue

/-!
# The write stream

A stream is started, opened, closed and started again.  `closeCount` goes up whenever it closes, so
that a token that was asked for before is not taken for one of the stream that runs now.
-/

namespace LadyBook.Firestore

/-- `enum Error`; a status is its code. -/
inductive Error where
  | ok
  | cancelled
  | unknown
  | invalidArgument
  | deadlineExceeded
  | notFound
  | alreadyExists
  | permissionDenied
  | resourceExhausted
  | failedPrecondition
  | aborted
  | outOfRange
  | unimplemented
  | internal
  | unavailable
  | dataLoss
  | unauthenticated
  deriving DecidableEq, Repr

namespace Datastore

def isPermanentError : Error → Except HardAssert Bool
  | .ok => .error .okIsNoError
  | .cancelled | .unknown | .deadlineExceeded | .resourceExhausted | .internal | .unavailable
  | .unauthenticated => .ok false
  | .invalidArgument | .notFound | .alreadyExists | .permissionDenied | .failedPrecondition
  | .aborted | .outOfRange | .unimplemented | .dataLoss => .ok true

-- An aborted write is tried again.
def isPermanentWriteError (error : Error) : Except HardAssert Bool := do
  return (← isPermanentError error) && error != .aborted

end Datastore

inductive StreamState where
  | initial
  | starting
  | «open»
  | error
  | backoff
  deriving DecidableEq, Repr

/-- What is written to the stream. -/
inductive WriteRequest where
  | handshake
  | mutations (ms : List Mutation)
  deriving DecidableEq

/-- `tokenRequests` holds the close counts that the callbacks of `GetToken` have captured, and
`grpcStream` the requests that the server has not answered. -/
structure WriteStream where
  state : StreamState
  handshakeComplete : Bool
  idlenessTimer : Bool
  backoffTimer : Bool
  closeCount : ℕ
  tokenRequests : List ℕ
  grpcStream : Option (List WriteRequest)
  deriving DecidableEq

namespace WriteStream

def new : WriteStream := ⟨.initial, false, false, false, 0, [], none⟩

variable (s : WriteStream)

def isOpen : Bool := s.state = .open

def isStarted : Bool := s.state = .starting || s.state = .backoff || s.isOpen

def requestCredentials : WriteStream :=
  { s with tokenRequests := s.closeCount :: s.tokenRequests }

def backoffAndTryRestarting : Except HardAssert WriteStream := do
  hardAssert (s.state = .error) .notInError
  return { s with state := .backoff, backoffTimer := true }

def start : Except HardAssert WriteStream :=
  if s.state = .error then
    s.backoffAndTryRestarting
  else do
    hardAssert (s.state = .initial) .alreadyStarted
    return { s with state := .starting }.requestCredentials

-- What runs when the backoff has elapsed.
def backoffElapsed : Except HardAssert WriteStream := do
  hardAssert (s.state = .backoff) .notInBackoff
  let s ← { s with state := .initial, backoffTimer := false }.start
  hardAssert s.isStarted .notStarted
  return s

def inhibitBackoff : Except HardAssert WriteStream := do
  hardAssert (!s.isStarted) .stillStarted
  return { s with state := .initial }

def markIdle : WriteStream :=
  if s.isOpen && !s.idlenessTimer then { s with idlenessTimer := true } else s

def write (request : WriteRequest) : Except HardAssert WriteStream := do
  hardAssert s.isOpen .streamNotOpen
  return { s with
    idlenessTimer := false
    grpcStream := s.grpcStream.map (· ++ [request]) }

def writeHandshake : Except HardAssert WriteStream := do
  hardAssert s.isOpen .streamNotOpen
  hardAssert (!s.handshakeComplete) .handshakeCompleted
  s.write .handshake

def writeMutations (ms : List Mutation) : Except HardAssert WriteStream := do
  hardAssert s.isOpen .streamNotOpen
  hardAssert s.handshakeComplete .handshakeIncomplete
  s.write (.mutations ms)

-- `Close` up to its last step, which notifies the listener.
def closed (status : Error) : WriteStream :=
  { s with
    state := if status = .ok then .initial else .error
    idlenessTimer := false
    backoffTimer := false
    closeCount := s.closeCount + 1
    grpcStream := none }

end WriteStream

end LadyBook.Firestore
