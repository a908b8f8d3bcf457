import AirCast.Http.HttpRequest
import AirCast.Lib.SlotTable
import AirCast.Lib.Transducer

/-! # The connections of httpd.c

One `httpd_t` with its table of connections.  An event is one accept, what one socket
delivers, the end of the thread, or a `forceStopAirplay`.  The calls that leave the table
(`accept`, `closesocket` and the callbacks) are recorded in order; descriptors and user
data are known by the accept that made them.  The buffers and the codec flag of a
connection have no part in the table. -/

set_option autoImplicit false

namespace AirCast.Http

def okReply : Bytes := bytesOf "HTTP/1.1 200 OK"

/-- What the HTTP branch does with the segment of one `recv`. -/
inductive HttpOutcome where
  /-- a reply of the peer, left unread -/
  | skipped
  /-- `HPE_INVALID_METHOD`: the request is destroyed, the connection stays -/
  | invalidMethod
  | parseError
  | complete (request : HttpRequest)
  | waiting (request : HttpRequest)

/-- The HTTP branch up to the dispatch; `none` is a failed assertion of the parser. -/
def receiveHttp (request : HttpRequest) (segment : Bytes) : Option HttpOutcome :=
  if okReply <+: segment then some .skipped
  else
    (httpRequestAddData request segment).map fun added =>
      if httpRequestHasError added then
        if added.parser.httpErrno = .invalidMethod then .invalidMethod else .parseError
      else if httpRequestIsComplete added then .complete added
      else .waiting added

inductive HttpdCall where
  | accept (fd : ℕ)
  | connInit (userData : Option ℕ)
  | connRequest (userData : Option ℕ) (index : ℕ)
  | connDestroy (userData : Option ℕ)
  | close (fd : ℕ)
  deriving DecidableEq

structure HttpConnection where
  connected : Bool
  socketFd : ℕ
  userData : Option ℕ
  request : Option HttpRequest

/-- `httpd_t` with `n` connections; `accepted` counts the accepts, `calls` keeps what has
been called. -/
structure Httpd (n : ℕ) where
  mId : ℤ
  running : Bool
  openConnections : ℤ
  connections : Fin n → HttpConnection
  accepted : ℕ
  calls : List HttpdCall

variable {n : ℕ}

def httpdInit (n : ℕ) (id : ℤ) : Httpd n :=
  { mId := id
    running := false
    openConnections := 0
    connections := fun _ => ⟨false, 0, none, none⟩
    accepted := 0
    calls := [] }

namespace Httpd

def removeConnection (s : Httpd n) (i : Fin n) : Httpd n :=
  let connection := s.connections i
  { s with
    openConnections := s.openConnections - 1
    connections := Function.update s.connections i
      { connection with connected := false, request := none }
    calls := s.calls ++ [.connDestroy connection.userData, .close connection.socketFd] }

def removeAll (s : Httpd n) : Httpd n :=
  (List.finRange n).foldl
    (fun s i => if (s.connections i).connected then s.removeConnection i else s) s

/-- `forceStopAirplay` as far as this server is concerned: the ids -1 to 2 name one
server, -2 none, all others every one. -/
def forceStopAirplay (s : Httpd n) (id : ℤ) : Httpd n :=
  if -1 ≤ id ∧ id ≤ 2 then
    if id = s.mId then s.removeAll else s
  else if id = -2 then s
  else s.removeAll

def closeSocket (s : Httpd n) (fd : ℕ) : Httpd n := { s with calls := s.calls ++ [.close fd] }

/-- `httpd_add_connection`; `initialised` tells whether `conn_init` returns user data. -/
def addConnection (s : Httpd n) (fd : ℕ) (initialised : Bool) : Httpd n × Bool :=
  match (List.finRange n).find? fun i => !(s.connections i).connected with
  | none => (s.closeSocket fd, false)
  | some i =>
      let connection := s.connections i
      if initialised then
        ({ s with
            openConnections := s.openConnections + 1
            connections := Function.update s.connections i
              { connection with connected := true, socketFd := fd, userData := some fd }
            calls := s.calls ++ [.connInit (some fd)] }, true)
      else
        ({ s with
            connections := Function.update s.connections i { connection with userData := none }
            calls := s.calls ++ [.connInit none] }, false)

def endThread (s : Httpd n) : Httpd n := { s.removeAll with running := false }

/-- What `accept` and `getsockname` return, whether another client is mirroring, and
whether `conn_init` succeeds. -/
inductive Accept where
  | failed
  | unnamed
  | client (mirroring initialised : Bool)
  deriving DecidableEq

def newSocket (s : Httpd n) : Httpd n :=
  { s with accepted := s.accepted + 1, calls := s.calls ++ [.accept s.accepted] }

def preempt (s : Httpd n) (mirroring : Bool) : Httpd n :=
  if mirroring then s.forceStopAirplay s.mId else s

/-- `httpd_accept_connection`; a failing `accept` ends the thread. -/
def acceptConnection (s : Httpd n) : Accept → Httpd n
  | .failed => s.endThread
  | .unnamed => s.newSocket.closeSocket s.accepted
  | .client mirroring initialised =>
      let added := (s.newSocket.preempt mirroring).addConnection s.accepted initialised
      if added.2 then added.1 else added.1.closeSocket s.accepted

/-- What `conn_request` answers: no response, or one that may ask to disconnect. -/
abbrev Responses := ℕ → Option Bool

def connRequest (s : Httpd n) (i : Fin n) (index : ℕ) : Httpd n :=
  { s with calls := s.calls ++ [.connRequest (s.connections i).userData index] }

/-- The loop over the pipelined requests, `left` of them from `index` on. -/
def dispatchFrom (responses : Responses) (i : Fin n) : ℕ → ℕ → Httpd n → Httpd n
  | 0, _, s => s
  | left + 1, index, s =>
      let asked := s.connRequest i index
      let answered := if responses index = some true then asked.removeConnection i else asked
      dispatchFrom responses i left (index + 1) answered

@[simp] theorem dispatchFrom_zero (responses : Responses) (i : Fin n) (index : ℕ) (s : Httpd n) :
    dispatchFrom responses i 0 index s = s := by
  simp only [dispatchFrom]

def setRequest (s : Httpd n) (i : Fin n) (request : Option HttpRequest) : Httpd n :=
  { s with
    connections := Function.update s.connections i { s.connections i with request := request } }

def dispatch (s : Httpd n) (i : Fin n) (request : HttpRequest) (responses : Responses) : Httpd n :=
  let s := s.setRequest i (some request)
  (dispatchFrom responses i (httpRequestGetRequestCount request) 1 s).setRequest i none

/-- What a selected socket delivers: the end of the connection or an error, or bytes,
together with what the handlers will answer. -/
inductive Received where
  | closed
  | segment (bytes : Bytes) (responses : Responses)

def currentRequest (s : Httpd n) (i : Fin n) : HttpRequest :=
  (s.connections i).request.getD httpRequestInit

/-- The body of the loop over the connections; the frames of the mirror server leave the
table as it is. -/
def serve (s : Httpd n) (i : Fin n) : Received → Option (Httpd n)
  | .closed => some (s.removeConnection i)
  | .segment bytes responses =>
      if s.mId = 1 then some s
      else
        (receiveHttp (s.currentRequest i) bytes).map fun
          | .skipped => s.setRequest i (some (s.currentRequest i))
          | .invalidMethod => s.setRequest i none
          | .parseError => s.removeConnection i
          | .complete request => s.dispatch i request responses
          | .waiting request => s.setRequest i (some request)

end Httpd

inductive HttpdEvent (n : ℕ) where
  /-- `httpd_start` -/
  | start
  | accept (outcome : Httpd.Accept)
  | receive (i : Fin n) (received : Httpd.Received)
  /-- `m_running` is 0, or `select` fails -/
  | stop
  | forceStopAirplay (id : ℤ)

/-- Only connected slots are selected, and the port only while a slot is free. -/
def httpdStep (s : Httpd n) : HttpdEvent n → Option (Httpd n)
  | .start => some { s with running := true }
  | .accept outcome =>
      some (if s.running = true ∧ s.openConnections < n then s.acceptConnection outcome else s)
  | .receive i received =>
      if s.running = true ∧ (s.connections i).connected = true then s.serve i received else some s
  | .stop => some (if s.running then s.endThread else s)
  | .forceStopAirplay id => some (s.forceStopAirplay id)

/-- The server over its events; a failed assertion ends the process. -/
def httpdMachine (n : ℕ) : Transducer (Option (Httpd n)) (HttpdEvent n) Unit where
  step s event := (s.bind fun s => httpdStep s event, ())

end AirCast.Http
