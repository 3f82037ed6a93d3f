import Mcpp.Buffers
import Mcpp.Custody
import Mcpp.Run

/-! CCurlProcessor: the requests other threads queue, the ones its worker runs, and the
handles, streams and messages behind them. An event is a statement of the worker, a call
from another thread or what libcurl does inside perform; a callback is named by the call
of QueueHttpGet that passed it. -/
namespace Mcpp.CurlProcessor
open Buffers Run Custody

structure SQueuedRequest where
  uri : Bytes
  callback : Nat

/- curl_ios: the stream the bytes of a transfer go to. -/
structure CurlIos where
  getStream : Option Nat

structure SActiveRequest (Handle : Type) where
  requestUri : Bytes := []
  easyStream : Option CurlIos := none
  handler : Option Handle := none
  callback : Option Nat := none

/- A std::ostringstream of the worker. The owner is the request it was allocated for. -/
structure Stream where
  owner : Nat
  content : Bytes := []
  deleted : Bool := false

/- What is read of a string through its c_str(). -/
def cString (s : Bytes) : Bytes := s.takeWhile (· ≠ 0)

/- curl_easy, with the options the worker sets that decide what is transferred. -/
structure CurlEasy where
  stream : Nat
  url : Bytes := []

structure Answer where
  callback : Nat
  success : Bool
  body : Bytes
  deriving DecidableEq

/- The locals of the block that pushes a request to the multi handle. -/
structure Push (Handle : Type) where
  uri : Bytes
  it : Handle
  outputStream : Nat
  deriving DecidableEq

/- Where the worker is: the statement it runs next, or how it ended. -/
inductive Location (Handle : Type) where
  | head
  | dequeue
  | setUri (p : Push Handle)
  | addOptions (p : Push Handle)
  | addHandle (p : Push Handle)
  | moveStream (p : Push Handle)
  | moveHandler (p : Push Handle)
  | perform
  | getNextFinished
  | lookup (h : Handle)
  | call (h : Handle) (content : Bytes)
  | erase (h : Handle)
  | sleep
  | ended
  | returned
  | undefined
  deriving DecidableEq

variable (Handle : Type)

structure CCurlProcessor where
  workQueue : List SQueuedRequest := []
  runningRequests : AList (fun _ : Handle => SActiveRequest Handle) := ∅
  shutdown : Bool := false
  location : Location Handle := .head
  streams : List Stream := []
  -- The live easy handles, and the ones added to the multi handle and not yet reported.
  easies : Handle → Option CurlEasy := fun _ => none
  added : List Handle := []
  -- The uris passed to QueueHttpGet, the calls of callbacks, the requests erased after theirs.
  queued : List Bytes := []
  calls : List Answer := []
  completed : List Nat := []

inductive Event where
  | queueHttpGet (uri : Bytes)
  | shutdown
  | statement
  | tryDequeue (taken : Option (Nat × Handle))
  | receive (h : Handle) (bytes : Bytes)
  | performed
  | getNextFinished (finished : Option Handle)

namespace CCurlProcessor
variable {Handle} [DecidableEq Handle]

def goto (s : CCurlProcessor Handle) (location : Location Handle) : CCurlProcessor Handle :=
  { s with location := location }

def update (s : CCurlProcessor Handle) (h : Handle) (f : SActiveRequest Handle → SActiveRequest Handle) :
    CCurlProcessor Handle :=
  { s with runningRequests := modify h f s.runningRequests }

/- The destructor of curl_easy. -/
def cleanup (s : CCurlProcessor Handle) (handler : Option Handle) : CCurlProcessor Handle :=
  match handler with
  | none => s
  | some h => { s with easies := Function.update s.easies h none, added := s.added.filter (· ≠ h) }

/- The destructor of an entry: its stream is deleted, its handle freed. -/
def destroy (s : CCurlProcessor Handle) (a : SActiveRequest Handle) : CCurlProcessor Handle :=
  match a.easyStream.bind CurlIos.getStream with
  | none => s.cleanup a.handler
  | some i =>
    let delete := fun (stream : Stream) => { stream with deleted := true }
    { s with streams := s.streams.modify i delete }.cleanup a.handler

def eraseRunning (s : CCurlProcessor Handle) (h : Handle) : CCurlProcessor Handle :=
  match s.runningRequests.lookup h with
  | none => s
  | some a => { s with runningRequests := s.runningRequests.erase h }.destroy a

/- From try_dequeue to the assignment of the callback. Here the worker touches the queue
once and otherwise only what no other thread reaches. -/
def push (s : CCurlProcessor Handle) (i : Nat) (request : SQueuedRequest) (h : Handle) : CCurlProcessor Handle :=
  { s with
    workQueue := s.workQueue.eraseIdx i
    streams := s.streams ++ [{ owner := request.callback }]
    easies := Function.update s.easies h (some { stream := s.streams.length })
    runningRequests := modify h (fun a => { a with callback := some request.callback })
      (emplace h {} s.runningRequests)
    location := .setUri ⟨request.uri, h, s.streams.length⟩ }

/- What the stream behind an entry holds, with none where a pointer dangles. -/
def str (s : CCurlProcessor Handle) (i : Nat) : Option Bytes :=
  match s.streams[i]? with
  | none => none
  | some stream => if stream.deleted then none else some stream.content

def lookup (s : CCurlProcessor Handle) (h : Handle) : CCurlProcessor Handle :=
  match s.runningRequests.lookup h with
  -- operator[] makes an entry with a null pointer, which is then dereferenced.
  | none => s.goto .undefined
  | some a => match a.easyStream with
    | none => s.goto .undefined
    | some ios => match ios.getStream with
      | none => (s.eraseRunning h).goto .returned
      | some i => match s.str i with
        | none => s.goto .undefined
        | some content => s.goto (.call h content)

def call (s : CCurlProcessor Handle) (h : Handle) (content : Bytes) : CCurlProcessor Handle :=
  match (s.runningRequests.lookup h).bind SActiveRequest.callback with
  | none => s.goto .undefined
  | some callback => { s with calls := s.calls ++ [⟨callback, true, content⟩], location := .erase h }

def complete (s : CCurlProcessor Handle) (h : Handle) : CCurlProcessor Handle :=
  let answered := ((s.runningRequests.lookup h).bind SActiveRequest.callback).toList
  { s.eraseRunning h with completed := s.completed ++ answered, location := .getNextFinished }

def addOptions (s : CCurlProcessor Handle) (p : Push Handle) : CCurlProcessor Handle :=
  match s.runningRequests.lookup p.it, s.easies p.it with
  | some a, some easy =>
    { s with
      easies := Function.update s.easies p.it (some { easy with url := cString a.requestUri })
      location := .addHandle p }
  | _, _ => s.goto .undefined

def moveHandler (s : CCurlProcessor Handle) (p : Push Handle) : CCurlProcessor Handle :=
  match s.runningRequests.lookup p.it with
  | none => s.goto .undefined
  | some a => ((s.cleanup a.handler).update p.it (fun a => { a with handler := some p.it })).goto .perform

/- A statement of the worker that waits for nothing. -/
def statement (s : CCurlProcessor Handle) : Except Unit (CCurlProcessor Handle) :=
  match s.location with
  | .head => .ok (s.goto (if s.shutdown then .ended else .dequeue))
  | .setUri p => .ok ((s.update p.it (fun a => { a with requestUri := p.uri })).goto (.addOptions p))
  | .addOptions p => .ok (s.addOptions p)
  | .addHandle p => .ok { s with added := s.added ++ [p.it], location := .moveStream p }
  | .moveStream p => .ok ((s.update p.it (fun a => { a with easyStream := some ⟨some p.outputStream⟩ })).goto
      (.moveHandler p))
  | .moveHandler p => .ok (s.moveHandler p)
  | .lookup h => .ok (s.lookup h)
  | .call h content => .ok (s.call h content)
  | .erase h => .ok (s.complete h)
  | .sleep => .ok (s.goto .head)
  | _ => .error ()

/- libcurl hands a part of the body of an added handle to the stream behind it. -/
def receive (s : CCurlProcessor Handle) (h : Handle) (bytes : Bytes) : CCurlProcessor Handle :=
  match s.easies h with
  | none => s.goto .undefined
  | some easy => match s.str easy.stream with
    | none => s.goto .undefined
    | some _ =>
      let write := fun (stream : Stream) => { stream with content := stream.content ++ bytes }
      { s with streams := s.streams.modify easy.stream write }

end CCurlProcessor

variable {Handle} [DecidableEq Handle]

/- Of libcurl: a new easy handle is not a live one, a handle that was freed may come
again, and a handle is reported after it was added, once. -/
def step : Event Handle → CCurlProcessor Handle → Except Unit (CCurlProcessor Handle)
  | .queueHttpGet uri, s => .ok { s with
      workQueue := s.workQueue ++ [⟨uri, s.queued.length⟩]
      queued := s.queued ++ [uri] }
  | .shutdown, s => .ok { s with shutdown := true }
  | .statement, s => s.statement
  | .tryDequeue none, s => allow (s.location = .dequeue) (s.goto .perform)
  | .tryDequeue (some (i, h)), s => match s.workQueue[i]? with
    | none => .error ()
    | some request => allow (s.location = .dequeue ∧ (s.easies h).isNone) (s.push i request h)
  | .receive h bytes, s => allow (s.location = .perform ∧ h ∈ s.added) (s.receive h bytes)
  | .performed, s => allow (s.location = .perform) (s.goto .getNextFinished)
  | .getNextFinished none, s => allow (s.location = .getNextFinished) (s.goto .sleep)
  | .getNextFinished (some h), s => allow (s.location = .getNextFinished ∧ h ∈ s.added)
      { s with added := s.added.erase h, location := .lookup h }

end Mcpp.CurlProcessor
