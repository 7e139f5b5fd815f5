import NextDBM.Editor.Responses
import NextDBM.Library.Runs

/-!
# The output of the DB client

`readFormTunnel` and `writeToWebsocket` run beside each other and beside `Stop`. They share a channel
without a buffer, so a character passes when one goroutine sends and the other is at its `select`; a
`select` with several cases ready takes any of them. The ticker's own channel holds one tick.

Only `writeToWebsocket` touches the buffer and sends, so what it does after a tick is one step.
-/

namespace NextDBM

namespace DBMHandler

/-- Where `readFormTunnel` is. -/
inductive Reader
  /-- At the `select`. -/
  | polling
  /-- In `ReadRune`. -/
  | reading
  /-- At `r.dataChan <- rn`. -/
  | sending (u : Placed)
  | stopped
  deriving DecidableEq

/-- The handler with its two goroutines; `unread` is what the DB client has still to say, `sent` the
contents of the `Data` messages. -/
structure Output where
  unread : List Placed
  reader : Reader := .polling
  writing : Bool := true
  ticking : Bool := true
  pendingTick : Bool := false
  cancelled : Bool := false
  buf : List Placed := []
  sent : List (List Placed) := []

inductive OutputAction
  /-- The `select` of `readFormTunnel`. -/
  | poll
  | readRune
  /-- `r.dataChan <- rn` meets `data := <-r.dataChan`. -/
  | transfer
  /-- The ticker fires. -/
  | fire
  /-- `<-r.tick.C`; `served` says whether the websocket takes a message. -/
  | tick (served : Bool)
  /-- `<-r.ctx.Done()` in `writeToWebsocket`. -/
  | done
  /-- The two statements of `Stop`. -/
  | stopTick
  | cancel
  deriving DecidableEq

namespace Output

/-- `Start`, for a client that is going to say this. -/
def start (text : String) : Output := { unread := place 0 (chars text) }

def step (s : Output) : OutputAction → Option Output
  | .poll =>
    match s.reader with
    | .polling => some { s with reader := if s.cancelled then .stopped else .reading }
    | _ => none
  | .readRune =>
    match s.reader, s.unread with
    | .reading, [] => some { s with reader := .stopped }
    | .reading, u :: unread => some { s with reader := .sending u, unread }
    | _, _ => none
  | .transfer =>
    match s.reader, s.writing with
    | .sending u, true => some { s with reader := .polling, buf := s.buf ++ [written u] }
    | _, _ => none
  | .fire => if s.ticking then some { s with pendingTick := true } else none
  | .tick served =>
    if s.writing && s.pendingTick then
      let s := { s with pendingTick := false }
      if s.buf = [] then some s
      else if served then some { s with sent := s.sent ++ [s.buf], buf := [] }
      else some { s with writing := false }
    else none
  | .done => if s.writing && s.cancelled then some { s with writing := false } else none
  | .stopTick => if s.ticking then some { s with ticking := false } else none
  | .cancel => if s.ticking || s.cancelled then none else some { s with cancelled := true }

/-- Both goroutines have returned. -/
def Stopped (s : Output) : Prop := s.reader = .stopped ∧ s.writing = false

/-- The messages are the text, character by character. -/
def Complete (text : String) (s : Output) : Prop := s.sent.flatten = place 0 (chars text)

instance (text : String) (s : Output) : Decidable (Complete text s) :=
  inferInstanceAs (Decidable (_ = _))

/-- What must not happen: the reader gives up before the end, the writer before its buffer is sent, a
message is refused, or the character is the one that stands for an error. -/
def Orderly (s : Output) : OutputAction → Prop
  | .poll => s.cancelled = true → s.unread = []
  | .transfer => ∀ u, s.reader = .sending u → u.2 ≠ 0xFFFD
  | .tick served => s.buf ≠ [] → served = true
  | .done => s.buf = []
  | _ => True

/-! ## What is still on its way -/

/-- The characters between the client and the buffer. -/
def remaining (s : Output) : List Placed :=
  match s.reader with
  | .sending u => u :: s.unread
  | _ => s.unread

/-- The characters that the writer has taken. -/
def taken (s : Output) : List Placed := s.sent.flatten ++ s.buf

end Output

end DBMHandler

end NextDBM
