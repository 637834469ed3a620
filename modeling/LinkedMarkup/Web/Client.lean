import LinkedMarkup.ReferenceError
/-! Fetching a text over the network. An attempt that finds no connection, gets no answer in time
or meets an error of the server is repeated after a delay; every other outcome is final. -/
namespace LinkedMarkup.Web

inductive Body where
  | whole (bytes : ByteArray)
  /-- The connection ended before the announced length. -/
  | cut (detail : String)
  /-- The rest did not come in time. -/
  | stalled

structure Reply where
  status : Nat
  /-- The announced length of the body. -/
  length : Option Nat := none
  mediaType : Option String := none
  body : Body

/-- What comes of sending one request. -/
inductive Attempt where
  | noConnection (detail : String)
  | timedOut
  /-- The request failed in another way. -/
  | broken (detail : String)
  | replied (reply : Reply)

/-- The outcome of each attempt to reach a URL, counted from 0. -/
abbrev Network := String → Nat → Attempt

/-- No attempt finds a connection. -/
def unreachable : Network := fun _ _ => .noConnection "error sending request"

structure Client where
  /-- Milliseconds for one request. -/
  timeout : Nat := 30000
  /-- There is always a first attempt. -/
  attempts : Nat := 3
  /-- Nanoseconds before the second attempt. -/
  baseDelay : Nat := 500000000
  /-- Bytes of a body. -/
  maxSize : Nat := 10485760

namespace Client

/-- The greatest duration in nanoseconds. -/
def longest : Nat := Numeral.unsignedLimit * 1000000000 - 1

/-- Nanoseconds before the attempt with this number: each delay is twice the one before, up to a
greatest factor and a greatest duration. -/
def delay (client : Client) (attempt : Nat) : Nat :=
  let factor := if attempt - 1 < 32 then Nat.pow 2 (attempt - 1) else Nat.pow 2 32 - 1
  min longest (client.baseDelay * factor)

def tooLarge (client : Client) (key : String) (size : Nat) : ReferenceError :=
  .transport key ("response is " ++ Numeral.text size ++ " bytes, limit is "
    ++ Numeral.text client.maxSize ++ " bytes")

/-- A text that came over the network with its media type. -/
structure Download where
  mediaType : Option String
  text : String
  deriving DecidableEq, Repr

/-- The text of a reply with a status of success. -/
def download (client : Client) (key : String) (reply : Reply) : Except ReferenceError Download :=
  if (reply.length.getD 0) > client.maxSize then .error (client.tooLarge key (reply.length.getD 0))
  else match reply.body with
    | .cut detail => .error (.transport key detail)
    | .stalled => .error (.timeout key client.timeout)
    | .whole bytes =>
      if bytes.size > client.maxSize then .error (client.tooLarge key bytes.size)
      else match String.fromUTF8? bytes with
        | some text => .ok ⟨reply.mediaType, text⟩
        | none => .error (.decode key "the reply is not UTF-8")

/-- What an attempt means: its error may be passed over by a further attempt, or its result is
final. -/
inductive Verdict where
  | retry (error : ReferenceError)
  | final (result : Except ReferenceError Download)

def judge (client : Client) (key : String) : Attempt → Verdict
  | .noConnection detail => .retry (.transport key detail)
  | .timedOut => .retry (.timeout key client.timeout)
  | .broken detail => .final (.error (.transport key detail))
  | .replied reply =>
    if 500 ≤ reply.status && reply.status < 600 then .retry (.http key reply.status)
    else if 200 ≤ reply.status && reply.status < 300 then .final (client.download key reply)
    else .final (.error (.http key reply.status))

/-- The result of a fetch, the number of requests that it took and the delays between them. -/
structure Fetched where
  result : Except ReferenceError Download
  requests : Nat
  delays : List Nat

/-- What is waited before an attempt. There is no delay before the first one. -/
def pause (client : Client) (attempt : Nat) : List Nat :=
  if attempt = 0 then [] else [client.delay attempt]

/-- Make up to `left` attempts, the first one with the number `attempt`. -/
def attemptFrom (client : Client) (key : String) (outcome : Nat → Attempt) (last : ReferenceError) :
    (left attempt : Nat) → Fetched
  | 0, attempt => ⟨.error last, attempt, []⟩
  | left + 1, attempt =>
    let further := match client.judge key (outcome attempt) with
      | .retry error => attemptFrom client key outcome error left (attempt + 1)
      | .final result => ⟨result, attempt + 1, []⟩
    { further with delays := client.pause attempt ++ further.delays }

def fetch (client : Client) (key : String) (outcome : Nat → Attempt) : Fetched :=
  client.attemptFrom key outcome (.transport key "no attempt made") (max 1 client.attempts) 0

end Client
end LinkedMarkup.Web
