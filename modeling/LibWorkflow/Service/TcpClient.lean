import Mathlib.Data.List.DropRight
import Mathlib.Tactic.Common

/-!
# The TCP client

`service/tcp_client.cpp`: how a request is framed on a connection, and how the connection is read. A
message is its length in ten decimal digits and its text. The receiver keeps one asynchronous read
outstanding, alternately for a head and for a body; Asio completes it with some bytes of the stream, at
most as many as the buffer offered holds.
-/

namespace LibWorkflow

abbrev Bytes := List UInt8

/-- `data_[max_length]`. -/
structure Buffer where
  bytes : Bytes
  length_bytes : bytes.length = 1024

namespace Buffer

/-- Asio writes what it read at the beginning of the buffer. -/
def fill (buffer : Buffer) (chunk : Bytes) : Buffer :=
  ⟨chunk.take 1024 ++ buffer.bytes.drop chunk.length, by
    rw [List.length_append, List.length_take, List.length_drop, buffer.length_bytes]
    omega⟩

/-- `data_[n] = '\0'`. -/
def terminate (buffer : Buffer) (n : ℕ) : Buffer :=
  ⟨buffer.bytes.set n 0, by rw [List.length_set, buffer.length_bytes]⟩

def cString (buffer : Buffer) : Bytes := buffer.bytes.takeWhile (· ≠ 0)

end Buffer

/-! ### Numbers in text -/

/-- `std::isspace`. -/
def isSpace (byte : UInt8) : Bool := byte = 32 || (9 ≤ byte && byte ≤ 13)

def isDigit (byte : UInt8) : Bool := 48 ≤ byte && byte ≤ 57

/-- The number some decimal digits spell. A head has at most ten, which do not overflow. -/
def digitsValue (digits : Bytes) : UInt64 :=
  digits.foldl (fun value digit => 10 * value + (digit - 48).toUInt64) 0

/-- `str >> expected_size`: spaces, a sign, and the digits up to what is not one; 0 where there are none. -/
def readSize (text : Bytes) : UInt64 :=
  match text.dropWhile isSpace with
  | 43 :: rest => digitsValue (rest.takeWhile isDigit)
  | 45 :: rest => 0 - digitsValue (rest.takeWhile isDigit)
  | rest => digitsValue (rest.takeWhile isDigit)

/-- `std::setw(10) << std::setfill('0') << length`. -/
def showSize (length : ℕ) : Bytes :=
  ((Nat.toDigits 10 length).map fun digit => digit.toNat.toUInt8).leftpad 10 48

/-! ### The client -/

/-- The handler the outstanding read is to call. -/
inductive Reading where
  | head | body
  deriving DecidableEq

/-- The length of the buffer offered to `async_read_some`. -/
def Reading.offered : Reading → ℕ
  | .head => 10
  | .body => 1023

/-- What a `TCPClient` keeps of its connection: no read is outstanding where `outstanding` is `none`.
`loaded` are the texts handed to `Request::str_load`, in order. -/
structure TcpClient where
  data : Buffer
  buff : Bytes
  expectedSize : UInt64
  outstanding : Option Reading
  loaded : List Bytes

namespace TcpClient

/-- A client as it is constructed, which leaves `data_` and `expected_size` as they happen to be. -/
def new (data : Buffer) (expectedSize : UInt64) : TcpClient := ⟨data, [], expectedSize, none, []⟩

/-- The bytes `doSendRequest` writes for the text of a request. -/
def frame (json : Bytes) : Bytes := showSize json.length ++ json

def stream (payloads : List Bytes) : Bytes := payloads.flatMap frame

def startRead (c : TcpClient) : TcpClient := { c with outstanding := some .head }

/-- `handle_read_head`. On an error it only logs. -/
def handleReadHead (c : TcpClient) (error : Bool) : TcpClient :=
  if !error then
    let data := c.data.terminate 10
    { c with
      data := data
      expectedSize := readSize data.cString
      outstanding := some .body }
  else c

/-- `handle_read_body`. The request loaded from `buff` goes to `receiveNewRequest`. -/
def handleReadBody (c : TcpClient) (error : Bool) (transferred : ℕ) : TcpClient :=
  let c := { c with expectedSize := c.expectedSize - UInt64.ofNat transferred }
  if !error && c.expectedSize = 0 then startRead { c with loaded := c.loaded ++ [c.buff] }
  else if !error then
    let data := c.data.terminate transferred
    { c with data := data, buff := c.buff ++ data.cString }
  else c

/-- The outstanding read completes with these bytes: some, and no more than were asked for. -/
def deliver (c : TcpClient) (error : Bool) (chunk : Bytes) : Option TcpClient :=
  match c.outstanding with
  | none => none
  | some reading =>
    if chunk ≠ [] ∧ chunk.length ≤ reading.offered then
      let c := { c with data := c.data.fill chunk, outstanding := none }
      match reading with
      | .head => some (c.handleReadHead error)
      | .body => some (c.handleReadBody error chunk.length)
    else none

def deliverAll : List Bytes → TcpClient → Option TcpClient
  | [], c => some c
  | chunk :: rest, c => (c.deliver false chunk).bind (deliverAll rest)

end TcpClient

end LibWorkflow
