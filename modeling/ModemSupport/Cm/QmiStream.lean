import ModemSupport.Lib.Frames
import ModemSupport.Lib.Transition

/-! The byte stream between a client and the proxy: the reads of `qmi_proxy_loop` from the socket
of a client, and `qmi_proxy_read` with the loop of `QmiWwanThread` at the other end. -/

namespace ModemSupport.Cm.QmiStream

open Lib.Frames Lib.Transition

def sizeofQcqmiHdr : Nat := 6

def Length (buf : List UInt8) : Nat := (buf.getD 1 0).toNat + 256 * (buf.getD 2 0).toNat

def proxyBufSize : Nat := 2048

def clientBufSize : Nat := 512

structure WellFormed (f : List UInt8) : Prop where
  header : sizeofQcqmiHdr ≤ f.length
  length : f.length = Length f + 1

/-- What a `read` returns: -1, or a number of bytes. -/
inductive Read where
  | wouldBlock
  | bytes (n : Nat)

/-- A read of `count` bytes gives any part of the unread bytes that fits; it returns 0 at the end
of the file.  A count beyond `SSIZE_MAX` may be refused or served. -/
def Read.Allowed (count : Nat) (stream : List UInt8) : Read → Prop
  | .wouldBlock => 0 < count
  | .bytes n => n ≤ count ∧ n ≤ stream.length ∧ (n = 0 → count = 0 ∨ stream = [])

instance (count : Nat) (stream : List UInt8) : (r : Read) → Decidable (r.Allowed count stream)
  | .wouldBlock => inferInstanceAs (Decidable (0 < count))
  | .bytes n => inferInstanceAs
      (Decidable (n ≤ count ∧ n ≤ stream.length ∧ (n = 0 → count = 0 ∨ stream = [])))

/-- The socket of a client at the proxy: the bytes that it has not read, the static `qmi_buf`, and
the frames handed to `send_qmi`, each with its place in the stream.  Ghosts: the number of bytes
read, and the place and length of each read. -/
structure Proxy where
  stream : List UInt8
  qmiBuf : List UInt8
  connected : Bool
  sent : List (Nat × List UInt8)
  offset : Nat
  reads : List (Nat × Nat)

def Proxy.init (frames : List (List UInt8)) (qmiBuf : List UInt8) : Proxy where
  stream := frames.flatten
  qmiBuf := qmiBuf
  connected := true
  sent := []
  offset := 0
  reads := []

inductive ProxyLabel where
  | read (r : Read)
  | other (bytes : List UInt8)
  | hangup

/-- A read of some bytes: they are a message for `send_qmi`, or are dropped. -/
def Proxy.received (s : Proxy) (n : Nat) : Proxy :=
  let buf := write s.qmiBuf 0 (s.stream.take n)
  { s with
    stream := s.stream.drop n
    qmiBuf := buf
    sent := if n = Length buf + 1 then s.sent ++ [(s.offset, buf.take n)] else s.sent
    offset := s.offset + n
    reads := s.reads ++ [(s.offset, n)] }

/-- `cleanup_qmi_connection`, of which only the closed socket matters here. -/
def Proxy.cleanup (s : Proxy) : Proxy := { s with connected := false }

/-- `qmi_proxy_loop`: a read from the client, one from another descriptor into the same buffer, or a
`POLLHUP` of the client. -/
def Proxy.step (s : Proxy) : ProxyLabel → Option Proxy
  | .read r =>
    if s.connected ∧ r.Allowed proxyBufSize s.stream then
      match r with
      | .wouldBlock => some s.cleanup
      | .bytes n => if n = 0 then some s.cleanup else some (s.received n)
    else none
  | .other bytes =>
    if bytes.length ≤ proxyBufSize then some { s with qmiBuf := write s.qmiBuf 0 bytes } else none
  | .hangup => if s.connected then some s.cleanup else none

/-- The socket at the client, the frames handed to `QmiThreadRecvQMI`, and whether a read has
written past `QMIBuf`.  Ghosts: the number of bytes read, and the place and length of each second
read of `qmi_proxy_read`, the place being that of its header. -/
structure Client where
  stream : List UInt8
  connected : Bool
  received : List (Nat × List UInt8)
  overflow : Bool
  offset : Nat
  bodies : List (Nat × Nat)

def Client.init (stream : List UInt8) : Client where
  stream := stream
  connected := true
  received := []
  overflow := false
  offset := 0
  bodies := []

/-- `stack` is what `QMIBuf` holds before the reads. -/
inductive ClientLabel where
  | read (stack : List UInt8) (header body : Read)
  | hangup

def bodyCount (buf : List UInt8) : Nat :=
  (Length buf + 1 + (UInt64.size - sizeofQcqmiHdr)) % UInt64.size

/-- `QmiWwanThread` with the `nreads` bytes in `buf` that `qmi_proxy_read` returned. -/
def Client.check (s : Client) (place : Nat) (buf : List UInt8) (nreads : Nat) : Client :=
  if nreads = Length buf + 1 then { s with received := s.received ++ [(place, buf.take nreads)] }
  else s

def Client.readBody (s : Client) (place : Nat) (buf : List UInt8) : Read → Client
  -- -1 is added to the size of the header.
  | .wouldBlock => s.check place buf (sizeofQcqmiHdr - 1)
  | .bytes m =>
    let t := { s with
      stream := s.stream.drop m
      offset := s.offset + m
      bodies := s.bodies ++ [(place, m)] }
    -- Nothing is said of what the program does behind a write past its buffer.
    if clientBufSize < sizeofQcqmiHdr + m then { t with overflow := true }
    else t.check place (write buf sizeofQcqmiHdr (s.stream.take m)) (sizeofQcqmiHdr + m)

/-- An iteration of `QmiWwanThread` with `qmi_proxy_read`, or a `POLLHUP`. -/
def Client.step (s : Client) : ClientLabel → Option Client
  | .read stack header body =>
    if s.connected ∧ ¬s.overflow ∧ stack.length = clientBufSize ∧
        header.Allowed sizeofQcqmiHdr s.stream then
      match header with
      | .wouldBlock => some s
      | .bytes n =>
        let t := { s with stream := s.stream.drop n, offset := s.offset + n }
        let buf := write stack 0 (s.stream.take n)
        if n = sizeofQcqmiHdr then
          if body.Allowed (bodyCount buf) t.stream then some (t.readBody s.offset buf body)
          else none
        else if n = 0 then some s
        else some (t.check s.offset buf n)
    else none
  | .hangup => if s.connected then some { s with connected := false } else none

end ModemSupport.Cm.QmiStream
