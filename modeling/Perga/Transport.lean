namespace Perga

structure TerminalSize where
  rows : UInt16
  cols : UInt16
  deriving DecidableEq, Repr

structure ExitStatus where
  code : Option Int
  signal : Option Int
  deriving DecidableEq, Repr

def ExitStatus.fromCode (code : Int) : ExitStatus := ⟨some code,none⟩

inductive TransportError where
  | read (message : String)
  | write (message : String)
  | wait (message : String)
  deriving DecidableEq, Repr

-- One command enumeration serves the local PTY and the SSH channel.
inductive TransportCommand where
  | write (bytes : List UInt8)
  | resize (size : TerminalSize)
  | shutdown
  deriving DecidableEq, Repr

-- `exited` is the last event of a backend; `error` is fatal for its sender.
inductive TransportEvent where
  | output (bytes : List UInt8)
  | exited (status : ExitStatus)
  | error (err : TransportError)
  deriving DecidableEq, Repr

def TransportEvent.bytes? : TransportEvent → Option (List UInt8)
  | .output bytes => some bytes
  | _ => none

def TransportEvent.isExited : TransportEvent → Bool
  | .exited _ => true
  | _ => false

def delivered (events : List TransportEvent) : List (List UInt8) := events.filterMap TransportEvent.bytes?

-- The sending half of an unbounded channel. `room` is how many more messages reach the
-- receiver before it is dropped; `none` while nothing drops it.
structure Outlet (α : Type) where
  sent : List α
  room : Option Nat
  deriving DecidableEq, Repr

def Outlet.send (o : Outlet α) (message : α) : Outlet α × Bool :=
  match o.room with
  | none => (⟨o.sent ++ [message],none⟩,true)
  | some 0 => (o,false)
  | some (n+1) => (⟨o.sent ++ [message],some n⟩,true)

theorem Outlet.send_sent (o : Outlet α) (message : α) {m : α} (found : m ∈ (o.send message).1.sent) : m ∈ o.sent ∨ m = message := by
  unfold Outlet.send at found
  split at found
  · exact (List.mem_append.mp found).imp id List.mem_singleton.mp
  · exact .inl found
  · exact (List.mem_append.mp found).imp id List.mem_singleton.mp

end Perga
