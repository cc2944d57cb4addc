import Perga.Runs
import Perga.Transport

namespace Perga

-- russh's `Sig`: the names of RFC 4254, and any other.
inductive Sig where
  | abrt | alrm | fpe | hup | ill | int | kill | pipe | quit | segv | term | usr1
  | custom (name : String)
  deriving DecidableEq, Repr

-- russh's `ChannelMsg`; `other` is any message that the loop passes over.
inductive ChannelMsg where
  | data (bytes : List UInt8)
  | extendedData (bytes : List UInt8)
  | exitStatus (status : UInt32)
  | exitSignal (signalName : Sig)
  | eof
  | close
  | other
  deriving DecidableEq, Repr

def sigToNumber : Sig → Option Int
  | .abrt => some 6
  | .alrm => some 14
  | .fpe => some 8
  | .hup => some 1
  | .ill => some 4
  | .int => some 2
  | .kill => some 9
  | .pipe => some 13
  | .quit => some 3
  | .segv => some 11
  | .term => some 15
  | .usr1 => some 10
  | .custom _ => none

namespace Shuttle

-- How the loop came to return.
inductive Ending where
  | shutdownSignal
  | commandsGone
  | shutdownCommand
  | writeFailed
  | remoteEnded
  | channelGone
  | consumerGone
  deriving DecidableEq, Repr

-- `received` is a record of the messages that the loop has taken; no code reads it.
structure World where
  pendingExit : Option ExitStatus
  commands : List TransportCommand
  commandsOpen : Bool
  messages : List ChannelMsg
  channelOpen : Bool
  shutdown : Bool
  events : Outlet TransportEvent
  ending : Option Ending
  received : List ChannelMsg
  deriving DecidableEq, Repr

def begun : World := ⟨none,[],true,[],true,false,⟨[],none⟩,none,[]⟩

-- `failure` is what a write returns, if the loop makes one.
inductive Move where
  | command (c : TransportCommand)
  | closeCommands
  | message (m : ChannelMsg)
  | endChannel
  | shutdown
  | dropReceiver
  | iterate (failure : Option String)
  deriving DecidableEq, Repr

namespace World

def emit (w : World) (event : TransportEvent) : World × Bool :=
  ({w with events := (w.events.send event).1},(w.events.send event).2)

def leave (w : World) (ending : Ending) : World := {w with ending := some ending}

def handleCommand (w : World) (failure : Option String) : TransportCommand → World
  | .write _ =>
    match failure with
    | some e => (w.emit (.error (.write ("ssh channel write: " ++ e)))).1.leave .writeFailed
    | none => w
  | .resize _ => w
  | .shutdown => w.leave .shutdownCommand

def handleOutput (w : World) (bytes : List UInt8) : World :=
  match w.emit (.output bytes) with
  | (w,true) => w
  | (w,false) => w.leave .consumerGone

def handleChannelMsg (w : World) : ChannelMsg → World
  | .data bytes => w.handleOutput bytes
  | .extendedData bytes => w.handleOutput bytes
  | .exitStatus status =>
    {w with pendingExit := some ⟨if status.toNat < 2147483648 then some status.toNat else none,none⟩}
  | .exitSignal signalName => {w with pendingExit := some ⟨none,sigToNumber signalName⟩}
  | .eof => ({w with pendingExit := none}.emit (.exited (w.pendingExit.getD ⟨none,none⟩))).1.leave .remoteEnded
  | .close => ({w with pendingExit := none}.emit (.exited (w.pendingExit.getD ⟨none,none⟩))).1.leave .remoteEnded
  | .other => w

-- One round of the biased `select!`; with nothing ready it waits.
def iterate (w : World) (failure : Option String) : World :=
  if w.ending.isSome then w
  else if w.shutdown then w.leave .shutdownSignal
  else
    match w.commands with
    | c :: rest => {w with commands := rest}.handleCommand failure c
    | [] =>
      if !w.commandsOpen then w.leave .commandsGone
      else
        match w.messages with
        | m :: rest => {w with messages := rest,received := w.received ++ [m]}.handleChannelMsg m
        | [] =>
          if w.channelOpen then w
          else (w.emit (.exited (w.pendingExit.getD ⟨none,none⟩))).1.leave .channelGone

def step (w : World) : Move → World
  | .command c => if w.commandsOpen then {w with commands := w.commands ++ [c]} else w
  | .closeCommands => {w with commandsOpen := false}
  | .message m => if w.channelOpen then {w with messages := w.messages ++ [m]} else w
  | .endChannel => {w with channelOpen := false}
  | .shutdown => {w with shutdown := true}
  | .dropReceiver => {w with events := {w.events with room := some 0}}
  | .iterate failure => w.iterate failure

end World
end Shuttle

end Perga
