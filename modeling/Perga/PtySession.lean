import Perga.Runs
import Perga.Transport

namespace Perga

-- What `is_closed_pty_error` looks at in an `io::Error`.
structure IoError where
  rawOsError : Option Int
  unexpectedEof : Bool
  deriving DecidableEq, Repr

def isClosedPtyError (e : IoError) : Bool :=
  e.rawOsError == some 5 || e.rawOsError == some 9 || e.unexpectedEof

inductive PtyError where
  | spawn (message : String)
  | read
  | write
  | wait (message : String)
  deriving DecidableEq, Repr

def PtyError.display : PtyError → String
  | .spawn message => "spawn failed: " ++ message
  | .read => "pty read error"
  | .write => "pty write error"
  | .wait message => "wait child error: " ++ message

def exitStatusFromPortable (exitCode : UInt32) : ExitStatus :=
  ⟨if exitCode.toNat < 2147483648 then some exitCode.toNat else none,none⟩

namespace PtySession

-- In milliseconds.
def sigkillGrace : Nat := 500

-- Where each thread stands between two of its calls.
inductive Reader where
  | reading
  | sending (data : List UInt8)
  | failing
  | leaving
  | finished
  deriving DecidableEq, Repr

inductive Writer where
  | receiving
  | writing
  | failing
  | hangingUp
  | signalling
  | closing
  | finished
  deriving DecidableEq, Repr

inductive Waiter where
  | polling
  | watching
  | escalating
  | joining (result : Except String UInt32)
  | reporting (result : Except String UInt32)
  | finished

def waitReport : Except String UInt32 → TransportEvent
  | .ok code => .exited (exitStatusFromPortable code)
  | .error message => .error (.wait (PtyError.wait message).display)

-- `PtySession::drop` queues `Shutdown`, signals the waiter, joins, and lets go of its
-- ends of the channels.
inductive Handle where
  | held
  | commanded
  | signalled
  | released
  deriving DecidableEq, Repr

inductive Happening where
  | hangup
  | kill (now : Nat)
  | reaped
  | shutdownSeen (now : Nat)
  deriving DecidableEq, Repr

-- `obtained` and `log` are records of what happened; no code reads them.
structure World where
  reader : Reader
  writer : Writer
  waiter : Waiter
  handle : Handle
  commands : List TransportCommand
  commandsOpen : Bool
  events : Outlet TransportEvent
  shutdowns : Nat
  shutdownSeenAt : Option Nat
  escalated : Bool
  pid : Option Int
  pgid : Option Int
  obtained : List (List UInt8)
  log : List Happening

def spawn (pid pgid : Option Int) : World where
  reader := .reading
  writer := .receiving
  waiter := .polling
  handle := .held
  commands := []
  commandsOpen := true
  events := ⟨[],none⟩
  shutdowns := 0
  shutdownSeenAt := none
  escalated := false
  pid := pid
  pgid := pgid
  obtained := []
  log := []

-- Each call of the operating system brings its result with the move; `now` is what
-- `Instant::now` reads there.
inductive Move where
  | reader (result : Except IoError (List UInt8))
  | writer (written : Bool)
  | waiter (polled : Except String (Option UInt32)) (now : Nat)
  | command (c : TransportCommand)
  | drop
  | closeCommands
  | dropReceiver

namespace World

def readerLoop (w : World) (result : Except IoError (List UInt8)) : World :=
  match w.reader with
  | .reading =>
    match result with
    | .ok [] => {w with reader := .leaving}
    | .ok data => {w with reader := .sending data,obtained := w.obtained ++ [data]}
    | .error e => if isClosedPtyError e then {w with reader := .leaving} else {w with reader := .failing}
  | .sending data =>
    let sent := w.events.send (.output data)
    {w with events := sent.1,reader := if sent.2 then .reading else .leaving}
  | .failing => {w with events := (w.events.send (.error (.read PtyError.read.display))).1,reader := .leaving}
  -- `done_tx` has a place for its one message, and is dropped with the thread.
  | .leaving => {w with reader := .finished}
  | .finished => w

def writerLoop (w : World) (written : Bool) : World :=
  match w.writer with
  | .receiving =>
    match w.commands with
    | .write _ :: rest => {w with commands := rest,writer := .writing}
    | .resize _ :: rest => {w with commands := rest}
    | .shutdown :: rest => {w with commands := rest,writer := .hangingUp}
    | [] => if w.commandsOpen then w else {w with writer := .closing}
  | .writing => {w with writer := if written then .receiving else .failing}
  | .failing => {w with events := (w.events.send (.error (.write PtyError.write.display))).1,writer := .closing}
  -- The killer signals the pid that it stored when it was cloned.
  | .hangingUp => {w with log := w.log ++ [.hangup],writer := .signalling}
  | .signalling => {w with shutdowns := w.shutdowns+1,writer := .closing}
  | .closing => {w with writer := .finished}
  | .finished => w

-- `killpg` where the group is known, else `kill`; nothing where neither is.
def escalate (w : World) (now : Nat) : World :=
  {w with
    escalated := true
    log := if w.pgid.isSome || w.pid.isSome then w.log ++ [.kill now] else w.log}

def waiterLoop (w : World) (polled : Except String (Option UInt32)) (now : Nat) : World :=
  match w.waiter with
  | .polling =>
    match polled with
    | .ok (some code) =>
      {w with waiter := .joining (.ok code),log := w.log ++ [.reaped]}
    | .ok none => {w with waiter := .watching}
    | .error message => {w with waiter := .joining (.error message)}
  | .watching =>
    match w.shutdownSeenAt,w.shutdowns with
    | none,n+1 =>
      {w with waiter := .escalating,shutdowns := n,shutdownSeenAt := some now,log := w.log ++ [.shutdownSeen now]}
    | _,_ => {w with waiter := .escalating}
  | .escalating =>
    match w.shutdownSeenAt with
    | some t => if !w.escalated && sigkillGrace ≤ now-t then {w.escalate now with waiter := .polling} else {w with waiter := .polling}
    | none => {w with waiter := .polling}
  -- `reader_done.recv` returns once the reader has sent its message or is gone.
  | .joining result => if w.reader = .finished then {w with waiter := .reporting result} else w
  | .reporting result => {w with events := (w.events.send (waitReport result)).1,waiter := .finished}
  | .finished => w

def dropStep (w : World) : World :=
  match w.handle with
  | .held => {w with commands := w.commands ++ [.shutdown],handle := .commanded}
  | .commanded => {w with shutdowns := w.shutdowns+1,handle := .signalled}
  | .signalled => {w with handle := .released}
  | .released => w

-- The command senders and the event receiver outside are clones of the session's.
def step (w : World) : Move → World
  | .reader result => w.readerLoop result
  | .writer written => w.writerLoop written
  | .waiter polled now => w.waiterLoop polled now
  | .command c => if w.commandsOpen then {w with commands := w.commands ++ [c]} else w
  | .drop => w.dropStep
  | .closeCommands => if w.handle = .released then {w with commandsOpen := false} else w
  | .dropReceiver => if w.handle = .released then {w with events := {w.events with room := some 0}} else w

end World
end PtySession

end Perga
