import Perga.LocalSession
import Perga.PtyTeardown

namespace Perga.PtyEnding
open PtySession PtyTeardown PidReuse

-- An event behind which a reader of the channel stops.
def final : TransportEvent → Bool
  | .output _ => false
  | .exited _ => true
  | .error _ => true

theorem send_room {o : Outlet α} (message : α) : (o.send message).1.room = none ↔ o.room = none := by
  unfold Outlet.send
  cases room : o.room with
  | none => exact ⟨fun _ => rfl,fun _ => rfl⟩
  | some left =>
      cases left with
      | zero => rw [room]
      | succ n => exact ⟨fun wrong => (by cases wrong),fun wrong => (by cases wrong)⟩

-- Nothing but letting go of the receiver closes the channel.
theorem room_same {w : World} (move : Move) (other : move ≠ .dropReceiver) :
    (w.step move).events.room = none ↔ w.events.room = none := by
  cases move with
  | reader result =>
      simp only [World.step,World.readerLoop]
      split
      · split
        · exact Iff.rfl
        · exact Iff.rfl
        · split <;> exact Iff.rfl
      · exact send_room _
      · exact send_room _
      · exact Iff.rfl
      · exact Iff.rfl
  | writer written =>
      simp only [World.step,World.writerLoop]
      split
      · split
        · exact Iff.rfl
        · exact Iff.rfl
        · exact Iff.rfl
        · split <;> exact Iff.rfl
      · exact Iff.rfl
      · exact send_room _
      · exact Iff.rfl
      · exact Iff.rfl
      · exact Iff.rfl
      · exact Iff.rfl
  | waiter polled now =>
      simp only [World.step,World.waiterLoop]
      split
      · split <;> exact Iff.rfl
      · split <;> exact Iff.rfl
      · split
        · split <;> exact Iff.rfl
        · exact Iff.rfl
      · split <;> exact Iff.rfl
      · exact send_room _
      · exact Iff.rfl
  | command c => simp only [World.step]; split <;> exact Iff.rfl
  | drop => simp only [World.step,World.dropStep]; split <;> exact Iff.rfl
  | closeCommands => simp only [World.step]; split <;> exact Iff.rfl
  | dropReceiver => exact absurd rfl other

-- Nobody opens it again.
theorem room_before (w : World) (move : Move) (room : (w.step move).events.room = none) : w.events.room = none := by
  by_cases drops : move = .dropReceiver
  · subst drops
    simp only [World.step] at room
    split at room
    · cases room
    · exact room
  · exact (room_same move drops).mp room

-- Whoever reads on finds a last event, once the waiter has finished.
def Told (w : World) : Prop := w.waiter = .finished → w.events.room = none → w.events.sent.any final = true

theorem spawn_told (pid pgid : Option Int) : Told (spawn pid pgid) := fun wrong => by cases wrong

theorem sent_grows {w : World} (barred : ExitedLast.Barred w) (move : Move) : ∃ more, (w.step move).events.sent = w.events.sent ++ more := by
  have adds := LocalSession.step_adds w barred move
  generalize w.step move = next at adds
  cases adds with
  | still sent _ _ => exact ⟨[],by rw [sent,List.append_nil]⟩
  | told ev sent _ _ => exact ⟨[ev],sent⟩

theorem step_told {w : World} (barred : ExitedLast.Barred w) (move : Move) (told : Told w) : Told (w.step move) := by
  intro ended room
  have before := room_before w move room
  obtain ⟨more,grown⟩ := sent_grows barred move
  have kept : w.waiter = .finished → (w.step move).events.sent.any final = true := by
    intro waits
    rw [grown,List.any_append,told waits before]
    rfl
  by_cases own : turnOf move = some .waiter
  · cases move with
    | waiter polled now =>
        cases at_ : w.waiter with
        | finished => exact kept at_
        | reporting result =>
            have reported : (w.step (.waiter polled now)).events.sent = w.events.sent ++ [waitReport result] := by
              simp only [World.step,World.waiterLoop,at_,Outlet.send,before]
            rw [reported,List.any_append]
            cases result <;> simp [waitReport,final]
        | polling =>
            simp only [World.step,World.waiterLoop,at_] at ended
            split at ended <;> cases ended
        | watching =>
            simp only [World.step,World.waiterLoop,at_] at ended
            split at ended <;> cases ended
        | escalating =>
            simp only [World.step,World.waiterLoop,at_] at ended
            split at ended
            · split at ended <;> cases ended
            · cases ended
        | joining result =>
            simp only [World.step,World.waiterLoop,at_] at ended
            split at ended
            · cases ended
            · rw [at_] at ended
              cases ended
    | _ => cases own
  · rw [(others_watch w move own).1] at ended
    exact kept ended

-- The events that the threads may still send, once the child has gone.
def mayFail : Writer → Nat
  | .receiving => 3
  | .writing => 3
  | .failing => 3
  | _ => 0

def unsaid (w : World) : Nat := 3*(readerLeft w.reader+waiterLeft w.waiter)+mayFail w.writer

theorem unsaid_bounded (w : World) : unsaid w ≤ 30 := by
  have read : readerLeft w.reader ≤ 4 := by
    unfold readerLeft
    split <;> decide
  have wait : waiterLeft w.waiter ≤ 5 := by
    unfold waiterLeft
    split <;> decide
  have fail : mayFail w.writer ≤ 3 := by
    unfold mayFail
    split <;> decide
  unfold unsaid
  omega

theorem send_length (o : Outlet α) (message : α) : (o.send message).1.sent.length ≤ o.sent.length+1 := by
  unfold Outlet.send
  split <;> simp

def speech (w : World) : Nat := unsaid w+2*w.events.sent.length

theorem reader_speech {w : World} {result : Except IoError (List UInt8)} (gone : Gone (.reader result)) (going : w.reader ≠ .finished) :
    speech (w.step (.reader result)) < speech w := by
  have fewer := reader_turn gone going
  have more : (w.readerLoop result).events.sent.length ≤ w.events.sent.length+1 := by
    unfold World.readerLoop
    split
    · split
      · exact Nat.le_succ _
      · exact Nat.le_succ _
      · split <;> exact Nat.le_succ _
    · exact send_length _ _
    · exact send_length _ _
    · exact Nat.le_succ _
    · exact Nat.le_succ _
  obtain ⟨_,_,_,same⟩ := reader_frame w result
  rw [same] at fewer more
  rw [World.step,same]
  simp only [speech,unsaid] at *
  omega

theorem waiter_speech {w : World} {polled : Except String (Option UInt32)} {now : Nat} (gone : Gone (.waiter polled now))
    (owed : due w .waiter) : speech (w.step (.waiter polled now)) < speech w := by
  have fewer := waiter_turn now gone owed.2 owed.1
  have more : (w.waiterLoop polled now).events.sent.length ≤ w.events.sent.length+1 := by
    unfold World.waiterLoop World.escalate
    split
    · split <;> exact Nat.le_succ _
    · split <;> exact Nat.le_succ _
    · split
      · split <;> exact Nat.le_succ _
      · exact Nat.le_succ _
    · split <;> exact Nat.le_succ _
    · exact send_length _ _
    · exact Nat.le_succ _
  obtain ⟨_,_,_,_,_,_,same⟩ := waiter_frame w polled now
  rw [same] at fewer more
  rw [World.step,same]
  simp only [speech,unsaid] at *
  omega

theorem writer_speech (w : World) (written : Bool) : speech (w.step (.writer written)) ≤ speech w := by
  have one := send_length w.events (.error (.write PtyError.write.display))
  simp only [World.step,World.writerLoop,speech,unsaid]
  cases at_ : w.writer with
  | receiving =>
      dsimp only
      split
      · exact Nat.le_refl _
      · simp only [mayFail]
        exact Nat.le_refl _
      · simp [mayFail]
      · split
        · simp [at_]
        · simp [mayFail]
  | writing => cases written <;> simp [mayFail]
  | failing =>
      simp only [mayFail]
      omega
  | hangingUp => simp [mayFail]
  | signalling => simp [mayFail]
  | closing => simp [mayFail]
  | finished => simp [at_]

-- No turn of a thread makes it more, and one of the reader, or of a waiter that is not held up, makes it less.
theorem thread_speech (w : World) (move : Move) (gone : Gone move) (thread : (turnOf move).isSome = true) :
    speech (w.step move) ≤ speech w ∧ (turnOf move ≠ some .writer → speech (w.step move) < speech w ∨ w.step move = w) := by
  cases move with
  | reader result =>
      by_cases rests : w.reader = .finished
      · have same : w.step (.reader result) = w := by
          simp only [World.step,World.readerLoop,rests]
        rw [same]
        exact ⟨Nat.le_refl _,fun _ => .inr rfl⟩
      · have fewer := reader_speech gone rests
        exact ⟨Nat.le_of_lt fewer,fun _ => .inl fewer⟩
  | writer written => exact ⟨writer_speech w written,fun wrong => absurd rfl wrong⟩
  | waiter polled now =>
      by_cases owed : due w .waiter
      · have fewer := waiter_speech gone owed
        exact ⟨Nat.le_of_lt fewer,fun _ => .inl fewer⟩
      · have same : w.step (.waiter polled now) = w := stuck_waiter owed polled now
        rw [same]
        exact ⟨Nat.le_refl _,fun _ => .inr rfl⟩
  | _ => cases thread

end Perga.PtyEnding
