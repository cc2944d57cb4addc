import Perga.PtySession

namespace Perga.ExitedLast
open PtySession

def announced (w : World) : Bool := w.events.sent.any TransportEvent.isExited

-- Nothing stands behind an exit, and every chunk that was read stands before it.
def Last (w : World) : Prop :=
  ∀ earlier status later, w.events.sent = earlier ++ .exited status :: later →
    later = [] ∧ delivered earlier = w.obtained

-- A write error that reaches the channel finds no exit there.
def InTime (w : World) : Move → Prop
  | .writer _ => w.writer = .failing → w.events.room = none → announced w = false
  | _ => True

def inHand : Reader → List (List UInt8)
  | .sending data => [data]
  | _ => []

def reported : Waiter → Bool
  | .reporting _ => true
  | .finished => true
  | _ => false

-- The reader-done barrier, and what the channel holds of the reader's chunks.
structure Barred (w : World) : Prop where
  barrier : reported w.waiter = true → w.reader = .finished
  exited : announced w = true → w.waiter = .finished ∧ delivered w.events.sent = w.obtained
  chunks : w.events.room = none → delivered w.events.sent ++ inHand w.reader = w.obtained
  room : w.events.room = none ∨ w.events.room = some 0

theorem announced_append (events : List TransportEvent) (event : TransportEvent) :
    (events ++ [event]).any TransportEvent.isExited = (events.any TransportEvent.isExited || event.isExited) := by
  rw [List.any_append,List.any_cons,List.any_nil,Bool.or_false]

theorem delivered_append (events : List TransportEvent) (event : TransportEvent) :
    delivered (events ++ [event]) = delivered events ++ event.bytes?.toList := by
  rw [delivered,List.filterMap_append]
  cases event <;> rfl

theorem sends {o : Outlet TransportEvent} (room : o.room = none ∨ o.room = some 0) (event : TransportEvent) :
    o.room = none ∧ o.send event = (⟨o.sent ++ [event],none⟩,true) ∨ o.room = some 0 ∧ o.send event = (o,false) := by
  unfold Outlet.send
  rcases room with open_ | gone
  · exact .inl ⟨open_,by rw [open_]⟩
  · exact .inr ⟨gone,by rw [gone]⟩

theorem last_quiet {w : World} (quiet : announced w = false) : Last w := by
  intro earlier status later split
  rw [announced,split,List.any_append,List.any_cons] at quiet
  simp [TransportEvent.isExited] at quiet

theorem last_same {w next : World} (last : Last w) (sent : next.events.sent = w.events.sent)
    (obtained : next.obtained = w.obtained) : Last next := by
  intro earlier status later split
  rw [obtained]
  exact last earlier status later (sent ▸ split)

theorem last_spoiled {w next : World} (found : announced w = true) (event : TransportEvent)
    (sent : next.events.sent = w.events.sent ++ [event]) : ¬ Last next := by
  intro last
  obtain ⟨exit,member,kind⟩ := List.any_eq_true.mp found
  cases exit with
  | exited status =>
      obtain ⟨earlier,later,split⟩ := List.append_of_mem member
      have empty := (last earlier status (later ++ [event]) (by rw [sent,split,List.append_assoc,List.cons_append])).1
      simp at empty
  | output bytes => cases kind
  | error err => cases kind

theorem last_closed {w next : World} (quiet : announced w = false) {status : ExitStatus}
    (sent : next.events.sent = w.events.sent ++ [.exited status])
    (complete : delivered w.events.sent = next.obtained) : Last next := by
  intro earlier code later split
  rw [sent] at split
  rcases StepRuns.grown_split split with ⟨rfl,rfl,_⟩ | ⟨rest,before,_⟩
  · exact ⟨rfl,complete⟩
  · have found : announced w = true := by
      rw [announced,before,List.any_append,List.any_cons]
      simp [TransportEvent.isExited]
    rw [quiet] at found
    cases found

theorem unannounced {w : World} (barred : Barred w) (unreported : reported w.waiter = false) : announced w = false := by
  cases found : announced w with
  | false => rfl
  | true =>
      rw [(barred.exited found).1] at unreported
      cases unreported

-- A step that puts nothing into the channel and reads nothing.
theorem still_barred {w next : World} (barred : Barred w) (sent : next.events.sent = w.events.sent)
    (room : next.events.room = w.events.room ∨ next.events.room = some 0) (obtained : next.obtained = w.obtained)
    (hand : next.events.room = none → inHand next.reader = inHand w.reader)
    (barrier : reported next.waiter = true → next.reader = .finished)
    (ended : w.waiter = .finished → next.waiter = .finished) : Barred next ∧ (Last w → Last next) := by
  refine ⟨⟨barrier,?_,?_,?_⟩,fun last => last_same last sent obtained⟩
  · intro found
    rw [announced,sent] at found
    rw [sent,obtained]
    exact ⟨ended (barred.exited found).1,(barred.exited found).2⟩
  · intro open_
    rcases room with same | gone
    · rw [sent,hand open_,obtained]
      exact barred.chunks (same ▸ open_)
    · rw [gone] at open_
      cases open_
  · rcases room with same | gone
    · rw [same]; exact barred.room
    · exact .inr gone

-- A step that puts an output or an error there.
theorem put_barred {w next : World} (barred : Barred w) (event : TransportEvent) (kind : event.isExited = false)
    (events : next.events = ⟨w.events.sent ++ [event],none⟩)
    (chunks : delivered w.events.sent ++ event.bytes?.toList ++ inHand next.reader = next.obtained)
    (silent : announced w = true → event.bytes? = none ∧ next.obtained = w.obtained)
    (barrier : reported next.waiter = true → next.reader = .finished) (waiter : next.waiter = w.waiter) : Barred next := by
  refine ⟨barrier,?_,fun _ => ?_,by rw [events]; exact .inl rfl⟩
  · intro found
    rw [announced,events,announced_append,kind,Bool.or_false] at found
    obtain ⟨no_bytes,same⟩ := silent found
    rw [waiter,events,delivered_append,no_bytes,same]
    exact ⟨(barred.exited found).1,(List.append_nil _).trans (barred.exited found).2⟩
  · rw [events,delivered_append]
    exact chunks

theorem quiet_put {w next : World} (quiet : announced w = false) (event : TransportEvent)
    (kind : event.isExited = false) (sent : next.events.sent = w.events.sent ++ [event]) : Last next := by
  apply last_quiet
  rw [announced,sent,announced_append,kind,Bool.or_false]
  exact quiet

-- The reader hands on what it holds, or finds that nobody listens.
theorem offered_barred {w next : World} (barred : Barred w) (event : TransportEvent) (kind : event.isExited = false)
    (unreported : reported w.waiter = false) (events : next.events = (w.events.send event).1) (obtained : next.obtained = w.obtained)
    (waiter : next.waiter = w.waiter) (hand : inHand w.reader = event.bytes?.toList) (emptied : inHand next.reader = []) :
    Barred next ∧ (Last w → Last next) := by
  have quiet := unannounced barred unreported
  have early : reported next.waiter = true → next.reader = .finished := by
    intro done
    rw [waiter,unreported] at done
    cases done
  rcases sends barred.room event with ⟨open_,sent⟩ | ⟨gone,sent⟩
  · rw [sent] at events
    refine ⟨put_barred barred event kind events ?_ (fun found => ?_) early waiter,fun _ => quiet_put quiet event kind (by rw [events])⟩
    · have chunks := barred.chunks open_
      rw [hand] at chunks
      rw [emptied,List.append_nil,obtained]
      exact chunks
    · rw [quiet] at found
      cases found
  · rw [sent] at events
    refine still_barred barred (by rw [events]) (.inl (by rw [events])) obtained (fun open_ => ?_) early (by rw [waiter]; exact id)
    rw [events,gone] at open_
    cases open_

theorem reader_barred {w : World} (barred : Barred w) (result : Except IoError (List UInt8)) :
    Barred (w.readerLoop result) ∧ (Last w → Last (w.readerLoop result)) := by
  have busy : w.reader ≠ .finished → reported w.waiter = false := by
    intro going
    cases done : reported w.waiter with
    | false => rfl
    | true => exact absurd (barred.barrier done) going
  unfold World.readerLoop
  cases at_ : w.reader with
  | reading =>
      have unreported := busy (by rw [at_]; simp)
      have early : reported w.waiter = true → False := by
        intro done
        rw [unreported] at done
        cases done
      have leave : ∀ reader, inHand reader = [] → Barred {w with reader := reader} ∧ (Last w → Last {w with reader := reader}) :=
        fun reader empty => still_barred barred rfl (.inl rfl) rfl (fun _ => by rw [at_]; exact empty) (fun done => (early done).elim) id
      cases result with
      | error e =>
          dsimp only
          split
          · exact leave _ rfl
          · exact leave _ rfl
      | ok data =>
          cases data with
          | nil => exact leave _ rfl
          | cons b rest =>
              have quiet := unannounced barred unreported
              refine ⟨⟨fun done => (early done).elim,fun found => ?_,fun open_ => ?_,barred.room⟩,fun _ => last_quiet quiet⟩
              · have found : announced w = true := found
                rw [quiet] at found
                cases found
              · have chunks := barred.chunks open_
                rw [at_] at chunks
                exact congrArg (· ++ [b :: rest]) ((List.append_nil _).symm.trans chunks)
  | sending data =>
      refine offered_barred barred (.output data) rfl (busy (by rw [at_]; simp)) rfl rfl rfl (by rw [at_]; rfl) ?_
      dsimp only
      split <;> rfl
  | failing =>
      exact offered_barred barred (.error (.read PtyError.read.display)) rfl (busy (by rw [at_]; simp)) rfl rfl rfl (by rw [at_]; rfl) rfl
  | leaving => exact still_barred barred rfl (.inl rfl) rfl (fun _ => by rw [at_]; rfl) (fun _ => rfl) id
  | finished => exact ⟨barred,id⟩

-- The writer alone may spoil the order: nothing holds it back once the exit is out.
theorem writer_barred {w : World} (barred : Barred w) (written : Bool) :
    Barred (w.writerLoop written) ∧
      (Last w → (Last (w.writerLoop written) ↔ InTime w (.writer written))) := by
  have aside : ∀ next : World, next.events = w.events → next.obtained = w.obtained → next.reader = w.reader →
      next.waiter = w.waiter → w.writer ≠ .failing →
      Barred next ∧ (Last w → (Last next ↔ InTime w (.writer written))) := by
    intro next events obtained reader waiter other
    have kept : Barred next ∧ (Last w → Last next) := still_barred barred (by rw [events]) (.inl (by rw [events])) obtained
      (fun _ => by rw [reader]) (by rw [waiter,reader]; exact barred.barrier) (by rw [waiter]; exact id)
    exact ⟨kept.1,fun last => iff_of_true (kept.2 last) fun failing => absurd failing other⟩
  unfold World.writerLoop
  cases at_ : w.writer with
  | receiving =>
      dsimp only
      split
      · exact aside _ rfl rfl rfl rfl (by rw [at_]; simp)
      · exact aside _ rfl rfl rfl rfl (by rw [at_]; simp)
      · exact aside _ rfl rfl rfl rfl (by rw [at_]; simp)
      · split
        · exact aside _ rfl rfl rfl rfl (by rw [at_]; simp)
        · exact aside _ rfl rfl rfl rfl (by rw [at_]; simp)
  | failing =>
      rcases sends barred.room (.error (.write PtyError.write.display)) with ⟨open_,sent⟩ | ⟨gone,sent⟩
      · simp only [sent]
        refine ⟨put_barred barred (.error (.write PtyError.write.display)) rfl rfl ?_ (fun _ => ⟨rfl,rfl⟩)
          barred.barrier rfl,fun _ => ?_⟩
        · exact (congrArg (· ++ inHand w.reader) (List.append_nil _)).trans (barred.chunks open_)
        · cases found : announced w with
          | true =>
              refine iff_of_false (last_spoiled found (.error (.write PtyError.write.display)) rfl) fun intime => ?_
              have quiet := intime at_ open_
              rw [found] at quiet
              cases quiet
          | false => exact iff_of_true (quiet_put found (.error _) rfl rfl) fun _ _ => found
      · simp only [sent]
        have kept : Barred {w with writer := .closing} ∧ (Last w → Last {w with writer := .closing}) :=
          still_barred barred rfl (.inl rfl) rfl (fun _ => rfl) barred.barrier id
        refine ⟨kept.1,fun last => iff_of_true (kept.2 last) fun _ open_ => ?_⟩
        rw [gone] at open_
        cases open_
  | writing => exact aside _ rfl rfl rfl rfl (by rw [at_]; simp)
  | hangingUp => exact aside _ rfl rfl rfl rfl (by rw [at_]; simp)
  | signalling => exact aside _ rfl rfl rfl rfl (by rw [at_]; simp)
  | closing => exact aside _ rfl rfl rfl rfl (by rw [at_]; simp)
  | finished => exact aside _ rfl rfl rfl rfl (by rw [at_]; simp)

-- The report comes when the reader is done, so an exit in it has every chunk before it.
theorem report_barred {w : World} (barred : Barred w) {result : Except String UInt32} (at_ : w.waiter = .reporting result) :
    Barred {w with events := (w.events.send (waitReport result)).1,waiter := .finished} ∧
      (Last w → Last {w with events := (w.events.send (waitReport result)).1,waiter := .finished}) := by
  have done : w.reader = .finished := barred.barrier (by rw [at_]; rfl)
  have quiet : announced w = false := by
    cases found : announced w with
    | false => rfl
    | true =>
        have ended := (barred.exited found).1
        rw [at_] at ended
        cases ended
  rcases sends barred.room (waitReport result) with ⟨open_,sent⟩ | ⟨gone,sent⟩
  · rw [sent]
    have complete : delivered w.events.sent = w.obtained := by
      have chunks := barred.chunks open_
      rw [done] at chunks
      exact (List.append_nil _).symm.trans chunks
    have silent : (waitReport result).bytes? = none := by cases result <;> rfl
    have kept : delivered (w.events.sent ++ [waitReport result]) = w.obtained := by
      rw [delivered_append,silent,complete]
      exact List.append_nil _
    refine ⟨⟨fun _ => done,fun _ => ⟨rfl,kept⟩,fun _ => ?_,.inl rfl⟩,fun _ => ?_⟩
    · change delivered (w.events.sent ++ [waitReport result]) ++ inHand w.reader = w.obtained
      rw [kept,done]
      exact List.append_nil _
    · cases result with
      | error message => exact quiet_put quiet (waitReport (.error message)) rfl rfl
      | ok code => exact last_closed quiet rfl complete
  · rw [sent]
    exact still_barred barred rfl (.inl rfl) rfl (fun _ => rfl) (fun _ => done) fun _ => rfl

theorem waiter_barred {w : World} (barred : Barred w) (polled : Except String (Option UInt32)) (now : Nat) :
    Barred (w.waiterLoop polled now) ∧ (Last w → Last (w.waiterLoop polled now)) := by
  have aside : ∀ next : World, next.events = w.events → next.obtained = w.obtained → next.reader = w.reader →
      reported next.waiter = false → w.waiter ≠ .finished → Barred next ∧ (Last w → Last next) := by
    intro next events obtained reader waiter busy
    exact still_barred barred (by rw [events]) (.inl (by rw [events])) obtained (fun _ => by rw [reader])
      (fun done => by rw [waiter] at done; cases done) fun done => absurd done busy
  unfold World.waiterLoop
  cases at_ : w.waiter with
  | polling =>
      have busy : w.waiter ≠ .finished := by rw [at_]; simp
      rcases polled with message | status
      · exact aside _ rfl rfl rfl rfl busy
      · cases status <;> exact aside _ rfl rfl rfl rfl busy
  | watching =>
      have busy : w.waiter ≠ .finished := by rw [at_]; simp
      dsimp only
      split <;> exact aside _ rfl rfl rfl rfl busy
  | escalating =>
      have busy : w.waiter ≠ .finished := by rw [at_]; simp
      dsimp only
      split
      · split <;> exact aside _ rfl rfl rfl rfl busy
      · exact aside _ rfl rfl rfl rfl busy
  | joining result =>
      dsimp only
      split
      · rename_i done
        exact still_barred barred rfl (.inl rfl) rfl (fun _ => rfl) (fun _ => done) fun done => by rw [at_] at done; cases done
      · exact ⟨barred,id⟩
  | reporting result => exact report_barred barred at_
  | finished => exact ⟨barred,id⟩

theorem step_barred (w : World) (move : Move) (barred : Barred w) :
    Barred (w.step move) ∧ (Last w → (Last (w.step move) ↔ InTime w move)) := by
  have always : ∀ next : World, Barred next ∧ (Last w → Last next) → Barred next ∧ (Last w → (Last next ↔ True)) :=
    fun next kept => ⟨kept.1,fun last => iff_of_true (kept.2 last) trivial⟩
  have aside : ∀ next : World, next.events = w.events → next.obtained = w.obtained → next.reader = w.reader →
      next.waiter = w.waiter → Barred next ∧ (Last w → (Last next ↔ True)) := fun next events obtained reader waiter =>
    always _ (still_barred barred (by rw [events]) (.inl (by rw [events])) obtained (fun _ => by rw [reader])
      (by rw [waiter,reader]; exact barred.barrier) (by rw [waiter]; exact id))
  cases move with
  | reader result => exact always _ (reader_barred barred result)
  | writer written => exact writer_barred barred written
  | waiter polled now => exact always _ (waiter_barred barred polled now)
  | command c => simp only [World.step]; split <;> exact aside _ rfl rfl rfl rfl
  | drop => simp only [World.step,World.dropStep]; split <;> exact aside _ rfl rfl rfl rfl
  | closeCommands => simp only [World.step]; split <;> exact aside _ rfl rfl rfl rfl
  | dropReceiver =>
      simp only [World.step]
      split
      · exact always _ (still_barred barred rfl (.inr rfl) rfl (fun _ => rfl) barred.barrier id)
      · exact aside _ rfl rfl rfl rfl

theorem spawn_barred (pid pgid : Option Int) : Barred (spawn pid pgid) := by
  refine ⟨?_,?_,fun _ => rfl,.inl rfl⟩
  · intro done
    cases done
  · intro found
    cases found

-- In every interleaving: the exit is the channel's end, with every chunk before it,
-- exactly when no write error is put there behind it.
theorem exited_last (pid pgid : Option Int) (moves : List Move) :
    StepRuns.Throughout World.step Last (spawn pid pgid) moves ↔
      StepRuns.Along World.step InTime (spawn pid pgid) moves := by
  refine StepRuns.throughout_iff_along Last (last_quiet rfl) ?_ fun w move last barred => (step_barred w move barred).2 last
  exact StepRuns.run_along Barred moves (spawn_barred pid pgid) fun w move barred => ⟨barred,(step_barred w move barred).1⟩

-- The child has exited and its output is drained; then a key is written to the master.
def lateWrite : List Move :=
  [.waiter (.ok (some 0)) 0,.reader (.ok []),.reader (.ok []),.waiter (.ok none) 0,.waiter (.ok none) 0,
    .command (.write [113]),.writer true,.writer false,.writer true]

theorem late_write_behind_exit :
    ¬ StepRuns.Throughout World.step Last (spawn (some 7) (some 7)) lateWrite ∧
      (lateWrite.foldl World.step (spawn (some 7) (some 7))).events.sent =
        [.exited (.fromCode 0),.error (.write "pty write error")] := by
  have sent : (lateWrite.foldl World.step (spawn (some 7) (some 7))).events.sent =
      [.exited (.fromCode 0),.error (.write "pty write error")] := by decide
  refine ⟨fun all => ?_,sent⟩
  have last := StepRuns.throughout_last all
  cases (last [] (.fromCode 0) [.error (.write "pty write error")] sent).1

end Perga.ExitedLast
