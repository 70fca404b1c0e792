/-
The handoff of command lines. Many clients submit lines and one worker carries them out, one at a time,
through a slot that holds a single accepted line. After a call to stop the worker accepts no more
lines, carries out the one that it has accepted and ends. It also ends when it has nothing left to do and
no client can come any more.

`Handoff.step?` makes one move of a client or of the worker if that move is possible; the moves may
come in any order.
-/
import SessionRouting.Service.Execution

namespace SessionRouting

namespace Handoff

/-- How far the worker is with stopping. -/
inductive Phase
  | serving
  /-- No more lines are accepted. -/
  | draining
  | stopped
  deriving DecidableEq, Repr

/-- How far a submitted line is. -/
inductive Stage
  /-- The client waits for the slot. -/
  | waiting
  /-- The line is in the slot or with the worker. -/
  | accepted
  | answered (result : Except Refusal Reply)
  /-- The client gave up before the line was accepted. -/
  | withdrawn

/-- A line that a client submitted. -/
structure Submission where
  line : String
  stage : Stage := .waiting
  /-- The client still waits for the answer. -/
  attended : Bool := true

inductive Move
  /-- A client comes with a line. -/
  | submit (line : String)
  /-- The line of a waiting client gets into the slot. -/
  | accept (ticket : Nat)
  /-- A waiting client is told that no more lines are accepted. -/
  | refuse (ticket : Nat)
  /-- A client gives up. -/
  | leave (ticket : Nat)
  /-- The worker takes the line in the slot and carries it out, with the directory as it answers meanwhile. -/
  | receive (directory : Directory)
  /-- The worker hands over the result of the line that it took. -/
  | reply
  /-- The daemon is told to stop. -/
  | trigger
  /-- The worker learns that the daemon is to stop. -/
  | notice
  /-- The last client goes, so that no one can submit a line any more. -/
  | desert
  /-- The worker ends. -/
  | finish

end Handoff

/-- The clients, the slot and the worker. Submissions are known by their tickets, which count from
zero. -/
structure Handoff (σ : Type) where
  service : Service σ
  phase : Handoff.Phase := .serving
  /-- The daemon was told to stop. -/
  triggered : Bool := false
  /-- No client can come any more. -/
  deserted : Bool := false
  submissions : List Handoff.Submission := []
  /-- The ticket of the accepted line that the worker has not taken yet. -/
  slot : Option Nat := none
  /-- The ticket of the line that the worker has taken, and its result. -/
  hand : Option (Nat × Except Refusal Reply) := none
  /-- The tickets of the lines that the worker has taken, each with the directory for its line, the latest
  first. -/
  received : List (Nat × Directory) := []

namespace Handoff

variable {σ : Type}

/-- Changes the submission with this ticket. -/
def amend (h : Handoff σ) (ticket : Nat) (f : Submission → Submission) : Handoff σ :=
  { h with submissions := h.submissions.modify ticket f }

/-- Whether the client with this ticket waits for the slot. -/
def isWaiting (h : Handoff σ) (ticket : Nat) : Bool :=
  h.submissions[ticket]?.any fun s => s.stage matches .waiting

/-- Adds an event to the trace. -/
def note (h : Handoff σ) (e : Event) : Handoff σ :=
  { h with service := ((Service.note e).run h.service).2 }

/-- The submission of a client that gives up before it has an answer. An accepted line is carried out all
the same. -/
def Submission.abandon? (s : Submission) : Option Submission :=
  match s.stage, s.attended with
  | .waiting, true => some { s with stage := .withdrawn, attended := false }
  | .accepted, true => some { s with attended := false }
  | _, _ => none

/-- Whether the client waits for the slot or for its answer. -/
def Submission.isOpen (s : Submission) : Bool :=
  match s.stage with
  | .waiting => true
  | .accepted => s.attended
  | _ => false

variable [World σ]

/-- The state after a move, if the move is possible. -/
def step? (p : Policy) (h : Handoff σ) : Move → Option (Handoff σ)
  | .submit line => if h.deserted then none else some { h with submissions := h.submissions ++ [{ line }] }
  | .accept ticket =>
    if h.phase = .serving ∧ h.slot = none ∧ h.isWaiting ticket then
      some { h.amend ticket ({ · with stage := .accepted }) with slot := some ticket }
    else none
  | .refuse ticket =>
    if h.phase ≠ .serving ∧ h.isWaiting ticket then
      some (h.amend ticket ({ · with stage := .answered (.error .stopping) }))
    else none
  | .leave ticket => do
    let submission ← (← h.submissions[ticket]?).abandon?
    return h.amend ticket fun _ => submission
  | .receive directory =>
    match h.hand, h.slot with
    | none, some ticket => do
      let submission ← h.submissions[ticket]?
      let (result, service) := (Service.process { policy := p, directory } submission.line).run h.service
      return { h with
        service
        slot := none
        hand := some (ticket, result)
        received := (ticket, directory) :: h.received }
    | _, _ => none
  | .reply =>
    match h.hand with
    | some (ticket, result) => do
      let submission ← h.submissions[ticket]?
      let h := { h with hand := none }
      return if submission.attended
        then h.amend ticket ({ · with stage := .answered result })
        else h.note (.discarded submission.line)
    | none => none
  | .trigger => some { h with triggered := true }
  | .notice =>
    if h.phase = .serving ∧ h.triggered ∧ h.hand.isNone then
      some ({ h with phase := .draining }.note .draining)
    else none
  | .desert => if h.submissions.any Submission.isOpen then none else some { h with deserted := true }
  | .finish =>
    if (h.phase = .draining ∨ h.phase = .serving ∧ h.deserted) ∧ h.slot = none ∧ h.hand.isNone then
      some ({ h with phase := .stopped }.note .stopped)
    else none

/-- Makes the moves that are possible when their turn comes and passes over the others. -/
def play (p : Policy) (h : Handoff σ) (moves : List Move) : Handoff σ :=
  moves.foldl (fun h m => (step? p h m).getD h) h

/-- The ticket of the next client. -/
def nextTicket (h : Handoff σ) : Nat :=
  h.submissions.length

/-- The answer that the client with this ticket has got. -/
def answer? (h : Handoff σ) (ticket : Nat) : Option (Except Refusal Reply) :=
  match h.submissions[ticket]? with
  | some { stage := .answered result, .. } => some result
  | _ => none

/-- The moves by which a waiting client that is alone gets its answer. -/
def serve (directory : Directory) (ticket : Nat) : List Move :=
  [.accept ticket, .refuse ticket, .receive directory, .reply]

/-- Submits a line and waits for the answer. -/
def exchange (r : Router) (line : String) : StateM (Handoff σ) (Except Refusal Reply) :=
  modifyGet fun h =>
    let ticket := h.nextTicket
    let h := h.play r.policy (.submit line :: serve r.directory ticket)
    ((h.answer? ticket).getD (.error .stopping), h)

/-- Submits lines all at once and waits for the answers. -/
def exchangeAll (r : Router) (lines : List String) : StateM (Handoff σ) (List (Except Refusal Reply)) :=
  modifyGet fun h =>
    let tickets := (List.range lines.length).map (· + h.nextTicket)
    let h := h.play r.policy (lines.map .submit ++ tickets.flatMap (serve r.directory))
    (tickets.map fun t => (h.answer? t).getD (.error .stopping), h)

/-- Submits a line and does not wait for the answer. -/
def leaveBehind (r : Router) (line : String) : StateM (Handoff σ) Unit :=
  modify fun h =>
    let ticket := h.nextTicket
    h.play r.policy [.submit line, .accept ticket, .leave ticket, .receive r.directory, .reply]

/-- Stops the worker. -/
def shutDown (r : Router) : StateM (Handoff σ) Unit :=
  modify (·.play r.policy [.trigger, .notice, .receive r.directory, .reply, .finish])

end Handoff

end SessionRouting
