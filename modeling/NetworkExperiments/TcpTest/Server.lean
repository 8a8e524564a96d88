import NetworkExperiments.Support.Run
import NetworkExperiments.TcpTest.Client
import NetworkExperiments.Visensor.TcpServer

/-!
# The TCPtest server

This file models the class `tcp_writer` of `TCPtest/server.cpp`, which sends one
image over and over to one client at a time.  It works by asynchronous
operations on one socket: each completion handler starts the next operation.
The operations that have been started and have not completed are listed in
`pending`; `io_service.run()` returns when there are none.

`writer_runs` says that the operations never overlap, what each connection
receives, and that the program ends exactly when an accept fails.
-/

namespace NetworkExperiments.TcpTest

open Visensor EventSystem

/-- The bytes of one image, the array `data`. -/
structure Image where
  bytes : List UInt8
  length_eq : bytes.length = imageSize

namespace Writer

/-- An asynchronous operation.  A write of the image has transferred the given
number of bytes so far. -/
inductive Operation
  | accept
  | write (transferred : ℕ)
  deriving DecidableEq, Repr

end Writer

/-- The state of `tcp_writer`.  `ended` lists what the socket has accepted on
the connections before. -/
structure Writer where
  socket : Socket
  pending : List Writer.Operation
  ended : List (List UInt8)

namespace Writer

/-- What the socket has accepted on each connection, the current one last. -/
def connections (w : Writer) : List (List UInt8) :=
  match w.socket with
  | .closed => w.ended
  | .connected accepted => w.ended ++ [accepted]

/-- `accept_connection`, which closes the socket first. -/
def acceptConnection (w : Writer) : Writer where
  socket := .closed
  pending := w.pending ++ [.accept]
  ended := w.connections

def write (w : Writer) : Writer :=
  { w with pending := w.pending ++ [.write 0] }

/-- `handle_accept`, which returns early on an error. -/
def handleAccept (w : Writer) (error : Bool) : Writer :=
  if error then w else w.write

/-- `handle_writer`, which goes back to listening on an error. -/
def handleWriter (w : Writer) (error : Bool) : Writer :=
  if error then w.acceptConnection else w.write

/-- After the constructor. -/
def init : Writer :=
  acceptConnection { socket := .closed, pending := [], ended := [] }

/-- An operation completes, or a write goes on by some bytes. -/
inductive Event
  | acceptCompletes (error : Bool)
  | transfers (transferred bytes : ℕ)
  | writeFails (transferred : ℕ)
  deriving DecidableEq, Repr

/-- The handler of a write is called when all bytes of the image have been
transferred. -/
def step (image : Image) (w : Writer) : Event → Option Writer
  | .acceptCompletes error =>
      if .accept ∈ w.pending then
        some (handleAccept
          { w with
            socket := if error then w.socket else .connected []
            pending := w.pending.erase .accept } error)
      else none
  | .transfers transferred bytes =>
      match w.socket with
      | .closed => none
      | .connected accepted =>
          if .write transferred ∈ w.pending ∧ 1 ≤ bytes ∧
              transferred + bytes ≤ imageSize then
            let w' := { w with
              socket := .connected
                (accepted ++ (image.bytes.drop transferred).take bytes)
              pending := w.pending.erase (.write transferred) }
            if transferred + bytes = imageSize then
              some (handleWriter w' false)
            else
              some { w' with
                pending := w'.pending ++ [.write (transferred + bytes)] }
          else none
  | .writeFails transferred =>
      if .write transferred ∈ w.pending then
        some (handleWriter
          { w with pending := w.pending.erase (.write transferred) } true)
      else none

/-! ## The property -/

/-- The image a number of times, and then a part of it. -/
def Streamed (image : Image) (accepted : List UInt8) : Prop :=
  ∃ times part, part < imageSize ∧ accepted =
    (List.replicate times image.bytes).flatten ++ image.bytes.take part

/-- At most one operation is pending; a write only on a connected socket, and
an accept only on a closed one.  Every connection receives the image over and
over, from its first byte on. -/
structure Streams (image : Image) (w : Writer) : Prop where
  one_pending : w.pending.length ≤ 1
  accept_closed : .accept ∈ w.pending → w.socket = .closed
  connected_iff : (∃ accepted, w.socket = .connected accepted) ↔
    ∃ transferred, .write transferred ∈ w.pending
  streamed : ∀ accepted ∈ w.connections, Streamed image accepted

/-- An accept that completes does so without an error. -/
def NoFailedAccept (_ : Writer) (e : Event) : Prop :=
  e ≠ .acceptCompletes true

/-! ## The states -/

/-- The states that can be reached: waiting for a client, sending to one, or at
the end. -/
inductive Reached (image : Image) : Writer → Prop
  | accepting {ended : List (List UInt8)}
      (h : ∀ accepted ∈ ended, Streamed image accepted) :
      Reached image ⟨.closed, [.accept], ended⟩
  | writing {ended : List (List UInt8)} (times : ℕ) {part : ℕ}
      (hpart : part < imageSize)
      (h : ∀ accepted ∈ ended, Streamed image accepted) :
      Reached image ⟨.connected ((List.replicate times image.bytes).flatten ++
        image.bytes.take part), [.write part], ended⟩
  | stopped {ended : List (List UInt8)}
      (h : ∀ accepted ∈ ended, Streamed image accepted) :
      Reached image ⟨.closed, [], ended⟩

variable {image : Image} {w w' : Writer} {e : Event}

theorem streamed_concat {ended : List (List UInt8)}
    (h : ∀ accepted ∈ ended, Streamed image accepted) {last : List UInt8}
    (hlast : Streamed image last) :
    ∀ accepted ∈ ended ++ [last], Streamed image accepted := by
  intro accepted haccepted
  rcases List.mem_append.mp haccepted with hold | hnew
  · exact h accepted hold
  · rw [List.mem_singleton.mp hnew]
    exact hlast

theorem Reached.streams (h : Reached image w) : Streams image w := by
  cases h with
  | accepting h =>
      exact ⟨Nat.le_refl 1, fun _ => rfl, by simp, h⟩
  | writing times hpart h =>
      exact ⟨Nat.le_refl 1, fun haccept => by simp at haccept, by simp,
        streamed_concat h ⟨times, _, hpart, rfl⟩⟩
  | stopped h =>
      exact ⟨Nat.zero_le 1, fun haccept => by simp at haccept, by simp, h⟩

/-- A write that transfers some bytes has transferred the next ones of the
image; after the last one it starts again. -/
theorem reached_transfers (times : ℕ) {transferred bytes : ℕ}
    {ended : List (List UInt8)}
    (h : ∀ accepted ∈ ended, Streamed image accepted)
    (hle : transferred + bytes ≤ imageSize) :
    Reached image
      (if transferred + bytes = imageSize then
        handleWriter ⟨.connected
          ((List.replicate times image.bytes).flatten ++
            image.bytes.take transferred ++
              (image.bytes.drop transferred).take bytes), [], ended⟩ false
      else
        ⟨.connected
          ((List.replicate times image.bytes).flatten ++
            image.bytes.take transferred ++
              (image.bytes.drop transferred).take bytes),
          [.write (transferred + bytes)], ended⟩) := by
  rw [List.append_assoc, ← List.take_add]
  split
  · next hwhole =>
      have hstream : (List.replicate times image.bytes).flatten ++
          image.bytes.take (transferred + bytes) =
            (List.replicate (times + 1) image.bytes).flatten ++
              image.bytes.take 0 := by
        rw [hwhole, ← image.length_eq, List.take_length, List.take_zero,
          List.append_nil, List.replicate_succ', List.flatten_concat]
      have hpos : 0 < imageSize := by decide
      rw [hstream]
      exact .writing (times + 1) hpos h
  · next hpart => exact .writing times (by omega) h

theorem reached_step (h : Reached image w) (hstep : step image w e = some w') :
    Reached image w' := by
  cases e with
  | acceptCompletes error =>
      cases h with
      | accepting h =>
          obtain rfl := Option.some.inj hstep
          cases error with
          | false =>
              have hpos : 0 < imageSize := by decide
              exact .writing 0 hpos h
          | true => exact .stopped h
      | writing => simp [step] at hstep
      | stopped => simp [step] at hstep
  | transfers transferred bytes =>
      cases h with
      | accepting => cases hstep
      | stopped => cases hstep
      | writing times hpart h =>
          simp only [step] at hstep
          split at hstep
          · next hpossible =>
              obtain ⟨hpending, -, hle⟩ := hpossible
              obtain ⟨rfl⟩ : transferred = _ := by simpa using hpending
              have hreached := reached_transfers times h hle
              rw [List.erase_cons_head] at hstep
              split at hstep
              · next hwhole =>
                  rw [if_pos hwhole] at hreached
                  exact Option.some.inj hstep ▸ hreached
              · next hsome =>
                  rw [if_neg hsome] at hreached
                  exact Option.some.inj hstep ▸ hreached
          · contradiction
  | writeFails transferred =>
      cases h with
      | accepting => simp [step] at hstep
      | stopped => simp [step] at hstep
      | writing times hpart h =>
          simp only [step] at hstep
          split at hstep
          · next hpending =>
              obtain ⟨rfl⟩ : transferred = _ := by simpa using hpending
              rw [List.erase_cons_head] at hstep
              obtain rfl := Option.some.inj hstep
              exact .accepting
                (streamed_concat h ⟨times, transferred, hpart, rfl⟩)
          · contradiction

theorem reached_init (image : Image) : Reached image init :=
  .accepting fun _ h => absurd h List.not_mem_nil

theorem pending_handleWriter (w : Writer) (error : Bool) :
    (handleWriter w error).pending ≠ [] := by
  cases error <;> simp [handleWriter, write, acceptConnection]

/-- After an accept that fails nothing is pending, after every other step
something is. -/
theorem pending_ne_nil_iff (h : Reached image w)
    (hstep : step image w e = some w') :
    w'.pending ≠ [] ↔ NoFailedAccept w e := by
  cases e with
  | acceptCompletes error =>
      cases h with
      | accepting =>
          obtain rfl := Option.some.inj hstep
          cases error <;> simp [handleAccept, write, NoFailedAccept]
      | writing => simp [step] at hstep
      | stopped => simp [step] at hstep
  | transfers transferred bytes =>
      refine iff_of_true ?_ nofun
      simp only [step] at hstep
      split at hstep
      · contradiction
      · split at hstep
        · split at hstep
          · exact Option.some.inj hstep ▸ pending_handleWriter _ _
          · obtain rfl := Option.some.inj hstep
            simp
        · contradiction
  | writeFails transferred =>
      refine iff_of_true ?_ nofun
      simp only [step] at hstep
      split at hstep
      · exact Option.some.inj hstep ▸ pending_handleWriter _ _
      · contradiction

/-- The server sends the image over and over to one client after the other, with
one operation at a time, until an accept fails, and not longer. -/
theorem writer_runs (image : Image) (es : List Event) :
    EachState (step image) (Streams image) init es ∧
      (EachState (step image) (fun w => w.pending ≠ []) init es ↔
        EachStep (step image) NoFailedAccept init es) := by
  constructor
  · have hreached : EachState (step image) (Reached image) init es :=
      eachState_of_eachStep (fun _ _ _ h _ hstep => reached_step h hstep)
        (reached_init image) (EachStep.of_forall (fun _ _ => trivial) _ _)
    exact hreached.mono fun _ h => h.streams
  · refine eachState_iff_eachStep
      (I := fun w => Reached image w ∧ w.pending ≠ []) (A := fun _ _ => True)
      (fun _ h => h.2) ?_ ?_ ⟨reached_init image, by decide⟩
      (EachStep.of_forall (fun _ _ => trivial) _ _)
    · intro w e w' h _ hfail hstep
      exact ⟨reached_step h.1 hstep, (pending_ne_nil_iff h.1 hstep).mpr hfail⟩
    · intro w e w' h _ hfail hstep
      exact mt (pending_ne_nil_iff h.1 hstep).mp hfail

end Writer

end NetworkExperiments.TcpTest
