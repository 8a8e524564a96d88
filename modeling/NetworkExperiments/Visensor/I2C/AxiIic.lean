import Mathlib.Logic.Function.Iterate
import NetworkExperiments.Support.CommandQueue
import NetworkExperiments.Visensor.I2C.I2CBusRaw

/-!
# The AXI IIC core in dynamic mode

The core takes words from its TX FIFO.  A word with bit 8 issues a start and an
address; other words are data bytes, or after an address for reading the number
of bytes to receive; a word with bit 9 is followed by a stop.  The bytes that
are received arrive in the RX FIFO one after another.

The core works in its own time.  Before each access by the driver it takes some
number of steps, which is given by a function of the number of the access.
-/

namespace NetworkExperiments.Visensor.I2C

/-- The transfer on the bus.  A transfer for reading keeps the bytes that were
written before the repeated start. -/
inductive Bus
  | idle
  | writing (address : ℕ) (bytes : List UInt8)
  | reading (address : ℕ) (bytes : List UInt8)
  deriving DecidableEq, Repr

/-- The state of the transfers: the bus, the bytes received that have not been
read from the RX FIFO, and the slave. -/
structure Transfer (σ : Type*) where
  bus : Bus
  received : List UInt8
  slave : σ

/-- The address of the slave. -/
def slaveAddress : ℕ := 0x48

section Transfers

variable {σ : Type*} (slave : Slave σ)

/-- A write that ends here reaches the slave if it is addressed. -/
def endWrite (bus : Bus) (s : σ) : σ :=
  match bus with
  | .writing address bytes =>
      if address = slaveAddress then slave.write s bytes else s
  | _ => s

/-- A read of `n` bytes.  Nobody answers to another address. -/
def receive (address : ℕ) (bytes : List UInt8) (n : ℕ) (s : σ) :
    List UInt8 × σ :=
  if address = slaveAddress then
    if bytes = [] then slave.read s n else slave.writeRead s bytes n
  else (List.replicate n 0xff, s)

/-- The address in a word with a start. -/
def startAddress (w : ℕ) : ℕ := w % 2 ^ 8 / 2

/-- What the core does with a word from the TX FIFO. -/
def process (t : Transfer σ) (w : ℕ) : Transfer σ :=
  if w.testBit 8 then
    if w.testBit 0 then
      match t.bus with
      | .writing address bytes =>
          if address = startAddress w then
            { t with bus := .reading address bytes }
          else
            { t with
              bus := .reading (startAddress w) []
              slave := endWrite slave t.bus t.slave }
      | _ => { t with bus := .reading (startAddress w) [] }
    else
      { t with
        bus := .writing (startAddress w) []
        slave := endWrite slave t.bus t.slave }
  else
    match t.bus with
    | .idle => t
    | .writing address bytes =>
        let bus := .writing address (bytes ++ [UInt8.ofNat w])
        if w.testBit 9 then
          { t with bus := .idle, slave := endWrite slave bus t.slave }
        else { t with bus := bus }
    | .reading address bytes =>
        let result := receive slave address bytes (w % 2 ^ 8) t.slave
        { bus := if w.testBit 9 then .idle else .reading address []
          received := t.received ++ result.1
          slave := result.2 }

/-- The core: the TX FIFO with the transfers, and how many of the bytes
received have arrived in the RX FIFO. -/
structure Core (σ : Type*) where
  commands : CommandQueue (Transfer σ) ℕ
  arrived : ℕ

namespace Core

def tx (c : Core σ) : List ℕ := c.commands.queue

def rx (c : Core σ) : List UInt8 := c.commands.state.received.take c.arrived

/-- A core with nothing to do. -/
def idle (s : σ) : Core σ := ⟨⟨[], none, ⟨.idle, [], s⟩⟩, 0⟩

/-- One step of the core: the next byte arrives, or it goes on with the
words. -/
def tick (c : Core σ) : Core σ :=
  if c.arrived < c.commands.state.received.length then
    { c with arrived := c.arrived + 1 }
  else { c with commands := c.commands.advance (process slave) }

/-- The bus is busy while a word or a byte is under way or a transfer has not
been stopped. -/
def isBusy (c : Core σ) : Bool :=
  c.commands.current.isSome || c.commands.state.bus ≠ .idle ||
    c.arrived < c.commands.state.received.length

/-- The status register: bit 7 is set when the TX FIFO is empty, bit 6 when the
RX FIFO is empty, and bit 2 when the bus is busy. -/
def status (c : Core σ) : ℕ :=
  (if c.isBusy then 2 ^ 2 else 0) + (if c.rx.isEmpty then 2 ^ 6 else 0) +
    (if c.tx.isEmpty then 2 ^ 7 else 0)

/-- Write a word to the TX FIFO. -/
def push (c : Core σ) (w : ℕ) : Core σ :=
  { c with commands := c.commands.push w }

/-- Read a byte from the RX FIFO; an empty one reads as zero. -/
def pop (c : Core σ) : ℕ × Core σ :=
  match c.rx with
  | [] => (0, c)
  | b :: _ =>
      (b.toNat,
        { commands := { c.commands with
            state := { c.commands.state with
              received := c.commands.state.received.tail } }
          arrived := c.arrived - 1 })

/-- The state of the transfers when everything pushed so far is done. -/
def final (c : Core σ) : Transfer σ := c.commands.final (process slave)

end Core

/-- A core and the number of accesses to it. -/
structure Clocked (σ : Type*) where
  core : Core σ
  time : ℕ

/-- The core goes on until the next access. -/
def Clocked.wait (delay : ℕ → ℕ) (s : Clocked σ) : Clocked σ :=
  ⟨(Core.tick slave)^[delay s.time] s.core, s.time + 1⟩

/-- The registers of the core that the driver uses. -/
def window (delay : ℕ → ℕ) : Window (Clocked σ) where
  readWord s offset :=
    let s := s.wait slave delay
    if offset = 0x104 then (s.core.status, s)
    else if offset = 0x10C then (s.core.pop.1, { s with core := s.core.pop.2 })
    else (0, s)
  writeWord s offset w :=
    let s := s.wait slave delay
    if offset = 0x108 then { s with core := s.core.push w } else s

/-! ## What the core has taken in -/

/-- Carrying out words only adds to the bytes received. -/
theorem received_process (t : Transfer σ) (w : ℕ) :
    t.received <+: (process slave t w).received := by
  unfold process
  split
  · split
    · split
      · split <;> exact List.prefix_refl _
      · exact List.prefix_refl _
    · exact List.prefix_refl _
  · split
    · exact List.prefix_refl _
    · split <;> exact List.prefix_refl _
    · exact List.prefix_append _ _

theorem received_foldl (words : List ℕ) (t : Transfer σ) :
    t.received <+: (words.foldl (process slave) t).received := by
  induction words generalizing t with
  | nil => exact List.prefix_refl _
  | cons w words ih => exact (received_process slave t w).trans (ih _)

namespace Core

variable {slave} {c : Core σ} {t : Transfer σ}

/-- What is in the RX FIFO will still have been received in the end. -/
theorem rx_eq_nil (h : (c.final slave).received = []) : c.rx = [] := by
  have hprefix := received_foldl slave c.commands.pending c.commands.state
  have hnil : c.commands.state.received = [] :=
    List.prefix_nil.mp (h ▸ hprefix)
  rw [rx, hnil, List.take_nil]

theorem final_push (w : ℕ) :
    (c.push w).final slave = process slave (c.final slave) w :=
  CommandQueue.final_push (process slave)

/-- A property that the core keeps in every step. -/
def Stable (slave : Slave σ) (P : Core σ → Prop) : Prop :=
  ∀ c, P c → P (c.tick slave)

theorem commands_tick (slave : Slave σ) (c : Core σ) :
    (c.tick slave).commands = c.commands ∨
      (c.tick slave).commands = c.commands.advance (process slave) := by
  rw [tick]
  split
  · exact Or.inl rfl
  · exact Or.inr rfl

theorem stable_final (t : Transfer σ) :
    Stable slave fun c => c.final slave = t := by
  intro c h
  rcases commands_tick slave c with hsame | hnext
  · exact (congrArg _ hsame).trans h
  · rw [final, hnext, CommandQueue.final_advance]
    exact h

theorem stable_tx : Stable slave fun c => c.tx = [] := by
  intro c h
  rcases commands_tick slave c with hsame | hnext
  · exact (congrArg _ hsame).trans h
  · rw [tx, hnext]
    exact CommandQueue.queue_advance (process slave) h

theorem stable_sent (w : ℕ) (t : Transfer σ) :
    Stable slave fun c => c.commands.Sent (process slave) w t := by
  intro c h
  rcases commands_tick slave c with hsame | hnext
  · rw [hsame]
    exact h
  · rw [hnext]
    exact h.advance

/-- Everything has been carried out, and the transfers are in the state `t`. -/
def Settled (t : Transfer σ) (c : Core σ) : Prop :=
  c.commands.pending = [] ∧ c.commands.state = t

theorem Settled.final_eq (h : c.Settled t) : c.final slave = t :=
  (CommandQueue.final_of_pending (process slave) h.1).trans h.2

theorem Settled.of_eq {t' : Transfer σ} (h : c.Settled t) (heq : t = t') :
    c.Settled t' :=
  heq ▸ h

theorem Settled.tx_eq (h : c.Settled t) : c.tx = [] :=
  (List.append_eq_nil_iff.mp h.1).2

theorem stable_settled (t : Transfer σ) :
    Stable slave fun c => c.Settled t := by
  intro c h
  rcases commands_tick slave c with hsame | hnext
  · rw [Settled, hsame]
    exact h
  · rw [Settled, hnext, CommandQueue.advance_of_pending (process slave) h.1]
    exact h

/-- A core that has nothing to send and is not busy has carried out
everything. -/
theorem settled_of_notBusy (slave : Slave σ) (htx : c.tx = [])
    (hbusy : c.isBusy = false) :
    c.Settled (c.final slave) := by
  have hcurrent : c.commands.current = none := by
    simp only [isBusy, Bool.or_eq_false_iff] at hbusy
    simpa using hbusy.1.1
  have hpending : c.commands.pending = [] := by
    rw [CommandQueue.pending, hcurrent]
    exact htx
  exact ⟨hpending,
    (CommandQueue.final_of_pending (process slave) hpending).symm⟩

/-- When a byte has arrived, the last word, which made the slave send it, has
been carried out. -/
theorem settled_of_rx {w : ℕ}
    (h : c.commands.Sent (process slave) w t) (hnone : t.received = [])
    (hrx : c.rx ≠ []) : c.Settled (process slave t w) := by
  rcases h with ⟨before, -, hbefore⟩ | hdone
  · have hprefix := received_foldl slave before c.commands.state
    rw [hbefore, hnone] at hprefix
    apply absurd _ hrx
    rw [rx, List.prefix_nil.mp hprefix, List.take_nil]
  · exact hdone

theorem pop_of_settled {bus : Bus} {b : UInt8} {bytes : List UInt8} {s : σ}
    (h : c.Settled ⟨bus, b :: bytes, s⟩) (hrx : c.rx ≠ []) :
    c.pop.1 = b.toNat ∧ c.pop.2.Settled ⟨bus, bytes, s⟩ := by
  obtain ⟨⟨queue, current, state⟩, arrived⟩ := c
  obtain ⟨hpending, hstate⟩ := h
  cases (hstate : state = ⟨bus, b :: bytes, s⟩)
  cases arrived with
  | zero => exact absurd rfl hrx
  | succ n => exact ⟨rfl, hpending, rfl⟩

theorem stable_rx : Stable slave fun c => c.Settled t ∧ c.rx ≠ [] := by
  rintro c ⟨hsettled, hrx⟩
  refine ⟨stable_settled t c hsettled, ?_⟩
  rw [tick]
  split
  · intro hnil
    apply hrx
    rcases List.take_eq_nil_iff.mp hnil with hzero | hnone
    · exact absurd hzero (Nat.succ_ne_zero _)
    · rw [rx, hnone, List.take_nil]
  · rw [rx, CommandQueue.advance_of_pending (process slave) hsettled.1]
    exact hrx

/-! ## The status register -/

theorem txNotEmpty_status (c : Core σ) :
    I2CBusRaw.txNotEmpty c.status = !c.tx.isEmpty := by
  unfold status
  cases c.isBusy <;> cases c.rx.isEmpty <;> cases c.tx.isEmpty <;> rfl

theorem busy_status (c : Core σ) : I2CBusRaw.busy c.status = c.isBusy := by
  unfold status
  cases c.isBusy <;> cases c.rx.isEmpty <;> cases c.tx.isEmpty <;> rfl

theorem rxEmpty_status (c : Core σ) :
    I2CBusRaw.rxEmpty c.status = c.rx.isEmpty := by
  unfold status
  cases c.isBusy <;> cases c.rx.isEmpty <;> cases c.tx.isEmpty <;> rfl

/-! ## Without the driver -/

/-- Left alone, the core carries out everything. -/
theorem settles (slave : Slave σ) (c : Core σ) :
    ∃ k, ((tick slave)^[k] c).commands.pending = [] := by
  by_cases h : c.commands.pending = []
  · exact ⟨0, h⟩
  · obtain ⟨k, hk⟩ := settles slave (c.tick slave)
    exact ⟨k + 1, hk⟩
termination_by
  (c.commands.work, c.commands.state.received.length - c.arrived)
decreasing_by
  rw [tick]
  split
  · next hmore =>
      apply Prod.Lex.right
      change c.commands.state.received.length - (c.arrived + 1) < _
      omega
  · exact Prod.Lex.left _ _ (CommandQueue.work_advance_lt (process slave) h)

end Core

end Transfers

end NetworkExperiments.Visensor.I2C
