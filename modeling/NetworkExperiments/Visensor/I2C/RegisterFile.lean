import NetworkExperiments.Support.Run
import NetworkExperiments.Visensor.I2C.AxiIic

/-!
# I2CBusRaw as a register file

With the AXI IIC core and the slave behind it, `writeReg` and `readReg` are the
operations of a plain map from register addresses to values, as long as the
loops end before the driver gives up.

The core lags behind the driver, so the simulation does not relate the map to
the registers of the slave at the moment, but to those that it will have when
the core has carried out the words in the TX FIFO.  A write leaves such words
behind; a read does not, since it waits for its second byte.
-/

namespace NetworkExperiments.Visensor.I2C

open EventSystem I2CBusRaw

variable {σ : Type*} {slave : Slave σ} {delay : ℕ → ℕ}

/-! ## Accesses to the core -/

theorem wait_stable {P : Core σ → Prop} (hP : Core.Stable slave P)
    {s : Clocked σ} (h : P s.core) : P (s.wait slave delay).core :=
  Function.Iterate.rec P h hP _

theorem poll_stable {P : Core σ → Prop} (hP : Core.Stable slave P)
    (waiting : ℕ → Bool) (n : ℕ) {s : Clocked σ} (h : P s.core) :
    P (poll (window slave delay) waiting n s).2.core := by
  induction n generalizing s with
  | zero => exact wait_stable hP h
  | succ n ih =>
      rw [poll]
      split
      · exact ih (wait_stable hP h)
      · exact wait_stable hP h

theorem poll_inTime {waiting : ℕ → Bool} {n : ℕ} {s : Clocked σ}
    (h : (poll (window slave delay) waiting n s).1 = true) :
    waiting (poll (window slave delay) waiting n s).2.core.status = false := by
  induction n generalizing s with
  | zero => exact Bool.not_eq_true' _ ▸ h
  | succ n ih =>
      rw [poll] at h ⊢
      split at h
      · next hwaiting =>
          rw [if_pos hwaiting]
          exact ih h
      · next hdone =>
          rw [if_neg hdone]
          exact Bool.eq_false_iff.mpr hdone

theorem final_writeWord (s : Clocked σ) (w : ℕ) :
    ((window slave delay).writeWord s 0x108 w).core.final slave =
      process slave (s.core.final slave) w := by
  have hwait : (s.wait slave delay).core.final slave = s.core.final slave :=
    wait_stable (Core.stable_final _) rfl
  rw [← hwait]
  exact Core.final_push w

/-- The words that a call sends first are sent to a core that has carried out
all the words before. -/
theorem waitReady_spec {s : Clocked σ}
    (h : (waitReady (window slave delay) s).2.1 = true) :
    (waitReady (window slave delay) s).1 = true ∧
      (waitReady (window slave delay) s).2.2.core.Settled
        (s.core.final slave) := by
  obtain ⟨htx, hbus⟩ := Bool.and_eq_true_iff.mp h
  have hempty := poll_inTime htx
  rw [Core.txNotEmpty_status, Bool.not_eq_false', List.isEmpty_iff] at hempty
  have hfree := poll_inTime hbus
  rw [Core.busy_status] at hfree
  have hfinal : ∀ (waiting : ℕ → Bool) (s' : Clocked σ),
      s'.core.final slave = s.core.final slave →
      (poll (window slave delay) waiting 10 s').2.core.final slave =
        s.core.final slave :=
    fun waiting s' => poll_stable (Core.stable_final _) waiting 10
  have hsettled := Core.settled_of_notBusy slave
    (poll_stable Core.stable_tx busy 10 hempty) hfree
  rw [hfinal _ _ (hfinal _ _ rfl)] at hsettled
  have hready : (waitReady (window slave delay) s).2.2.core.Settled
      (s.core.final slave) := wait_stable (Core.stable_settled _) hsettled
  refine ⟨?_, hready⟩
  change (!txNotEmpty (waitReady (window slave delay) s).2.2.core.status) =
    true
  rw [Core.txNotEmpty_status, hready.tx_eq]
  rfl

/-! ## The words of a call -/

theorem process_start (received : List UInt8) (s : σ) :
    process slave ⟨.idle, received, s⟩ (deviceAddress <<< 1 ||| 1 <<< 8) =
      ⟨.writing slaveAddress [], received, s⟩ := rfl

theorem process_writing {w : ℕ} (hstart : w.testBit 8 = false)
    (bytes received : List UInt8) (s : σ) :
    process slave ⟨.writing slaveAddress bytes, received, s⟩ w =
      if w.testBit 9 then
        ⟨.idle, received, slave.write s (bytes ++ [UInt8.ofNat w])⟩
      else
        ⟨.writing slaveAddress (bytes ++ [UInt8.ofNat w]), received, s⟩ := by
  rw [process, if_neg (Bool.eq_false_iff.mp hstart)]
  rfl

theorem process_byte (bytes received : List UInt8) (s : σ) (b : UInt8) :
    process slave ⟨.writing slaveAddress bytes, received, s⟩ b.toNat =
      ⟨.writing slaveAddress (bytes ++ [b]), received, s⟩ := by
  have hlt := UInt8.toNat_lt b
  have hstart : b.toNat.testBit 8 = false := Nat.testBit_lt_two_pow hlt
  have hstop : b.toNat.testBit 9 = false :=
    Nat.testBit_lt_two_pow (lt_trans hlt (by decide))
  rw [process_writing hstart, hstop, UInt8.ofNat_toNat]
  rfl

theorem process_lastByte (bytes received : List UInt8) (s : σ) (b : UInt8) :
    process slave ⟨.writing slaveAddress bytes, received, s⟩
        (b.toNat ||| 1 <<< 9) =
      ⟨.idle, received, slave.write s (bytes ++ [b])⟩ := by
  have hlt := UInt8.toNat_lt b
  have hstart : (b.toNat ||| 1 <<< 9).testBit 8 = false := by
    rw [Nat.testBit_or, Nat.testBit_lt_two_pow hlt]
    rfl
  have hstop : (b.toNat ||| 1 <<< 9).testBit 9 = true := by
    rw [Nat.testBit_or, Bool.or_eq_true]
    exact Or.inr rfl
  have hbyte : UInt8.ofNat (b.toNat ||| 1 <<< 9) = b := by
    have hor : b.toNat ||| 1 <<< 9 = 1 <<< 9 + b.toNat := by
      rw [Nat.or_comm, ← Nat.shiftLeft_add_eq_or_of_lt
        (lt_trans hlt (by decide : 2 ^ 8 < 2 ^ 9))]
    apply UInt8.toNat_inj.mp
    rw [hor, UInt8.toNat_ofNat']
    omega
  rw [process_writing hstart, hstop, hbyte]
  rfl

theorem process_restart (bytes received : List UInt8) (s : σ) :
    process slave ⟨.writing slaveAddress bytes, received, s⟩
        (deviceAddress <<< 1 ||| 0x01 ||| 1 <<< 8) =
      ⟨.reading slaveAddress bytes, received, s⟩ := rfl

theorem process_readTwo (reg : UInt8) (s : σ) :
    process slave ⟨.reading slaveAddress [reg], [], s⟩ (0x02 ||| 1 <<< 9) =
      ⟨.idle, [highByte (slave.registers s reg),
        lowByte (slave.registers s reg)], (slave.writeRead s [reg] 2).2⟩ := by
  rw [← slave.writeRead_bytes]
  rfl

/-! ## One call -/

/-- A write returns zero, and the register will be stored. -/
theorem writeReg_spec {s : Clocked σ} {t : σ}
    (hfinal : s.core.final slave = ⟨.idle, [], t⟩) (reg : UInt8)
    (data : Int16)
    (h : (writeReg (window slave delay) s reg data).inTime = true) :
    (writeReg (window slave delay) s reg data).ret = 0 ∧
      (writeReg (window slave delay) s reg data).state.core.final slave =
        ⟨.idle, [],
          slave.write t [reg, highbyte data, lowbyte data]⟩ := by
  have htime : (waitReady (window slave delay) s).2.1 = true := by
    rw [writeReg] at h
    split at h <;> exact h
  obtain ⟨hready, hsettled⟩ := waitReady_spec htime
  rw [writeReg, if_pos hready]
  refine ⟨rfl, ?_⟩
  rw [final_writeWord, final_writeWord, final_writeWord, final_writeWord,
    hsettled.final_eq, hfinal, process_start, process_byte, process_byte,
    process_lastByte]
  rfl

/-- After the words of a read, the last one makes the slave send the
register. -/
theorem sendRead_spec (delay : ℕ → ℕ) {s : Clocked σ} {t : σ}
    (h : s.core.final slave = ⟨.idle, [], t⟩) (reg : UInt8) :
    (sendRead (window slave delay) s reg).2.core.commands.Sent
      (process slave) (0x02 ||| 1 <<< 9)
      ⟨.reading slaveAddress [reg], [], t⟩ := by
  rw [sendRead]
  apply CommandQueue.sent_push
  apply wait_stable (Core.stable_final _)
  apply poll_stable (Core.stable_final _)
  rw [final_writeWord]
  have hwritten : ∀ s' : Clocked σ,
      s'.core.final slave = ⟨.writing slaveAddress [reg], [], t⟩ →
      (poll (window slave delay) txNotEmpty 10 s').2.core.final slave =
        ⟨.writing slaveAddress [reg], [], t⟩ :=
    fun s' => poll_stable (Core.stable_final _) txNotEmpty 10
  rw [hwritten, process_restart]
  rw [final_writeWord, final_writeWord, h, process_start, process_byte]
  rfl

theorem readByte_spec {P : Core σ → Prop} (hP : Core.Stable slave P)
    {bus : Bus} {b : UInt8} {bytes : List UInt8} {t : σ}
    (hsettled : ∀ c, P c → c.rx ≠ [] → c.Settled ⟨bus, b :: bytes, t⟩)
    {s : Clocked σ} (h : P s.core)
    (htime : (readByte (window slave delay) s).1 = true) :
    (readByte (window slave delay) s).2.1 = b.toNat ∧
      (readByte (window slave delay) s).2.2.core.Settled ⟨bus, bytes, t⟩ := by
  have hstatus := poll_inTime htime
  rw [Core.rxEmpty_status, List.isEmpty_eq_false_iff] at hstatus
  have hwaited := hsettled _ (poll_stable hP rxEmpty 10 h) hstatus
  have hread : ∀ s' : Clocked σ, s'.core.Settled ⟨bus, b :: bytes, t⟩ ∧
      s'.core.rx ≠ [] → (s'.wait slave delay).core.Settled
        ⟨bus, b :: bytes, t⟩ ∧ (s'.wait slave delay).core.rx ≠ [] :=
    fun s' => wait_stable Core.stable_rx
  obtain ⟨hbyte, hrx⟩ := hread _ ⟨hwaited, hstatus⟩
  exact Core.pop_of_settled hbyte hrx

/-- A read returns zero and the register, and leaves nothing behind. -/
theorem readReg_spec {s : Clocked σ} {t : σ}
    (hfinal : s.core.final slave = ⟨.idle, [], t⟩) (reg : UInt8)
    (data : Int16)
    (h : (readReg (window slave delay) s reg data).inTime = true) :
    (readReg (window slave delay) s reg data).ret = 0 ∧
      (readReg (window slave delay) s reg data).data =
        (slave.registers t reg).toInt16 ∧
      (readReg (window slave delay) s reg data).state.core.Settled
        ⟨.idle, [], (slave.writeRead t [reg] 2).2⟩ := by
  have htime : (waitReady (window slave delay) s).2.1 = true := by
    rw [readReg] at h
    split at h
    · simp only [Bool.and_eq_true] at h
      exact h.1.1.1
    · exact h
  obtain ⟨hready, hsettled⟩ := waitReady_spec htime
  rw [readReg, if_pos hready] at h ⊢
  simp only [Bool.and_eq_true] at h
  obtain ⟨⟨-, hhi⟩, hlo⟩ := h
  have hidle : (waitReady (window slave delay) s).2.2.core.final slave =
      ⟨.idle, [], t⟩ := hsettled.final_eq.trans hfinal
  have hsent := sendRead_spec delay hidle reg
  obtain ⟨hbyte, hrest⟩ := readByte_spec (Core.stable_sent _ _)
    (fun c hc hrx => (Core.settled_of_rx hc rfl hrx).of_eq
      (process_readTwo reg t)) hsent hhi
  obtain ⟨hbyte', hdone⟩ := readByte_spec (Core.stable_settled _)
    (fun c hc _ => hc) hrest hlo
  refine ⟨rfl, ?_, hdone⟩
  change Int16.ofNat (_ ||| _ <<< 8) = _
  rw [hbyte, hbyte', ofNat_bytes, ofBytes_bytes]

/-! ## Runs -/

/-- A call, with the value that `data` has before it. -/
inductive Call
  | writeReg (regAddr : UInt8) (data : Int16)
  | readReg (regAddr : UInt8) (data : Int16)
  deriving DecidableEq, Repr

/-- The call of the driver. -/
def perform (slave : Slave σ) (delay : ℕ → ℕ) (s : Clocked σ) :
    Call → Result (Clocked σ)
  | .writeReg regAddr data => writeReg (window slave delay) s regAddr data
  | .readReg regAddr data => readReg (window slave delay) s regAddr data

/-- What the call does to a plain map. -/
def Call.apply (registers : UInt8 → Int16) : Call → UInt8 → Int16
  | .writeReg regAddr data => Function.update registers regAddr data
  | .readReg _ _ => registers

/-- What the last call has returned. -/
structure Returned where
  call : Call
  ret : ℤ
  data : Int16

/-- The machine, a plain map to which the same calls are made, and what the
last call has returned. -/
structure State (σ : Type*) where
  machine : Clocked σ
  registers : UInt8 → Int16
  last : Option Returned

/-- The core is idle and both FIFOs are empty. -/
def start (slave : Slave σ) (s : σ) : State σ where
  machine := ⟨.idle s, 0⟩
  registers reg := (slave.registers s reg).toInt16
  last := none

def step (slave : Slave σ) (delay : ℕ → ℕ) (s : State σ) (call : Call) :
    Option (State σ) :=
  let result := perform slave delay s.machine call
  some ⟨result.state, call.apply s.registers,
    some ⟨call, result.ret, result.data⟩⟩

/-- The bus becomes idle and the FIFOs ready before the driver gives up. -/
def InTime (slave : Slave σ) (delay : ℕ → ℕ) (s : State σ) (call : Call) :
    Prop :=
  (perform slave delay s.machine call).inTime = true

instance (slave : Slave σ) (delay : ℕ → ℕ) (s : State σ) (call : Call) :
    Decidable (InTime slave delay s call) :=
  inferInstanceAs (Decidable (_ = true))

/-- The driver and the slave behave as the plain map: the last call has
returned zero, and the value of the map if it was a read; the slave will have
the values of the map when the core has carried out everything.  The RX FIFO
is empty, the TX FIFO too after a read, and else the core will empty it. -/
structure IsRegisterFile (slave : Slave σ) (s : State σ) : Prop where
  returns_zero : ∀ returned ∈ s.last, returned.ret = 0
  returns_value : ∀ returned ∈ s.last, ∀ regAddr data,
    returned.call = .readReg regAddr data →
      returned.data = s.registers regAddr
  registers_eq : ∀ reg,
    (slave.registers (s.machine.core.final slave).slave reg).toInt16 =
      s.registers reg
  rx_empty : s.machine.core.rx = []
  tx_empty : ∀ returned ∈ s.last, ∀ regAddr data,
    returned.call = .readReg regAddr data → s.machine.core.tx = []
  tx_empties : ∃ k, ∀ m, k ≤ m →
    ((Core.tick slave)^[m] s.machine.core).tx = []

/-- The transfers will be over, and the slave will have the values of the
map. -/
def Simulates (slave : Slave σ) (s : State σ) : Prop :=
  ∃ t, s.machine.core.final slave = ⟨.idle, [], t⟩ ∧
    ∀ reg, (slave.registers t reg).toInt16 = s.registers reg

theorem simulates_start (slave : Slave σ) (s : σ) :
    Simulates slave (start slave s) :=
  ⟨s, rfl, fun _ => rfl⟩

theorem registers_write (slave : Slave σ) (t : σ) (regAddr : UInt8)
    (data : Int16) :
    slave.registers (slave.write t [regAddr, highbyte data, lowbyte data]) =
      Function.update (slave.registers t) regAddr data.toUInt16 := by
  rw [slave.registers_write, highbyte_eq, lowbyte_eq, ofBytes_bytes]

/-- One call, of the machine and of the map. -/
theorem simulates_perform {s : State σ} {call : Call}
    (h : Simulates slave s) (htime : InTime slave delay s call) :
    ∃ t, (perform slave delay s.machine call).state.core.final slave =
        ⟨.idle, [], t⟩ ∧
      ∀ reg, (slave.registers t reg).toInt16 = call.apply s.registers reg := by
  obtain ⟨t, hfinal, hregisters⟩ := h
  cases call with
  | writeReg regAddr data =>
      refine ⟨_, (writeReg_spec hfinal regAddr data htime).2, fun reg => ?_⟩
      rw [registers_write, Call.apply]
      by_cases hreg : reg = regAddr
      · rw [hreg, Function.update_self, Function.update_self,
          Int16.toInt16_toUInt16]
      · rw [Function.update_of_ne hreg, Function.update_of_ne hreg,
          hregisters]
  | readReg regAddr data =>
      obtain ⟨-, -, hsettled⟩ := readReg_spec hfinal regAddr data htime
      refine ⟨_, hsettled.final_eq, fun reg => ?_⟩
      rw [slave.registers_writeRead, Call.apply, hregisters]

theorem tx_empties (slave : Slave σ) (c : Core σ) :
    ∃ k, ∀ m, k ≤ m → ((Core.tick slave)^[m] c).tx = [] := by
  obtain ⟨k, hk⟩ := Core.settles slave c
  have htx : ((Core.tick slave)^[k] c).tx = [] :=
    (List.append_eq_nil_iff.mp hk).2
  have hstable : Core.Stable slave fun c => c.tx = [] := Core.stable_tx
  refine ⟨k, fun m hm => ?_⟩
  rw [← Nat.sub_add_cancel hm, Function.iterate_add_apply]
  exact Function.Iterate.rec (fun c : Core σ => c.tx = []) htx hstable _

/-- A call in time keeps the simulation, and returns what the map has. -/
theorem isRegisterFile_step {s s' : State σ} {call : Call}
    (h : Simulates slave s) (htime : InTime slave delay s call)
    (hstep : step slave delay s call = some s') :
    Simulates slave s' ∧ IsRegisterFile slave s' := by
  obtain ⟨t', hfinal', hregisters'⟩ := simulates_perform h htime
  obtain ⟨t, hfinal, hregisters⟩ := h
  cases hstep
  refine ⟨⟨t', hfinal', hregisters'⟩, ?_⟩
  have hrx : (perform slave delay s.machine call).state.core.rx = [] :=
    Core.rx_eq_nil (congrArg Transfer.received hfinal')
  have hvalues : ∀ reg, (slave.registers ((perform slave delay s.machine
      call).state.core.final slave).slave reg).toInt16 =
      call.apply s.registers reg := by
    rw [hfinal']
    exact hregisters'
  cases call with
  | writeReg regAddr data =>
      obtain ⟨hret, -⟩ := writeReg_spec hfinal regAddr data htime
      refine ⟨?_, ?_, hvalues, hrx, ?_, tx_empties slave _⟩
      · rintro _ ⟨⟩
        exact hret
      · rintro _ ⟨⟩ regAddr' data' hcall
        cases hcall
      · rintro _ ⟨⟩ regAddr' data' hcall
        cases hcall
  | readReg regAddr data =>
      obtain ⟨hret, hdata, hsettled⟩ :=
        readReg_spec hfinal regAddr data htime
      refine ⟨?_, ?_, hvalues, hrx, ?_, tx_empties slave _⟩
      · rintro _ ⟨⟩
        exact hret
      · rintro _ ⟨⟩ regAddr' data' hcall
        cases hcall
        exact hdata.trans (hregisters regAddr)
      · rintro _ ⟨⟩ regAddr' data' hcall
        exact hsettled.tx_eq

theorem isRegisterFile_start (slave : Slave σ) (s : σ) :
    IsRegisterFile slave (start slave s) where
  returns_zero := by simp [start]
  returns_value := by simp [start]
  registers_eq _ := rfl
  rx_empty := rfl
  tx_empty := by simp [start]
  tx_empties := tx_empties slave _

/-- `I2CBusRaw` is a register file over every sequence of calls in which the
loops are in time. -/
theorem i2cBusRaw_isRegisterFile (slave : Slave σ) (delay : ℕ → ℕ) (s : σ)
    (calls : List Call)
    (h : EachStep (step slave delay) (InTime slave delay) (start slave s)
      calls) :
    EachState (step slave delay) (IsRegisterFile slave) (start slave s)
      calls := by
  have hboth : EachState (step slave delay)
      (fun s => Simulates slave s ∧ IsRegisterFile slave s) (start slave s)
      calls :=
    eachState_of_eachStep
      (fun _ _ _ hs htime hstep => isRegisterFile_step hs.1 htime hstep)
      ⟨simulates_start slave s, isRegisterFile_start slave s⟩ h
  exact hboth.mono fun _ hs => hs.2

/-- A value is written to a register and read back, with a core that takes
three steps before each access. -/
theorem writeRead_isRegisterFile :
    EachState (step plainSlave fun _ => 3) (IsRegisterFile plainSlave)
      (start plainSlave fun _ => 0)
      [.writeReg 0x20 0x03c7, .readReg 0x20 0] :=
  i2cBusRaw_isRegisterFile plainSlave (fun _ => 3) (fun _ => 0)
    [.writeReg 0x20 0x03c7, .readReg 0x20 0] (by decide +kernel)

/-- The core has not got to the last word of a write when the call returns, also
when it is in time for the loops of the next call. -/
theorem tx_not_empty_after_write :
    ¬ ∀ (slave : Slave (UInt8 → UInt16)) (delay : ℕ → ℕ)
        (s : UInt8 → UInt16) (calls : List Call),
      EachStep (step slave delay) (InTime slave delay) (start slave s)
          calls →
        EachState (step slave delay)
          (fun s => s.machine.core.rx = [] ∧ s.machine.core.tx = [])
          (start slave s) calls := by
  intro hall
  have hstates := hall plainSlave (fun _ => 3) (fun _ => 0)
    [.writeReg 0x20 0x03c7, .readReg 0x20 0] (by decide +kernel)
  exact absurd (hstates.2 _ rfl).here.2 (by decide +kernel)

end NetworkExperiments.Visensor.I2C
